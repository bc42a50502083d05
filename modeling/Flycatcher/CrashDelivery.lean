import Flycatcher.HandleOnce
import Flycatcher.HandleRecovery

namespace Flycatcher.CrashDelivery

open Library.TextStreams Library.Directories Library.Runs FileNames Polling Handle HandleRecovery
open HandleOnce (Holder Streamed)

def Waits (s : State) (other : Str) : Prop :=
  other ∈ s.queue ∨ ∃ w, holds (s.workers w) = some (other, .waiting)

def NoneHeld (name : Str) (P : Nat → Prop) (s : State) : Prop :=
  ∀ w other, P w → holds (s.workers w) = some (other, .inprogress) → ¬ Family name other

/-- Either no processor has the file, or one alone streams it. The names of the
family that wait are those that it has had before. -/
inductive Course (name content : Str) (s : State) : Prop
  | free (hwait : ∀ other n, Waits s other → Family name other → n ∈ s.directory.names →
        Family name n → other.length ≤ n.length)
      (hheld : NoneHeld name (fun _ => True) s)
  | held (w : Nat) (other : Str) (hfamily : Family name other)
      (hfind : s.directory.find (inprogress other) = some content)
      (hphase : Holder other content (s.workers w))
      (hwait : ∀ n, Waits s n → Family name n → n.length ≤ other.length)
      (hheld : NoneHeld name (· ≠ w) s)

def Opens (name : Str) (s : State) : Label → Prop
  | .worker w .openFile => ∃ other, s.workers w = .renamed other ∧ Family name other
  | _ => False

def Archives (name content : Str) (s : State) : Label → Prop
  | .worker w .renameLast => ∃ other rows ending, s.workers w = .closing other rows ending ∧
      Family name other ∧ Streamed content rows ending
  | _ => False

theorem holder_holds {name content : Str} {phase : Phase} (h : Holder name content phase) :
    holds phase = some (name, .inprogress) := by
  cases phase with
  | renamed other =>
      obtain rfl := h
      rfl
  | reading other | closing other =>
      obtain ⟨rfl, -⟩ := h
      rfl
  | idle | taken | entered | leaving => exact h.elim

theorem worked_waits {s t : State} {w : Nat} {a : Action} (h : Worked s w a t) {other : Str}
    (ht : Waits t other) : Waits s other := by
  rcases ht with hm | ⟨v, hv⟩
  · exact .inl (worked_queue h other hm)
  · rcases worked_holds_any h hv with hv | ⟨_, hm, he⟩ | ⟨_, -, -, -, he⟩
    · exact .inr ⟨v, hv⟩
    · cases he
      exact .inl hm
    · cases he

theorem worked_noneHeld {name : Str} {P : Nat → Prop} {s t : State} {w : Nat} {a : Action}
    (h : Worked s w a t) (hs : NoneHeld name P s)
    (hfirst : ∀ other ∈ s.directory.names, a = .renameFirst → s.workers w = .entered other →
      ¬ Family name other) : NoneHeld name P t := by
  intro v other hv hp
  rcases worked_holds_any h hp with hp | ⟨_, -, he⟩ | ⟨_, hm, ha, hphase, he⟩
  · exact hs v other hv hp
  · cases he
  · cases he
    exact hfirst other hm ha hphase

variable {dir name content : Str} {s t : State}

theorem worked_course_holder {w : Nat} {a : Action} {other : Str} (h : Worked s w a t)
    (hfind : s.directory.find (inprogress other) = some content)
    (hphase : Holder other content (s.workers w)) :
    t.directory = s.directory ∧ Holder other content (t.workers w) ∨
      a = .renameLast ∧ holds (t.workers w) = none ∧
        s.directory.rename (inprogress other) (done other) = some t.directory := by
  cases h with
  | take hw | increment hw | renamed hw | missing hw | decrement hw =>
      rw [hw] at hphase
      exact hphase.elim
  | opened hw =>
      rw [hw] at hphase
      obtain rfl := hphase
      refine .inl ⟨rfl, ?_⟩
      rw [goto_workers_self, hfind]
      exact ⟨rfl, rfl, rfl, Nat.zero_le _⟩
  | row outcome hw =>
      rw [hw] at hphase
      obtain ⟨rfl, hrows, hexc, hle⟩ := hphase
      refine .inl ⟨rfl, ?_⟩
      rw [goto_workers_self]
      exact HandleOnce.afterRow_holder hrows hexc hle outcome
  | endOfFile hw =>
      rw [hw] at hphase
      obtain ⟨rfl, hrows, hexc, hle⟩ := hphase
      refine .inl ⟨rfl, ?_⟩
      rw [goto_workers_self]
      exact ⟨rfl, by simpa using hrows, hexc ▸ hle⟩
  | loadFails hw =>
      rw [hw] at hphase
      obtain ⟨rfl, hrows, hexc, hle⟩ := hphase
      refine .inl ⟨rfl, ?_⟩
      rw [goto_workers_self]
      exact ⟨rfl, ⟨_, hrows⟩, hexc ▸ hle⟩
  | archived hw hr =>
      rw [hw] at hphase
      obtain ⟨rfl, hrows⟩ := hphase
      refine .inr ⟨rfl, ?_, hr⟩
      rw [goto_workers_self]
      rfl
  | unarchived hw hr =>
      rw [hw] at hphase
      obtain ⟨rfl, hrows⟩ := hphase
      exact absurd (Directory.find_isSome.mp (Option.isSome_of_eq_some hfind)) hr

theorem worked_renameFirst {w : Nat} {other : Str} (h : Worked s w .renameFirst t)
    (hphase : s.workers w = .entered other) (hmem : other ∈ s.directory.names) :
    t.workers w = .renamed other ∧ t.directory.find other = none := by
  cases h with
  | renamed hw hr =>
      cases hw.symm.trans hphase
      refine ⟨goto_workers_self .., ?_⟩
      have hfind := Directory.find_rename (inprogress_ne_self other).symm hr other
      rw [if_neg (inprogress_ne_self other).symm, if_pos rfl] at hfind
      exact hfind
  | missing hw hr =>
      cases hw.symm.trans hphase
      exact absurd hmem hr

theorem find_rename_other {source target : Str} {e : Directory Str Str} (hne : source ≠ target)
    (hsource : ¬ Family name source) (htarget : ¬ Family name target)
    (hr : s.directory.rename source target = some e) {other : Str} (hother : Family name other) :
    e.find other = s.directory.find other := by
  have ht : other ≠ target := fun he => htarget (he ▸ hother)
  have hs : other ≠ source := fun he => hsource (he ▸ hother)
  rw [Directory.find_rename hne hr, if_neg ht, if_neg hs]

inductive Touched (name : Str) (s : State) (w : Nat) (t : State) : Action → Prop
  | not {a : Action} (hfind : ∀ other, Family name other →
        t.directory.find other = s.directory.find other)
      (hfirst : ∀ other ∈ s.directory.names, a = .renameFirst → s.workers w = .entered other →
        ¬ Family name other) : Touched name s w t a
  | first (other : Str) (hfamily : Family name other) (hphase : s.workers w = .entered other)
      (hr : s.directory.rename other (inprogress other) = some t.directory)
      (hrenamed : t.workers w = .renamed other) : Touched name s w t .renameFirst
  | last (other : Str) (rows : Rows) (ending : Ending) (hfamily : Family name other)
      (hphase : s.workers w = .closing other rows ending)
      (hr : s.directory.rename (inprogress other) (done other) = some t.directory) :
      Touched name s w t .renameLast

theorem worked_touched {w : Nat} {a : Action} (h : Worked s w a t)
    (hl : NoCollision name s (.worker w a))
    (hheld : ∀ w other, holds (s.workers w) = some (other, .inprogress) →
      Family name (inprogress other) → Family name other) : Touched name s w t a := by
  rcases worked_directory h with ⟨hd, -⟩ | ⟨other, rfl, hphase, hr, -⟩ |
    ⟨other, rows, ending, rfl, hphase, hr, -⟩
  · refine .not (fun other _ => by rw [hd]) ?_
    rintro other hm rfl hphase -
    have hgone := (worked_renameFirst h hphase hm).2
    rw [hd, ← Option.not_isSome_iff_eq_none, Directory.find_isSome] at hgone
    exact hgone hm
  · have hm := Directory.mem_of_rename hr
    by_cases hfamily : Family name other
    · exact .first other hfamily hphase hr (worked_renameFirst h hphase hm).1
    · have htarget : ¬ Family name (inprogress other) := fun h => hfamily (hl other hm hphase h)
      refine .not (fun n hn =>
        find_rename_other (inprogress_ne_self other).symm hfamily htarget hr hn) ?_
      rintro n - - hn
      cases hphase.symm.trans hn
      exact hfamily
  · have hm := Directory.mem_of_rename hr
    by_cases hfamily : Family name (inprogress other)
    · have hother := hheld w other (by rw [hphase]; rfl) hfamily
      exact .last other rows ending hother hphase hr
    · have htarget : ¬ Family name (done other) :=
        fun h => hfamily (hl other rows ending hm hphase h)
      refine .not (fun n hn =>
        find_rename_other (inprogress_ne_done _ _) hfamily htarget hr hn) ?_
      rintro n - he
      cases he

theorem mem_of_find {other : Str} (h : t.directory.find other = s.directory.find other)
    (hm : other ∈ t.directory.names) : other ∈ s.directory.names := by
  rw [← Directory.find_isSome, h, Directory.find_isSome] at hm
  exact hm

theorem noneHeld_others {P : Nat → Prop} {w : Nat} {a : Action} (h : Worked s w a t)
    (hs : NoneHeld name (· ≠ w) s) (hw : P w → ∀ other,
      holds (t.workers w) = some (other, .inprogress) → ¬ Family name other) :
    NoneHeld name P t := by
  intro v other hv hp
  by_cases he : v = w
  · subst he
    exact hw hv other hp
  · rw [worked_others h v he] at hp
    exact hs v other he hp

theorem worked_course {w : Nat} {a : Action} (h : Worked s w a t)
    (hl : NoCollision name s (.worker w a)) {k : Nat} {current : Str}
    (hs : Alive name content s k current) (hc : Course name content s) : Course name content t := by
  have htouched := worked_touched h hl hs.held
  have hcurrent := hs.find
  cases hc with
  | free hwait hheld =>
      cases htouched with
      | not hfind hfirst =>
          refine .free ?_ (worked_noneHeld h hheld hfirst)
          intro other n ho hfo hn hfn
          exact hwait other n (worked_waits h ho) hfo (mem_of_find (hfind n hfn) hn) hfn
      | first other hfamily hphase hr hrenamed =>
          have hm := Directory.mem_of_rename hr
          obtain rfl := hs.alone other hm hfamily
          obtain ⟨hfind, -⟩ := rename_current hs.find hs.alone (inprogress_ne_self other).symm hr
          refine .held w other hfamily hfind (by rw [hrenamed]; rfl) ?_ ?_
          · intro n hn hfn
            exact hwait n other (worked_waits h hn) hfn hm hfamily
          · exact noneHeld_others h (fun v n _ => hheld v n trivial) fun hne => absurd rfl hne
      | last other rows ending hfamily hphase hr =>
          have hholds : holds (s.workers w) = some (other, .inprogress) := by rw [hphase]; rfl
          exact absurd hfamily (hheld w other trivial hholds)
  | held w₀ other₀ hfamily₀ hfind₀ hphase₀ hwait hheld =>
      have hmem₀ : inprogress other₀ ∈ s.directory.names :=
        Directory.find_isSome.mp (Option.isSome_of_eq_some hfind₀)
      by_cases hw : w = w₀
      · subst hw
        rcases worked_course_holder h hfind₀ hphase₀ with ⟨hd, hholder⟩ | ⟨rfl, hnone, hr⟩
        · refine .held w other₀ hfamily₀ (hd ▸ hfind₀) hholder ?_ ?_
          · intro n hn hfn
            exact hwait n (worked_waits h hn) hfn
          · exact noneHeld_others h hheld fun hne => absurd rfl hne
        · obtain rfl := hs.alone _ hmem₀ (.inprogress hfamily₀)
          obtain ⟨-, halone⟩ := rename_current hs.find hs.alone (inprogress_ne_done _ _) hr
          refine .free ?_ ?_
          · intro n m hn hfn hm hfm
            have hle := hwait n (worked_waits h hn) hfn
            rw [halone m hm hfm, done, List.length_append]
            omega
          · refine noneHeld_others h hheld fun _ n hp => ?_
            rw [hnone] at hp
            cases hp
      · have hphase : Holder other₀ content (t.workers w₀) := by
          rw [worked_others h w₀ (Ne.symm hw)]
          exact hphase₀
        have hwait' : ∀ n, Waits t n → Family name n → n.length ≤ other₀.length :=
          fun n hn hfn => hwait n (worked_waits h hn) hfn
        cases htouched with
        | not hfind hfirst =>
            refine .held w₀ other₀ hfamily₀ ?_ hphase hwait' (worked_noneHeld h hheld hfirst)
            rw [hfind _ (.inprogress hfamily₀)]
            exact hfind₀
        | first other hfamily hentered hr hrenamed =>
            -- the name waits, so that it is an earlier one of the file
            have hsame : inprogress other₀ = other :=
              (hs.alone _ hmem₀ (.inprogress hfamily₀)).trans
                (hs.alone _ (Directory.mem_of_rename hr) hfamily).symm
            have hle := hwait other (.inr ⟨w, by rw [hentered]; rfl⟩) hfamily
            rw [← hsame, inprogress_length] at hle
            omega
        | last other rows ending hfamily hclosing hr =>
            have hholds : holds (s.workers w) = some (other, .inprogress) := by rw [hclosing]; rfl
            exact absurd hfamily (hheld w other hw hholds)

theorem family_enqueued {other : Str} (h : shouldAddFile (eventPath dir other) false = true)
    (hfamily : Family name other) : other = name := by
  rw [shouldAddFile_eventPath] at h
  cases hfamily with
  | self => rfl
  | inprogress => exact absurd h (HandleOnce.not_shouldAddFile_inprogress _)
  | done => exact absurd h (HandleOnce.not_shouldAddFile_done _)

structure Followed (name content : Str) (s : State) : Prop where
  undone : Undone s
  alive : ∃ k current, Alive name content s k current
  course : Course name content s

theorem waits_enqueued {other n : Str} (h : Waits { s with queue := s.queue ++ [other] } n) :
    Waits s n ∨ n = other := by
  rcases h with hm | hw
  · rcases List.mem_append.mp hm with hm | hm
    · exact .inl (.inl hm)
    · exact .inr (List.mem_singleton.mp hm)
  · exact .inl (.inr hw)

theorem course_enqueue {other : Str} (h : shouldAddFile (eventPath dir other) false = true)
    (hc : Course name content s) :
    Course name content { s with queue := s.queue ++ [other] } := by
  cases hc with
  | free hwait hheld =>
      refine .free ?_ hheld
      intro n m hn hfn hm hfm
      rcases waits_enqueued hn with hn | rfl
      · exact hwait n m hn hfn hm hfm
      · rw [family_enqueued h hfn]
        exact family_length hfm
  | held w other₀ hfamily hfind hphase hwait hheld =>
      refine .held w other₀ hfamily hfind hphase ?_ hheld
      intro n hn hfn
      rcases waits_enqueued hn with hn | rfl
      · exact hwait n hn hfn
      · rw [family_enqueued h hfn]
        exact family_length hfamily

theorem course_create {other text : Str} {e : Directory Str Str}
    (he : s.directory.create other text = some e) (hother : ¬ Family name other)
    (hc : Course name content s) :
    Course name content { s with directory := e, created := other :: s.created } := by
  have hkeep {n : Str} (hn : Family name n) : e.find n = s.directory.find n := by
    have hne : n ≠ other := fun he => hother (he ▸ hn)
    rw [Directory.find_create he, if_neg hne]
  cases hc with
  | free hwait hheld =>
      refine .free ?_ hheld
      intro n m hn hfn hm hfm
      have hm : m ∈ e.names := hm
      rw [← Directory.find_isSome, hkeep hfm, Directory.find_isSome] at hm
      exact hwait n m hn hfn hm hfm
  | held w other₀ hfamily hfind hphase hwait hheld =>
      exact .held w other₀ hfamily ((hkeep (.inprogress hfamily)).trans hfind) hphase hwait hheld

theorem step_followed (dir name content : Str) (s : State) (l : Label) (t : State)
    (h : step dir s l = some t) (hl : NoCollision name s l) (hs : Followed name content s) :
    Followed name content t := by
  obtain ⟨hundone, halive⟩ := step_alive dir name content s l t h hl ⟨hs.undone, hs.alive⟩
  refine ⟨hundone, halive, ?_⟩
  obtain ⟨k, current, hcurrent⟩ := hs.alive
  cases l with
  | worker w a => exact worked_course (workerStep_worked h) hl hcurrent hs.course
  | create other text =>
      obtain ⟨e, he, rfl⟩ := Option.map_eq_some_iff.mp h
      exact course_create he hl hs.course
  | enqueue other =>
      obtain ⟨hadd, he⟩ := Option.ite_none_right_eq_some.mp h
      cases he
      exact course_enqueue hadd hs.course
  | restart =>
      obtain rfl := Option.some.inj h
      refine .free ?_ fun w other _ hp => (by cases hp)
      intro other n ho hfo hn hfn
      rcases ho with hm | ⟨w, hw⟩
      · rw [hcurrent.alone n hn hfn,
          hcurrent.alone other (mem_startupListing.mp hm).1 hfo]
      · cases hw

theorem init_followed {d : Directory Str Str} (hfind : d.find name = some content)
    (halone : ∀ other ∈ d.names, Family name other → other = name) :
    Followed name content (init d) := by
  refine ⟨init_undone d, ⟨0, name, init_alive hfind halone⟩, .free ?_ fun w other _ hp => ?_⟩
  · rintro other n (hm | ⟨w, hw⟩)
    · cases hm
    · cases hw
  · cases hp

theorem step_archives {l : Label} (h : step dir s l = some t) (hl : NoCollision name s l)
    (hs : Followed name content s) (hna : ¬ HandleRecovery.Archived name s)
    (ha : HandleRecovery.Archived name t) : Archives name content s l := by
  have hmoves (hm : t.moves = s.moves) : Archives name content s l := by
    rw [HandleRecovery.Archived, hm] at ha
    exact absurd ha hna
  obtain ⟨k, current, hcurrent⟩ := hs.alive
  cases l with
  | create other text =>
      obtain ⟨e, he, rfl⟩ := Option.map_eq_some_iff.mp h
      exact hmoves rfl
  | enqueue other =>
      obtain ⟨-, he⟩ := Option.ite_none_right_eq_some.mp h
      cases he
      exact hmoves rfl
  | restart =>
      obtain rfl := Option.some.inj h
      exact hmoves rfl
  | worker w a =>
      have hworked := workerStep_worked h
      rcases worked_directory hworked with ⟨-, hm⟩ | ⟨other, -, -, -, hm⟩ |
        ⟨other, rows, ending, rfl, hphase, hr, hm⟩
      · exact hmoves hm
      · rw [archived_append hm] at ha
        exact absurd (ha.resolve_left hna).2 (not_doneMark_suffix_inprogress other)
      · rw [archived_append hm] at ha
        have hfamily := hcurrent.held w other (by rw [hphase]; rfl) (ha.resolve_left hna).1
        refine ⟨other, rows, ending, hphase, hfamily, ?_⟩
        have hholds : holds (s.workers w) = some (other, .inprogress) := by rw [hphase]; rfl
        cases hs.course with
        | free hwait hheld => exact absurd hfamily (hheld w other trivial hholds)
        | held w₀ other₀ hfamily₀ hfind₀ hholder hwait hheld =>
            by_cases hw : w = w₀
            · subst hw
              rw [hphase] at hholder
              exact hholder.2
            · exact absurd hfamily (hheld w other hw hholds)

/-- The file has been opened in this run of the program: its earlier names alone
wait, and it has none of them. -/
structure Past (name other : Str) (s : State) : Prop where
  family : Family name other
  wait : ∀ n, Waits s n → Family name n → n.length ≤ other.length
  names : ∀ n ∈ s.directory.names, Family name n → n = inprogress other ∨ n = done other
  opened : ∀ w n, s.workers w = .renamed n → ¬ Family name n

theorem worked_to_renamed {w : Nat} {a : Action} {n : Str} (h : Worked s w a t)
    (ht : t.workers w = .renamed n) :
    a = .renameFirst ∧ s.workers w = .entered n ∧ n ∈ s.directory.names := by
  cases h with
  | renamed hw hr =>
      rw [goto_workers_self] at ht
      cases ht
      exact ⟨rfl, hw, Directory.mem_of_rename hr⟩
  | @row other _ excCount rows rest outcome hw =>
      rw [goto_workers_self] at ht
      rcases afterRow_cases other excCount (rows ++ [(_, outcome)]) rest outcome with ⟨m, he⟩ | he
      · cases he.symm.trans ht
      · cases he.symm.trans ht
  | take | increment | missing | opened | endOfFile | loadFails | archived | unarchived
  | decrement =>
      rw [goto_workers_self] at ht
      cases ht

theorem worked_past {w : Nat} {a : Action} {other : Str} (h : Worked s w a t)
    (hl : NoCollision name s (.worker w a)) {k : Nat} {current : Str}
    (hs : Alive name content s k current) (hp : Past name other s) : Past name other t := by
  have hwait : ∀ n, Waits t n → Family name n → n.length ≤ other.length :=
    fun n hn hfn => hp.wait n (worked_waits h hn) hfn
  have hopened (hfirst : ∀ n ∈ s.directory.names, a = .renameFirst → s.workers w = .entered n →
      ¬ Family name n) : ∀ v n, t.workers v = .renamed n → ¬ Family name n := by
    intro v n hv
    by_cases he : v = w
    · subst he
      obtain ⟨ha, hphase, hm⟩ := worked_to_renamed h hv
      exact hfirst n hm ha hphase
    · rw [worked_others h v he] at hv
      exact hp.opened v n hv
  cases worked_touched h hl hs.held with
  | not hfind hfirst =>
      refine ⟨hp.family, hwait, ?_, hopened hfirst⟩
      intro n hn hfn
      exact hp.names n (mem_of_find (hfind n hfn) hn) hfn
  | first other' hfamily hphase hr hrenamed =>
      have hle := hp.wait other' (.inr ⟨w, by rw [hphase]; rfl⟩) hfamily
      rcases hp.names other' (Directory.mem_of_rename hr) hfamily with rfl | rfl
      · rw [inprogress_length] at hle
        omega
      · rw [done, List.length_append] at hle
        have hmark : 0 < doneMark.length := by decide
        omega
  | last other' rows ending hfamily hphase hr =>
      obtain rfl := hs.alone _ (Directory.mem_of_rename hr) (.inprogress hfamily)
      obtain ⟨-, halone⟩ := rename_current hs.find hs.alone (inprogress_ne_done _ _) hr
      have hsame : other' = other := by
        rcases hp.names _ (Directory.mem_of_rename hr) (.inprogress hfamily) with he | he
        · exact inprogress_injective he
        · exact absurd he (inprogress_ne_done _ _)
      subst hsame
      refine ⟨hp.family, hwait, fun n hn hfn => .inr (halone n hn hfn), hopened ?_⟩
      rintro n - he
      cases he

theorem step_past {l : Label} {other : Str} (h : step dir s l = some t) (hl : NoCollision name s l)
    (hno : l ≠ .restart) (hs : Followed name content s) (hp : Past name other s) :
    Past name other t := by
  obtain ⟨k, current, hcurrent⟩ := hs.alive
  cases l with
  | worker w a => exact worked_past (workerStep_worked h) hl hcurrent hp
  | create n text =>
      obtain ⟨e, he, rfl⟩ := Option.map_eq_some_iff.mp h
      refine ⟨hp.family, hp.wait, ?_, hp.opened⟩
      intro m hm hfm
      have hm : m ∈ e.names := hm
      have hne : m ≠ n := fun he => hl (he ▸ hfm)
      rw [← Directory.find_isSome, Directory.find_create he, if_neg hne,
        Directory.find_isSome] at hm
      exact hp.names m hm hfm
  | enqueue n =>
      obtain ⟨hadd, he⟩ := Option.ite_none_right_eq_some.mp h
      cases he
      refine ⟨hp.family, ?_, hp.names, hp.opened⟩
      intro m hm hfm
      rcases waits_enqueued hm with hm | rfl
      · exact hp.wait m hm hfm
      · rw [family_enqueued hadd hfm]
        exact family_length hp.family
  | restart => exact absurd rfl hno

theorem opens_past {l : Label} (h : step dir s l = some t) (hs : Followed name content s)
    (ho : Opens name s l) : ∃ other, Past name other t := by
  obtain ⟨k, current, hcurrent⟩ := hs.alive
  cases l with
  | create | enqueue | restart => exact ho.elim
  | worker w a =>
  cases a with
  | take | increment | renameFirst | row | endOfFile | loadFails | renameLast | decrement =>
      exact ho.elim
  | openFile =>
      obtain ⟨other, hphase, hfamily⟩ := ho
      have hholds : holds (s.workers w) = some (other, .inprogress) := by rw [hphase]; rfl
      have hworked := workerStep_worked h
      cases hs.course with
      | free hwait hheld => exact absurd hfamily (hheld w other trivial hholds)
      | held w₀ other₀ hfamily₀ hfind₀ hholder hwait hheld =>
          have hw : w = w₀ := by
            by_contra hne
            exact hheld w other hne hholds hfamily
          subst hw
          have hsame : (other, Stage.inprogress) = (other₀, Stage.inprogress) :=
            Option.some.inj (hholds.symm.trans (holder_holds hholder))
          cases hsame
          have hmem := Directory.find_isSome.mp (Option.isSome_of_eq_some hfind₀)
          have hdirectory : t.directory = s.directory := by cases hworked; rfl
          refine ⟨other, hfamily, fun n hn hfn => hwait n (worked_waits hworked hn) hfn, ?_, ?_⟩
          · intro n hn hfn
            rw [hdirectory] at hn
            left
            rw [hcurrent.alone n hn hfn, hcurrent.alone _ hmem (.inprogress hfamily)]
          · intro v n hv
            by_cases he : v = w
            · subst he
              cases (worked_to_renamed hworked hv).1
            · rw [worked_others hworked v he] at hv
              exact hheld v n he (by rw [hv]; rfl)

theorem not_opens_of_past {l : Label} {other : Str} (hp : Past name other s) :
    ¬ Opens name s l := by
  intro ho
  cases l with
  | create | enqueue | restart => exact ho
  | worker w a =>
  cases a with
  | take | increment | renameFirst | row | endOfFile | loadFails | renameLast | decrement =>
      exact ho
  | openFile =>
      obtain ⟨n, hphase, hfamily⟩ := ho
      exact hp.opened w n hphase hfamily

variable {d : Directory Str Str} {tr : List Label}

/-- Whatever crashes there are: a file is archived by a processor that has been
through its rows from the first one on, and it is opened at most once between
one start of the program and the next. -/
theorem streamed_across_crashes (hfind : d.find name = some content)
    (halone : ∀ other ∈ d.names, Family name other → other = name)
    (hr : run (step dir) (init d) tr = some s)
    (hl : Along (step dir) (NoCollision name) (init d) tr) :
    (HandleRecovery.Archived name s → ∃ xs l ys u, tr = xs ++ l :: ys ∧
      run (step dir) (init d) xs = some u ∧ Archives name content u l) ∧
    ∀ xs l ys l' zs u v, tr = xs ++ l :: (ys ++ l' :: zs) →
      run (step dir) (init d) xs = some u → Opens name u l →
      run (step dir) u (l :: ys) = some v → Opens name v l' → .restart ∈ ys := by
  have hinit := init_followed hfind halone
  constructor
  · intro ha
    have hnot : ¬ Along (step dir) (fun s l => ∀ t, step dir s l = some t →
        HandleRecovery.Archived name t → HandleRecovery.Archived name s) (init d) tr := by
      intro hkeep
      have hna := run_invariant_along (I := fun s => ¬ HandleRecovery.Archived name s)
        (fun s l t h hP hna ht => hna (hP t h ht)) hkeep hr
        (by rintro ⟨move, hm, -⟩; cases hm)
      exact hna ha
    obtain ⟨u, v, l, xs, ys, rfl, hxs, hP, hstep, -⟩ := exists_of_not_along hr hnot
    obtain ⟨w, hP⟩ := not_forall.mp hP
    obtain ⟨hw, hP⟩ := Classical.not_imp.mp hP
    obtain ⟨hat, hna⟩ := Classical.not_imp.mp hP
    obtain ⟨hlx, hly⟩ := (along_append hxs).mp hl
    have hu := run_invariant_along (step_followed dir name content) hlx hxs hinit
    exact ⟨xs, l, ys, u, rfl, hxs, step_archives hw hly.1 hu hna hat⟩
  · rintro xs l ys l' zs u v rfl hxs ho hlys ho'
    by_contra hno
    obtain ⟨hlx, hly⟩ := (along_append hxs).mp hl
    have hu := run_invariant_along (step_followed dir name content) hlx hxs hinit
    obtain ⟨t, ht, hys⟩ := run_cons_eq_some.mp hlys
    have hlt := (along_append hys).mp (((along_cons_iff ht).mp hly).2)
    have hnone : ∀ l ∈ ys, l ≠ .restart := fun l hm he => hno (he ▸ hm)
    have hpast := run_invariant_along
      (I := fun s => Followed name content s ∧ ∃ other, Past name other s)
      (fun s l t h hP hs => ⟨step_followed dir name content s l t h hP.1 hs.1,
        hs.2.imp fun other hp => step_past h hP.1 hP.2 hs.1 hp⟩)
      (along_and hlt.1 (along_of_forall hnone t)) hys
      ⟨step_followed dir name content u l t ht hly.1 hu, opens_past ht hu ho⟩
    obtain ⟨-, other, hp⟩ := hpast
    exact not_opens_of_past hp ho'

def crashing : List Label :=
  [.restart, .worker 0 .take, .worker 0 .increment, .worker 0 .renameFirst, .worker 0 .openFile,
    .restart, .worker 0 .take, .worker 0 .increment, .worker 0 .renameFirst, .worker 0 .openFile,
    .worker 0 (.row .published), .worker 0 .endOfFile, .worker 0 .renameLast]

theorem streamed_across_crashes_anew :
    ∃ s, run (step ['d']) (init ⟨[(['x'], ['h', '\n', '1'])], by decide⟩) crashing = some s ∧
      ∃ xs l ys u, crashing = xs ++ l :: ys ∧
        run (step ['d']) (init ⟨[(['x'], ['h', '\n', '1'])], by decide⟩) xs = some u ∧
        Archives ['x'] ['h', '\n', '1'] u l := by
  have hr : ∃ s, run (step ['d']) (init ⟨[(['x'], ['h', '\n', '1'])], by decide⟩) crashing = some s ∧
      ⟨inprogress (inprogress ['x']), done (inprogress ['x']), false⟩ ∈ s.moves :=
    ⟨_, rfl, by decide⟩
  obtain ⟨s, hs, hmove⟩ := hr
  have halone : ∀ other ∈ (⟨[(['x'], ['h', '\n', '1'])], by decide⟩ : Directory Str Str).names,
      Family ['x'] other → other = ['x'] := fun other hm _ => List.mem_singleton.mp hm
  have hnone : Along (step ['d']) (NoCollision ['x'])
      (init ⟨[(['x'], ['h', '\n', '1'])], by decide⟩) crashing := by
    apply along_noCollision (by decide)
    · intro other hm _ _ _
      exact List.mem_singleton.mp hm
    · intro l hm
      simp only [crashing, List.mem_cons, List.not_mem_nil, or_false] at hm
      rcases hm with rfl | rfl | rfl | rfl | rfl | rfl | rfl | rfl | rfl | rfl | rfl | rfl | rfl <;>
        trivial
  refine ⟨s, hs, (streamed_across_crashes rfl halone hs hnone).1 ⟨_, hmove, ?_, ?_⟩⟩
  · exact .inprogress (.inprogress .self)
  · exact doneMark_suffix_done _

end Flycatcher.CrashDelivery
