import Flycatcher.Handle
import Mathlib.Data.List.Basic
import Mathlib.Logic.Function.Iterate

namespace Flycatcher.HandleRecovery

open Library.TextStreams Library.Directories Library.Runs FileNames Polling Handle

inductive Family (name : Str) : Str → Prop
  | self : Family name name
  | inprogress {other : Str} (h : Family name other) : Family name (FileNames.inprogress other)
  | done {other : Str} (h : Family name other) : Family name (FileNames.done other)

theorem family_inprogress_iff {name other : Str} :
    Family name (inprogress other) ↔ Family name other ∨ inprogress other = name := by
  constructor
  · intro h
    generalize hn : inprogress other = n at h
    cases h with
    | self => exact .inr rfl
    | inprogress h => exact .inl (inprogress_injective hn ▸ h)
    | done h => exact absurd hn (inprogress_ne_done _ _)
  · rintro (h | rfl)
    · exact .inprogress h
    · exact .self

theorem family_done_iff {name other : Str} (hname : ¬ doneMark <:+ name) :
    Family name (done other) ↔ Family name other := by
  constructor
  · intro h
    generalize hn : done other = n at h
    cases h with
    | self => exact absurd (hn ▸ doneMark_suffix_done other) hname
    | inprogress h => exact absurd hn.symm (inprogress_ne_done _ _)
    | done h => exact done_injective hn ▸ h
  · exact .done

theorem family_iterate (name : Str) (k : Nat) : Family name (inprogress^[k] name) := by
  induction k with
  | zero => exact .self
  | succ k ih =>
      rw [Function.iterate_succ_apply']
      exact .inprogress ih

theorem not_doneMark_suffix_iterate {name : Str} (hname : ¬ doneMark <:+ name) (k : Nat) :
    ¬ doneMark <:+ inprogress^[k] name := by
  cases k with
  | zero => exact hname
  | succ k =>
      rw [Function.iterate_succ_apply']
      exact not_doneMark_suffix_inprogress _

/-- No step gives a name of the family to a file that did not have one. -/
def NoCollision (name : Str) (s : State) : Label → Prop
  | .create other _ => ¬ Family name other
  | .worker w .renameFirst => ∀ other ∈ s.directory.names, s.workers w = .entered other →
      Family name (inprogress other) → Family name other
  | .worker w .renameLast => ∀ other rows ending, inprogress other ∈ s.directory.names →
      s.workers w = .closing other rows ending →
      Family name (done other) → Family name (inprogress other)
  | _ => True

def Archived (name : Str) (s : State) : Prop :=
  ∃ move ∈ s.moves, Family name move.source ∧ doneMark <:+ move.target

structure Undone (s : State) : Prop where
  queue : ∀ other ∈ s.queue, ¬ doneMark <:+ other
  taken : ∀ w other, holds (s.workers w) = some (other, .waiting) → ¬ doneMark <:+ other

structure Alive (name content : Str) (s : State) (k : Nat) (current : Str) : Prop where
  current_eq : current = inprogress^[k] name ∧ ¬ Archived name s ∨
    current = done (inprogress^[k] name) ∧ Archived name s
  find : s.directory.find current = some content
  alone : ∀ other ∈ s.directory.names, Family name other → other = current
  held : ∀ w other, holds (s.workers w) = some (other, .inprogress) →
    Family name (inprogress other) → Family name other

theorem family_length {name other : Str} (h : Family name other) : name.length ≤ other.length := by
  induction h with
  | self => exact Nat.le_refl _
  | inprogress h ih | done h ih => exact ih.trans (by simp [FileNames.inprogress, FileNames.done])

theorem iterate_eq_inprogress {name other : Str} {k : Nat} (hother : Family name other)
    (h : inprogress^[k] name = inprogress other) : ∃ j, other = inprogress^[j] name := by
  cases k with
  | zero =>
      have hl := family_length hother
      have he : name.length = (inprogress other).length := congrArg List.length h
      simp [inprogress, inprogressMark] at he
      omega
  | succ k =>
      rw [Function.iterate_succ_apply'] at h
      exact ⟨k, (inprogress_injective h).symm⟩

theorem archived_append {name : Str} {s t : State} {source target : Str} {replaced : Bool}
    (ht : t.moves = s.moves ++ [⟨source, target, replaced⟩]) :
    Archived name t ↔ Archived name s ∨ Family name source ∧ doneMark <:+ target := by
  simp only [Archived, ht, List.mem_append, List.mem_singleton]
  constructor
  · rintro ⟨move, hm | rfl, hmove⟩
    · exact .inl ⟨move, hm, hmove⟩
    · exact .inr hmove
  · rintro (⟨move, hm, hmove⟩ | hmove)
    · exact ⟨move, .inl hm, hmove⟩
    · exact ⟨_, .inr rfl, hmove⟩

theorem rename_other {name content current source target : Str} {s : State} {e : Directory Str Str}
    (hcurrent : Family name current) (hfind : s.directory.find current = some content)
    (halone : ∀ other ∈ s.directory.names, Family name other → other = current)
    (hne : source ≠ target) (hsource : ¬ Family name source) (htarget : ¬ Family name target)
    (hr : s.directory.rename source target = some e) :
    e.find current = some content ∧ ∀ other ∈ e.names, Family name other → other = current := by
  have hkeep {other : Str} (ho : Family name other) : e.find other = s.directory.find other := by
    have ht : other ≠ target := fun he => htarget (he ▸ ho)
    have hs : other ≠ source := fun he => hsource (he ▸ ho)
    rw [Directory.find_rename hne hr, if_neg ht, if_neg hs]
  refine ⟨(hkeep hcurrent).trans hfind, ?_⟩
  intro other hm ho
  rw [← Directory.find_isSome, hkeep ho, Directory.find_isSome] at hm
  exact halone other hm ho

theorem rename_current {name content source target : Str} {s : State} {e : Directory Str Str}
    (hfind : s.directory.find source = some content)
    (halone : ∀ other ∈ s.directory.names, Family name other → other = source)
    (hne : source ≠ target) (hr : s.directory.rename source target = some e) :
    e.find target = some content ∧ ∀ other ∈ e.names, Family name other → other = target := by
  refine ⟨(Directory.find_rename hne hr target).trans ((if_pos rfl).trans hfind), ?_⟩
  intro other hm ho
  rw [← Directory.find_isSome, Directory.find_rename hne hr] at hm
  split_ifs at hm with ht hs
  · exact ht
  · cases hm
  · exact absurd (halone other (Directory.find_isSome.mp hm) ho) hs

theorem family_current {name current : Str} {s : State} {k : Nat}
    (h : current = inprogress^[k] name ∧ ¬ Archived name s ∨
      current = done (inprogress^[k] name) ∧ Archived name s) : Family name current := by
  rcases h with ⟨rfl, -⟩ | ⟨rfl, -⟩
  · exact family_iterate name k
  · exact .done (family_iterate name k)

theorem worked_holds_any {s t : State} {w : Nat} {a : Action} (h : Worked s w a t) {w' : Nat}
    {p : Str × Stage} (hp : holds (t.workers w') = some p) :
    holds (s.workers w') = some p ∨ (∃ name ∈ s.queue, p = (name, .waiting)) ∨
      ∃ name ∈ s.directory.names, a = .renameFirst ∧ s.workers w = .entered name ∧
        p = (name, .inprogress) := by
  by_cases hw : w' = w
  · subst hw
    exact worked_holds h hp
  · rw [worked_others h w' hw] at hp
    exact .inl hp

theorem init_undone (d : Directory Str Str) : Undone (init d) :=
  ⟨fun _ h => (by cases h), fun _ _ h => (by cases h)⟩

theorem step_undone (dir : Str) (s : State) (l : Label) (t : State) (h : step dir s l = some t)
    (hs : Undone s) : Undone t := by
  cases l with
  | worker w a =>
      have hworked := workerStep_worked h
      refine ⟨fun other hm => hs.queue other (worked_queue hworked other hm), ?_⟩
      intro w' other hp
      rcases worked_holds_any hworked hp with hp | ⟨_, hm, he⟩ | ⟨_, -, -, -, he⟩
      · exact hs.taken w' other hp
      · cases he
        exact hs.queue other hm
      · cases he
  | create other text =>
      obtain ⟨e, -, rfl⟩ := Option.map_eq_some_iff.mp h
      exact ⟨hs.queue, hs.taken⟩
  | enqueue other =>
      obtain ⟨hadd, he⟩ := Option.ite_none_right_eq_some.mp h
      cases he
      refine ⟨?_, hs.taken⟩
      intro n hm
      rcases List.mem_append.mp hm with hm | hm
      · exact hs.queue n hm
      · rw [List.mem_singleton.mp hm]
        rw [shouldAddFile_eventPath, shouldAddFile_running] at hadd
        exact hadd.2
  | restart =>
      obtain rfl := Option.some.inj h
      exact ⟨fun n hm => (mem_startupListing.mp hm).2, fun w n h => (by cases h)⟩

theorem alive_moved_other {name content current source target : Str} {s t : State} {k : Nat}
    {replaced : Bool} (hs : Alive name content s k current)
    (hheld : ∀ w other, holds (t.workers w) = some (other, .inprogress) →
      Family name (inprogress other) → Family name other)
    (hm : t.moves = s.moves ++ [⟨source, target, replaced⟩]) (hne : source ≠ target)
    (hsource : ¬ Family name source) (htarget : ¬ Family name target)
    (hr : s.directory.rename source target = some t.directory) : Alive name content t k current := by
  obtain ⟨hfind, halone⟩ := rename_other (family_current hs.current_eq) hs.find hs.alone hne
    hsource htarget hr
  have ha : Archived name t ↔ Archived name s := by
    rw [archived_append hm, or_iff_left_iff_imp]
    exact fun h => absurd h.1 hsource
  refine ⟨?_, hfind, halone, hheld⟩
  rw [ha]
  exact hs.current_eq

theorem worked_alive {name content : Str} {s t : State} {w : Nat} {a : Action}
    (h : Worked s w a t) (hu : Undone s) (hl : NoCollision name s (.worker w a)) {k : Nat}
    {current : Str} (hs : Alive name content s k current) :
    ∃ k current, Alive name content t k current := by
  have hheld : ∀ w' other, holds (t.workers w') = some (other, .inprogress) →
      Family name (inprogress other) → Family name other := by
    intro w' other hp
    rcases worked_holds_any h hp with hp | ⟨_, -, he⟩ | ⟨_, hm, rfl, hphase, he⟩
    · exact hs.held w' other hp
    · cases he
    · cases he
      exact hl other hm hphase
  rcases worked_directory h with ⟨hd, hm⟩ | ⟨other, rfl, hphase, hr, hm⟩ |
    ⟨other, rows, ending, rfl, hphase, hr, hm⟩
  · refine ⟨k, current, ?_, hd ▸ hs.find, hd ▸ hs.alone, hheld⟩
    have ha : Archived name t ↔ Archived name s := by simp only [Archived, hm]
    rw [ha]
    exact hs.current_eq
  · have hmem := Directory.mem_of_rename hr
    by_cases hfamily : Family name other
    · have ha : Archived name t ↔ Archived name s := by
        rw [archived_append hm, or_iff_left_iff_imp]
        exact fun h => absurd h.2 (not_doneMark_suffix_inprogress other)
      obtain rfl := hs.alone other hmem hfamily
      have hdone := hu.taken w other (by rw [hphase]; rfl)
      obtain ⟨he, hna⟩ | ⟨he, -⟩ := hs.current_eq
      · obtain ⟨hfind, halone⟩ :=
          rename_current hs.find hs.alone (inprogress_ne_self other).symm hr
        refine ⟨k + 1, inprogress other, .inl ⟨?_, fun h => hna (ha.mp h)⟩, hfind, halone, hheld⟩
        rw [Function.iterate_succ_apply', ← he]
      · exact absurd (he ▸ doneMark_suffix_done _) hdone
    · have htarget : ¬ Family name (inprogress other) := fun h => hfamily (hl other hmem hphase h)
      exact ⟨k, current, alive_moved_other hs hheld hm (inprogress_ne_self other).symm hfamily
        htarget hr⟩
  · have hmem := Directory.mem_of_rename hr
    by_cases hfamily : Family name (inprogress other)
    · obtain rfl := hs.alone _ hmem hfamily
      have hother := hs.held w other (by rw [hphase]; rfl) hfamily
      obtain ⟨he, -⟩ | ⟨he, -⟩ := hs.current_eq
      · obtain ⟨j, rfl⟩ := iterate_eq_inprogress hother he.symm
        obtain ⟨hfind, halone⟩ := rename_current hs.find hs.alone (inprogress_ne_done _ _) hr
        refine ⟨j, _, .inr ⟨rfl, ?_⟩, hfind, halone, hheld⟩
        rw [archived_append hm]
        exact .inr ⟨hfamily, doneMark_suffix_done _⟩
      · exact absurd he (inprogress_ne_done _ _)
    · have htarget : ¬ Family name (done other) :=
        fun h => hfamily (hl other rows ending hmem hphase h)
      exact ⟨k, current, alive_moved_other hs hheld hm (inprogress_ne_done _ _) hfamily htarget hr⟩

theorem step_alive (dir name content : Str) (s : State) (l : Label) (t : State)
    (h : step dir s l = some t) (hl : NoCollision name s l)
    (hs : Undone s ∧ ∃ k current, Alive name content s k current) :
    Undone t ∧ ∃ k current, Alive name content t k current := by
  obtain ⟨hu, k, current, hs⟩ := hs
  refine ⟨step_undone dir s l t h hu, ?_⟩
  cases l with
  | worker w a => exact worked_alive (workerStep_worked h) hu hl hs
  | create other text =>
      obtain ⟨e, he, rfl⟩ := Option.map_eq_some_iff.mp h
      have hcurrent := family_current hs.current_eq
      have hkeep {n : Str} (hn : Family name n) : e.find n = s.directory.find n := by
        have hne : n ≠ other := fun he => hl (he ▸ hn)
        rw [Directory.find_create he, if_neg hne]
      refine ⟨k, current, hs.current_eq, (hkeep hcurrent).trans hs.find, ?_, hs.held⟩
      intro n hm hn
      have hm : n ∈ e.names := hm
      rw [← Directory.find_isSome, hkeep hn, Directory.find_isSome] at hm
      exact hs.alone n hm hn
  | enqueue other =>
      obtain ⟨-, he⟩ := Option.ite_none_right_eq_some.mp h
      cases he
      exact ⟨k, current, hs.current_eq, hs.find, hs.alone, hs.held⟩
  | restart =>
      obtain rfl := Option.some.inj h
      exact ⟨k, current, hs.current_eq, hs.find, hs.alone, fun w n h => (by cases h)⟩

theorem init_alive {name content : Str} {d : Directory Str Str} (hfind : d.find name = some content)
    (halone : ∀ other ∈ d.names, Family name other → other = name) :
    Alive name content (init d) 0 name := by
  refine ⟨.inl ⟨rfl, ?_⟩, hfind, halone, fun _ _ h => (by cases h)⟩
  rintro ⟨move, hm, -⟩
  cases hm

def Marked (s : State) : Prop :=
  ∀ move ∈ s.moves, inprogressMark <:+ move.target ∨ doneMark <:+ move.target

theorem marked_append {s t : State} {source target : Str} {replaced : Bool}
    (ht : t.moves = s.moves ++ [⟨source, target, replaced⟩]) (hs : Marked s)
    (htarget : inprogressMark <:+ target ∨ doneMark <:+ target) : Marked t := by
  intro move hm
  rw [ht] at hm
  rcases List.mem_append.mp hm with hm | hm
  · exact hs move hm
  · rw [List.mem_singleton.mp hm]
    exact htarget

theorem step_marked (dir : Str) (s : State) (l : Label) (t : State) (h : step dir s l = some t)
    (hs : Marked s) : Marked t := by
  cases l with
  | worker w a =>
      rcases worked_directory (workerStep_worked h) with ⟨-, hm⟩ | ⟨other, -, -, -, hm⟩ |
        ⟨other, _, _, -, -, -, hm⟩
      · intro move hmove
        exact hs move (hm ▸ hmove)
      · exact marked_append hm hs (.inl (inprogressMark_suffix_inprogress other))
      · exact marked_append hm hs (.inr (doneMark_suffix_done other))
  | create other text =>
      obtain ⟨e, -, rfl⟩ := Option.map_eq_some_iff.mp h
      exact hs
  | enqueue other =>
      obtain ⟨-, he⟩ := Option.ite_none_right_eq_some.mp h
      cases he
      exact hs
  | restart =>
      obtain rfl := Option.some.inj h
      exact hs

theorem poll_marked {before events after : List InotifyEvent}
    (h : ∀ event ∈ events, inprogressMark <:+ event.name ∨ doneMark <:+ event.name)
    (poller : DirectoryPoller) :
    poller.poll (before ++ events ++ after) = poller.poll (before ++ after) := by
  have hnone : ∀ dir, events.flatMap (addedPaths dir) = [] := by
    intro dir
    rw [List.flatMap_eq_nil_iff]
    intro event hm
    rw [List.eq_nil_iff_forall_not_mem]
    intro path hadd
    obtain ⟨hi, hd⟩ := (shouldAddFile_running _).mp (mem_addedPaths hadd).2
    exact (h event hm).elim hi hd
  simp only [DirectoryPoller.poll, DirectoryPoller.pollEvents, foldl_handleEvent,
    List.flatMap_append, hnone, List.append_nil]

/-- After a crash at any point, the startup listing has the file under its
current name until it is archived, and not after that. Events with names that
handle gives to files leave no trace in a batch that they are in. -/
theorem restart_recovers {dir name content : Str} {d : Directory Str Str} {tr : List Label} {s : State}
    (hname : ¬ doneMark <:+ name) (hfind : d.find name = some content)
    (halone : ∀ other ∈ d.names, Family name other → other = name)
    (hr : run (step dir) (init d) tr = some s)
    (hl : Along (step dir) (NoCollision name) (init d) tr) :
    (∀ t, step dir s .restart = some t →
      (¬ Archived name s → ∃ k, inprogress^[k] name ∈ t.queue ∧
        t.directory.find (inprogress^[k] name) = some content) ∧
      (Archived name s → ∀ other ∈ t.queue, ¬ Family name other)) ∧
    ∀ before events after : List InotifyEvent,
      (∀ event ∈ events, ∃ move ∈ s.moves, event.name = move.target) →
      ∀ poller : DirectoryPoller,
        poller.poll (before ++ events ++ after) = poller.poll (before ++ after) := by
  obtain ⟨-, k, current, hs⟩ := run_invariant_along (step_alive dir name content) hl hr
    ⟨init_undone d, 0, name, init_alive hfind halone⟩
  have hmarked := run_invariant (step_marked dir) hr fun _ h => by cases h
  constructor
  · intro t ht
    obtain rfl := Option.some.inj ht
    constructor
    · intro hna
      obtain ⟨rfl, -⟩ := hs.current_eq.resolve_right fun h => hna h.2
      refine ⟨k, mem_startupListing.mpr ⟨?_, not_doneMark_suffix_iterate hname k⟩, hs.find⟩
      exact Directory.find_isSome.mp (Option.isSome_of_eq_some hs.find)
    · intro ha other hm hfamily
      obtain ⟨hm, hdone⟩ := mem_startupListing.mp hm
      obtain ⟨rfl, -⟩ := hs.current_eq.resolve_left fun h => h.2 ha
      rw [hs.alone other hm hfamily] at hdone
      exact hdone (doneMark_suffix_done _)
  · intro before events after hevents poller
    refine poll_marked ?_ poller
    intro event hm
    obtain ⟨move, hmove, he⟩ := hevents event hm
    rw [he]
    exact hmarked move hmove

def NoRoot (name : Str) (s : State) : Prop :=
  ∀ other ∈ s.directory.names, ¬ doneMark <:+ other → ∀ k, inprogress^[k] other = name → other = name

def Unrelated (name : Str) : Label → Prop
  | .create other _ => ¬ Family name other ∧ ∀ k, inprogress^[k] other ≠ name
  | _ => True

theorem inprogress_length (other : Str) : (inprogress other).length = other.length + 11 :=
  List.length_append

theorem step_noRoot (dir name : Str) (s : State) (l : Label) (t : State) (h : step dir s l = some t)
    (hl : Unrelated name l) (hs : Undone s ∧ NoRoot name s) : Undone t ∧ NoRoot name t := by
  obtain ⟨hu, hs⟩ := hs
  refine ⟨step_undone dir s l t h hu, ?_⟩
  cases l with
  | worker w a =>
      rcases worked_directory (workerStep_worked h) with ⟨hd, -⟩ |
        ⟨other, -, hphase, hr, -⟩ | ⟨other, _, _, -, -, hr, -⟩
      · intro n hm
        exact hs n (hd ▸ hm)
      · intro n hm hdone k hk
        rw [← Directory.find_isSome, Directory.find_rename (inprogress_ne_self other).symm hr] at hm
        split_ifs at hm with ht hsource
        · subst ht
          have hundone := hu.taken w other (by rw [hphase]; rfl)
          have he := hs other (Directory.mem_of_rename hr) hundone (k + 1) hk
          have hlen := family_length (family_iterate (inprogress other) k)
          rw [hk, inprogress_length, he] at hlen
          omega
        · cases hm
        · exact hs n (Directory.find_isSome.mp hm) hdone k hk
      · intro n hm hdone k hk
        rw [← Directory.find_isSome, Directory.find_rename (inprogress_ne_done _ _) hr] at hm
        split_ifs at hm with ht hsource
        · exact absurd (ht ▸ doneMark_suffix_done other) hdone
        · cases hm
        · exact hs n (Directory.find_isSome.mp hm) hdone k hk
  | create other text =>
      obtain ⟨e, he, rfl⟩ := Option.map_eq_some_iff.mp h
      intro n hm hdone k hk
      have hm : n ∈ e.names := hm
      rw [← Directory.find_isSome, Directory.find_create he] at hm
      split_ifs at hm with hn
      · exact absurd (hn ▸ hk) (hl.2 k)
      · exact hs n (Directory.find_isSome.mp hm) hdone k hk
  | enqueue other =>
      obtain ⟨-, he⟩ := Option.ite_none_right_eq_some.mp h
      cases he
      exact hs
  | restart =>
      obtain rfl := Option.some.inj h
      exact hs

/-- Which names collide can be told from the names that files start with. -/
theorem along_noCollision {dir name : Str} {d : Directory Str Str} {tr : List Label}
    (hname : ¬ doneMark <:+ name)
    (hd : ∀ other ∈ d.names, ¬ doneMark <:+ other → ∀ k, inprogress^[k] other = name → other = name)
    (htr : ∀ l ∈ tr, Unrelated name l) : Along (step dir) (NoCollision name) (init d) tr := by
  refine along_of_invariant (step_noRoot dir name) ?_ htr ⟨init_undone d, hd⟩
  intro s l ⟨hu, hs⟩ hl
  cases l with
  | worker w a =>
      cases a with
      | renameFirst =>
          intro other hm hphase hfamily
          rcases family_inprogress_iff.mp hfamily with h | h
          · exact h
          · rw [hs other hm (hu.taken w other (by rw [hphase]; rfl)) 1 h]
            exact .self
      | renameLast =>
          intro other rows ending hm hphase hfamily
          exact .inprogress ((family_done_iff hname).mp hfamily)
      | take | increment | openFile | row _ | endOfFile | loadFails | decrement => trivial
  | create other text => exact hl.1
  | enqueue other => trivial
  | restart => trivial

/-- A crash between the two renames. -/
theorem restart_recovers_crash :
    ∃ s, run (step ['d']) (init ⟨[(['x'], ['1'])], by decide⟩)
        [.restart, .worker 0 .take, .worker 0 .increment, .worker 0 .renameFirst] = some s ∧
      (∀ t, step ['d'] s .restart = some t →
        (¬ Archived ['x'] s → ∃ k, inprogress^[k] ['x'] ∈ t.queue ∧
          t.directory.find (inprogress^[k] ['x']) = some ['1']) ∧
        (Archived ['x'] s → ∀ other ∈ t.queue, ¬ Family ['x'] other)) ∧
      ∀ before events after : List InotifyEvent,
        (∀ event ∈ events, ∃ move ∈ s.moves, event.name = move.target) →
        ∀ poller : DirectoryPoller,
          poller.poll (before ++ events ++ after) = poller.poll (before ++ after) := by
  have hname : ¬ doneMark <:+ ['x'] := by decide
  have hr : ∃ s, run (step ['d']) (init ⟨[(['x'], ['1'])], by decide⟩)
      [.restart, .worker 0 .take, .worker 0 .increment, .worker 0 .renameFirst] = some s := ⟨_, rfl⟩
  obtain ⟨s, hs⟩ := hr
  refine ⟨s, hs, restart_recovers hname rfl ?_ hs (along_noCollision hname ?_ ?_)⟩
  · intro other hm _
    exact List.mem_singleton.mp hm
  · intro other hm _ _ _
    exact List.mem_singleton.mp hm
  · intro l hm
    simp only [List.mem_cons, List.not_mem_nil, or_false] at hm
    rcases hm with rfl | rfl | rfl | rfl <;> trivial

end Flycatcher.HandleRecovery
