import Flycatcher.Handle
import Mathlib.Data.List.Basic

namespace Flycatcher.HandleOnce

open Library.TextStreams Library.Directories Library.Runs FileNames Handle

/-- The outside world creates no path twice and none that ends in a mark, and
the program is not restarted. -/
def Admissible (s : State) : Label → Prop
  | .create name _ => name ∉ s.created ∧ shouldAddFile name false = true
  | .restart => False
  | _ => True

def subject : Phase → Option Str
  | .idle => none
  | .taken name | .entered name | .renamed name => some name
  | .reading name _ _ _ | .closing name _ _ => some name
  | .leaving call => some call.name

def throws (rows : Rows) : Nat := rows.countP fun row => row.2 = .threw

/-- The rows are those of the file from the first one on. They are all of its
rows unless one throws for the fourteenth time or the file cannot be read. -/
def Streamed (content : Str) (rows : Rows) : Ending → Prop
  | .endOfFile => rows.map Prod.fst = dataLines content ∧ throws rows ≤ 13
  | .tooManyExceptions => rows.map Prod.fst <+: dataLines content ∧ throws rows = 14 ∧
      ∃ before row, rows = before ++ [(row, .threw)]
  | .notLoaded => rows.map Prod.fst <+: dataLines content ∧ throws rows ≤ 13

def Idle (name : Str) (call : Call) : Prop :=
  call.name = name → call.streamed = none ∧ call.renames = []

def Bystander (name : Str) : Phase → Prop
  | .renamed other | .reading other _ _ _ | .closing other _ _ => other ≠ name
  | .leaving call => Idle name call
  | _ => True

def NotYet (name : Str) : Phase → Prop
  | .renamed other | .reading other _ _ _ | .closing other _ _ => other ≠ name
  | .leaving call => call.name ≠ name
  | _ => True

def Holder (name content : Str) : Phase → Prop
  | .renamed other => other = name
  | .reading other excCount rows rest => other = name ∧
      rows.map Prod.fst ++ rest = dataLines content ∧ excCount = throws rows ∧ excCount ≤ 13
  | .closing other rows ending => other = name ∧ Streamed content rows ending
  | _ => False

def winner (name : Str) (rows : Rows) (ending : Ending) : Call :=
  ⟨name, some (rows, ending), [(name, inprogress name), (inprogress name, done name)]⟩

/-- Where a file is once it has been queued, and what the calls on it have come
to. -/
inductive Custody (name content : Str) (s : State) : Prop
  | waiting (hfind : s.directory.find name = some content)
      (hw : ∀ w, NotYet name (s.workers w)) (hc : ∀ call ∈ s.calls, call.name ≠ name)
  | held (w : Nat) (hgone : s.directory.find name = none)
      (hfind : s.directory.find (inprogress name) = some content)
      (hw : Holder name content (s.workers w))
      (hothers : ∀ w' ≠ w, Bystander name (s.workers w')) (hc : ∀ call ∈ s.calls, Idle name call)
  | closed (w : Nat) (rows : Rows) (ending : Ending) (hgone : s.directory.find name = none)
      (hfind : s.directory.find (done name) = some content)
      (hw : s.workers w = .leaving (winner name rows ending)) (hrows : Streamed content rows ending)
      (hothers : ∀ w' ≠ w, Bystander name (s.workers w')) (hc : ∀ call ∈ s.calls, Idle name call)
  | archived (before after : List Call) (rows : Rows) (ending : Ending)
      (hgone : s.directory.find name = none) (hfind : s.directory.find (done name) = some content)
      (hw : ∀ w, Bystander name (s.workers w)) (hrows : Streamed content rows ending)
      (hc : s.calls.filter (fun call => call.name = name) = before ++ winner name rows ending :: after)
      (hidle : ∀ call ∈ before ++ after, Idle name call)

structure Filtered (s : State) : Prop where
  queue : ∀ name ∈ s.queue, shouldAddFile name false = true
  workers : ∀ w name, subject (s.workers w) = some name → shouldAddFile name false = true
  names : ∀ name ∈ s.directory.names, shouldAddFile name false = true → name ∈ s.created

theorem not_shouldAddFile_inprogress (name : Str) : ¬ shouldAddFile (inprogress name) false = true := by
  rw [shouldAddFile_running]
  intro h
  exact h.1 (inprogressMark_suffix_inprogress name)

theorem not_shouldAddFile_done (name : Str) : ¬ shouldAddFile (done name) false = true := by
  rw [shouldAddFile_running]
  intro h
  exact h.2 (doneMark_suffix_done name)

def Apart (name other : Str) : Prop :=
  name ≠ other ∧ name ≠ inprogress other ∧ name ≠ done other

theorem apart_of_ne {name other : Str} (hname : shouldAddFile name false = true)
    (hother : shouldAddFile other false = true) (hne : name ≠ other) :
    Apart name other ∧ Apart (inprogress name) other ∧ Apart (done name) other := by
  refine ⟨⟨hne, ?_, ?_⟩, ⟨?_, ?_, inprogress_ne_done name other⟩,
    ⟨?_, (inprogress_ne_done other name).symm, ?_⟩⟩
  · rintro rfl
    exact not_shouldAddFile_inprogress other hname
  · rintro rfl
    exact not_shouldAddFile_done other hname
  · rintro rfl
    exact not_shouldAddFile_inprogress name hother
  · intro he
    exact hne (inprogress_injective he)
  · rintro rfl
    exact not_shouldAddFile_done name hother
  · intro he
    exact hne (done_injective he)

theorem find_renameFirst {d e : Directory Str Str} {name other : Str} (h : Apart name other)
    (hr : d.rename other (inprogress other) = some e) : e.find name = d.find name := by
  rw [Directory.find_rename (inprogress_ne_self other).symm hr, if_neg h.2.1, if_neg h.1]

theorem find_renameLast {d e : Directory Str Str} {name other : Str} (h : Apart name other)
    (hr : d.rename (inprogress other) (done other) = some e) : e.find name = d.find name := by
  rw [Directory.find_rename (inprogress_ne_done other other) hr, if_neg h.2.2, if_neg h.2.1]

structure SameFile (name : Str) (s t : State) : Prop where
  self : t.directory.find name = s.directory.find name
  inprogress : t.directory.find (inprogress name) = s.directory.find (FileNames.inprogress name)
  done : t.directory.find (done name) = s.directory.find (FileNames.done name)

theorem SameFile.rfl {name : Str} {s t : State} (h : t.directory = s.directory) :
    SameFile name s t := by
  constructor <;> rw [h]

theorem sameFile_first {name other : Str} {s t : State} {e : Directory Str Str}
    (hname : shouldAddFile name false = true) (hother : shouldAddFile other false = true)
    (hne : name ≠ other) (hr : s.directory.rename other (inprogress other) = some e)
    (ht : t.directory = e) : SameFile name s t := by
  obtain ⟨h₁, h₂, h₃⟩ := apart_of_ne hname hother hne
  subst ht
  exact ⟨find_renameFirst h₁ hr, find_renameFirst h₂ hr, find_renameFirst h₃ hr⟩

theorem sameFile_last {name other : Str} {s t : State} {e : Directory Str Str}
    (hname : shouldAddFile name false = true) (hother : shouldAddFile other false = true)
    (hne : name ≠ other) (hr : s.directory.rename (inprogress other) (done other) = some e)
    (ht : t.directory = e) : SameFile name s t := by
  obtain ⟨h₁, h₂, h₃⟩ := apart_of_ne hname hother hne
  subst ht
  exact ⟨find_renameLast h₁ hr, find_renameLast h₂ hr, find_renameLast h₃ hr⟩

structure Aside (name : Str) (s t : State) (w : Nat) : Prop where
  same : SameFile name s t
  phase : Bystander name (t.workers w)
  calls : t.calls = s.calls ∨ ∃ call, Idle name call ∧ t.calls = s.calls ++ [call]

theorem afterRow_bystander {name other : Str} (h : other ≠ name) (excCount : Nat) (rows : Rows)
    (rest : List Str) (outcome : Outcome) :
    Bystander name (afterRow other excCount rows rest outcome) := by
  rcases afterRow_cases other excCount rows rest outcome with ⟨n, he⟩ | he
  · rw [he]
    exact h
  · rw [he]
    exact h

theorem worked_aside {s t : State} {w : Nat} {a : Action} {name : Str}
    (hname : shouldAddFile name false = true) (hs : Filtered s) (h : Worked s w a t)
    (hgone : s.directory.find name = none) (hw : Bystander name (s.workers w)) :
    Aside name s t w := by
  have hsubject := hs.workers w
  cases h with
  | take _ hq => exact ⟨.rfl rfl, by simp [Bystander], .inl rfl⟩
  | increment hphase => exact ⟨.rfl rfl, by simp [Bystander], .inl rfl⟩
  | @renamed other e hphase hr =>
      have hne : other ≠ name := by
        rintro rfl
        exact Directory.find_eq_none_iff.mp hgone (Directory.mem_of_rename hr)
      have hother := hsubject other (by rw [hphase]; rfl)
      exact ⟨sameFile_first hname hother hne.symm hr rfl, by rw [goto_workers_self]; exact hne, .inl rfl⟩
  | missing hphase hr => exact ⟨.rfl rfl, by simp [Bystander, Idle], .inl rfl⟩
  | opened hphase | endOfFile hphase | loadFails hphase =>
      rw [hphase] at hw
      refine ⟨.rfl rfl, ?_, .inl rfl⟩
      rw [goto_workers_self]
      exact hw
  | row outcome hphase =>
      rw [hphase] at hw
      refine ⟨.rfl rfl, ?_, .inl rfl⟩
      rw [goto_workers_self]
      exact afterRow_bystander hw ..
  | @archived other rows ending e hphase hr =>
      rw [hphase] at hw
      have hne : other ≠ name := hw
      have hother := hsubject other (by rw [hphase]; rfl)
      exact ⟨sameFile_last hname hother hne.symm hr rfl, by simp [Bystander, Idle, hne], .inl rfl⟩
  | unarchived hphase hr =>
      rw [hphase] at hw
      have hne : _ ≠ name := hw
      exact ⟨.rfl rfl, by simp [Bystander, Idle, hne], .inl rfl⟩
  | decrement hphase =>
      rw [hphase] at hw
      exact ⟨.rfl rfl, by simp [Bystander], .inr ⟨_, hw, rfl⟩⟩

theorem afterRow_notYet {name other : Str} (h : other ≠ name) (excCount : Nat) (rows : Rows)
    (rest : List Str) (outcome : Outcome) :
    NotYet name (afterRow other excCount rows rest outcome) := by
  rcases afterRow_cases other excCount rows rest outcome with ⟨n, he⟩ | he
  · rw [he]
    exact h
  · rw [he]
    exact h

theorem worked_waiting {s t : State} {w : Nat} {a : Action} {name content : Str}
    (hname : shouldAddFile name false = true) (hs : Filtered s) (h : Worked s w a t)
    (hfind : s.directory.find name = some content) (hw : NotYet name (s.workers w)) :
    (SameFile name s t ∧ NotYet name (t.workers w) ∧
      (t.calls = s.calls ∨ ∃ call, call.name ≠ name ∧ t.calls = s.calls ++ [call])) ∨
    (t.directory.find name = none ∧ t.directory.find (inprogress name) = some content ∧
      t.workers w = .renamed name ∧ t.calls = s.calls) := by
  have hsubject := hs.workers w
  cases h with
  | take _ hq => exact .inl ⟨.rfl rfl, by simp [NotYet], .inl rfl⟩
  | increment hphase => exact .inl ⟨.rfl rfl, by simp [NotYet], .inl rfl⟩
  | @renamed other e hphase hr =>
      have hother := hsubject other (by rw [hphase]; rfl)
      by_cases hne : other = name
      · subst hne
        refine .inr ⟨?_, ?_, goto_workers_self .., rfl⟩
        · exact (Directory.find_rename (inprogress_ne_self other).symm hr other).trans
            ((if_neg (inprogress_ne_self other).symm).trans (if_pos rfl))
        · exact (Directory.find_rename (inprogress_ne_self other).symm hr _).trans
            ((if_pos rfl).trans hfind)
      · refine .inl ⟨sameFile_first hname hother (Ne.symm hne) hr rfl, ?_, .inl rfl⟩
        rw [goto_workers_self]
        exact hne
  | @missing other hphase hr =>
      have hne : other ≠ name := by
        rintro rfl
        exact hr (Directory.find_isSome.mp (Option.isSome_of_eq_some hfind))
      exact .inl ⟨.rfl rfl, by rw [goto_workers_self]; exact hne, .inl rfl⟩
  | opened hphase | endOfFile hphase | loadFails hphase | unarchived hphase =>
      rw [hphase] at hw
      refine .inl ⟨.rfl rfl, ?_, .inl rfl⟩
      rw [goto_workers_self]
      exact hw
  | row outcome hphase =>
      rw [hphase] at hw
      refine .inl ⟨.rfl rfl, ?_, .inl rfl⟩
      rw [goto_workers_self]
      exact afterRow_notYet hw ..
  | @archived other rows ending e hphase hr =>
      rw [hphase] at hw
      have hne : other ≠ name := hw
      have hother := hsubject other (by rw [hphase]; rfl)
      refine .inl ⟨sameFile_last hname hother hne.symm hr rfl, ?_, .inl rfl⟩
      rw [goto_workers_self]
      exact hne
  | decrement hphase =>
      rw [hphase] at hw
      exact .inl ⟨.rfl rfl, by simp [NotYet], .inr ⟨_, hw, rfl⟩⟩

theorem throws_append (rows : Rows) (row : Str) (outcome : Outcome) :
    throws (rows ++ [(row, outcome)]) = throws rows + if outcome = .threw then 1 else 0 := by
  cases outcome <;> simp [throws, List.countP_append]

theorem afterRow_holder {name content row : Str} {excCount : Nat} {rows : Rows} {rest : List Str}
    (hrows : rows.map Prod.fst ++ row :: rest = dataLines content) (hexc : excCount = throws rows)
    (hle : excCount ≤ 13) (outcome : Outcome) :
    Holder name content (afterRow name excCount (rows ++ [(row, outcome)]) rest outcome) := by
  have hnext : (rows ++ [(row, outcome)]).map Prod.fst ++ rest = dataLines content := by
    simpa using hrows
  have hthrows := throws_append rows row outcome
  cases outcome with
  | threw =>
      rw [if_pos rfl] at hthrows
      rw [afterRow]
      split_ifs with hlimit
      · exact ⟨rfl, ⟨rest, hnext⟩, by omega, rows, row, rfl⟩
      · exact ⟨rfl, hnext, by omega, by omega⟩
  | published | ignored =>
      rw [if_neg (by decide)] at hthrows
      exact ⟨rfl, hnext, by omega, hle⟩

theorem worked_holder {s t : State} {w : Nat} {a : Action} {name content : Str} (h : Worked s w a t)
    (hgone : s.directory.find name = none)
    (hfind : s.directory.find (inprogress name) = some content)
    (hw : Holder name content (s.workers w)) :
    (t.directory = s.directory ∧ Holder name content (t.workers w) ∧ t.calls = s.calls) ∨
    ∃ rows ending, t.directory.find name = none ∧ t.directory.find (done name) = some content ∧
      t.workers w = .leaving (winner name rows ending) ∧ Streamed content rows ending ∧
      t.calls = s.calls := by
  cases h with
  | take hphase hq =>
      rw [hphase] at hw
      exact hw.elim
  | increment hphase | renamed hphase hr | missing hphase hr | decrement hphase =>
      rw [hphase] at hw
      exact hw.elim
  | opened hphase =>
      rw [hphase] at hw
      obtain rfl := hw
      refine .inl ⟨rfl, ?_, rfl⟩
      rw [goto_workers_self, hfind]
      exact ⟨rfl, rfl, rfl, Nat.zero_le _⟩
  | row outcome hphase =>
      rw [hphase] at hw
      obtain ⟨rfl, hrows, hexc, hle⟩ := hw
      refine .inl ⟨rfl, ?_, rfl⟩
      rw [goto_workers_self]
      exact afterRow_holder hrows hexc hle outcome
  | endOfFile hphase =>
      rw [hphase] at hw
      obtain ⟨rfl, hrows, hexc, hle⟩ := hw
      refine .inl ⟨rfl, ?_, rfl⟩
      rw [goto_workers_self]
      exact ⟨rfl, by simpa using hrows, hexc ▸ hle⟩
  | loadFails hphase =>
      rw [hphase] at hw
      obtain ⟨rfl, hrows, hexc, hle⟩ := hw
      refine .inl ⟨rfl, ?_, rfl⟩
      rw [goto_workers_self]
      exact ⟨rfl, ⟨_, hrows⟩, hexc ▸ hle⟩
  | @archived other rows ending e hphase hr =>
      rw [hphase] at hw
      obtain ⟨rfl, hrows⟩ := hw
      have hfinds := Directory.find_rename (inprogress_ne_done other other) hr
      refine .inr ⟨rows, ending, ?_, ?_, goto_workers_self .., hrows, rfl⟩
      · apply (hfinds other).trans
        rw [if_neg (done_ne_self other).symm, if_neg (inprogress_ne_self other).symm, hgone]
      · exact (hfinds _).trans ((if_pos rfl).trans hfind)
  | unarchived hphase hr =>
      rw [hphase] at hw
      obtain ⟨rfl, hrows⟩ := hw
      exact absurd (Directory.find_isSome.mp (Option.isSome_of_eq_some hfind)) hr

theorem worked_leaving {s t : State} {w : Nat} {a : Action} {call : Call} (h : Worked s w a t)
    (hw : s.workers w = .leaving call) :
    t.directory = s.directory ∧ t.workers w = .idle ∧ t.calls = s.calls ++ [call] := by
  cases h with
  | decrement hphase =>
      obtain rfl := Phase.leaving.inj (hphase.symm.trans hw)
      exact ⟨rfl, goto_workers_self .., rfl⟩
  | take hphase | increment hphase | renamed hphase | missing hphase | opened hphase
  | row _ hphase | endOfFile hphase | loadFails hphase | archived hphase | unarchived hphase =>
      rw [hphase] at hw
      cases hw

theorem worked_created {s t : State} {w : Nat} {a : Action} (h : Worked s w a t) :
    t.created = s.created := by
  cases h <;> rfl

theorem afterRow_subject (name : Str) (excCount : Nat) (rows : Rows) (rest : List Str)
    (outcome : Outcome) : subject (afterRow name excCount rows rest outcome) = some name := by
  rcases afterRow_cases name excCount rows rest outcome with ⟨n, he⟩ | he
  · rw [he]
    rfl
  · rw [he]
    rfl

theorem worked_subject {s t : State} {w : Nat} {a : Action} (h : Worked s w a t) {name : Str}
    (w' : Nat) : subject (t.workers w') = some name →
      subject (s.workers w') = some name ∨ name ∈ s.queue := by
  apply worked_workers h (P := fun w' phase => subject phase = some name →
    subject (s.workers w') = some name ∨ name ∈ s.queue) _ fun _ _ => .inl
  intro hw
  cases h with
  | take _ hq =>
      rw [goto_workers_self] at hw
      cases hw
      rw [hq]
      exact .inr List.mem_cons_self
  | row outcome hphase =>
      rw [goto_workers_self, afterRow_subject] at hw
      cases hw
      rw [hphase]
      exact .inl rfl
  | increment hphase | renamed hphase | missing hphase | opened hphase | endOfFile hphase
  | loadFails hphase | archived hphase | unarchived hphase =>
      rw [goto_workers_self] at hw
      cases hw
      rw [hphase]
      exact .inl rfl
  | decrement hphase =>
      rw [goto_workers_self] at hw
      cases hw

theorem worked_names {s t : State} {w : Nat} {a : Action} (h : Worked s w a t) {name : Str}
    (hname : shouldAddFile name false = true) (hm : name ∈ t.directory.names) :
    name ∈ s.directory.names := by
  have hrename {source target : Str} {e : Directory Str Str} (hne : source ≠ target)
      (ht : name ≠ target) (hr : s.directory.rename source target = some e) (hm : name ∈ e.names) :
      name ∈ s.directory.names := by
    rw [← Directory.find_isSome, Directory.find_rename hne hr, if_neg ht] at hm
    split_ifs at hm
    · cases hm
    · exact Directory.find_isSome.mp hm
  cases h with
  | renamed _ hr =>
      refine hrename (inprogress_ne_self _).symm ?_ hr hm
      rintro rfl
      exact not_shouldAddFile_inprogress _ hname
  | archived _ hr =>
      refine hrename (inprogress_ne_done _ _) ?_ hr hm
      rintro rfl
      exact not_shouldAddFile_done _ hname
  | _ => exact hm

theorem init_filtered (d : Directory Str Str) : Filtered (init d) :=
  ⟨fun _ h => (by cases h), fun _ _ h => (by cases h), fun _ h _ => h⟩

theorem step_filtered (dir : Str) (s : State) (l : Label) (t : State) (h : step dir s l = some t)
    (hl : Admissible s l) (hs : Filtered s) : Filtered t := by
  cases l with
  | worker w a =>
      have hworked := workerStep_worked h
      refine ⟨fun name hm => hs.queue name (worked_queue hworked name hm), ?_, ?_⟩
      · intro w' name hsub
        rcases worked_subject hworked w' hsub with hsub | hm
        · exact hs.workers w' name hsub
        · exact hs.queue name hm
      · intro name hm hname
        rw [worked_created hworked]
        exact hs.names name (worked_names hworked hname hm) hname
  | create name content =>
      obtain ⟨e, he, rfl⟩ := Option.map_eq_some_iff.mp h
      refine ⟨hs.queue, hs.workers, ?_⟩
      intro other hm hother
      have hm : other ∈ e.names := hm
      rw [← Directory.find_isSome, Directory.find_create he] at hm
      split_ifs at hm with ho
      · rw [ho]
        exact List.mem_cons_self
      · exact List.mem_cons_of_mem _ (hs.names other (Directory.find_isSome.mp hm) hother)
  | enqueue name =>
      obtain ⟨hadd, he⟩ := Option.ite_none_right_eq_some.mp h
      cases he
      refine ⟨?_, hs.workers, hs.names⟩
      intro other hm
      rcases List.mem_append.mp hm with hm | hm
      · exact hs.queue other hm
      · rw [List.mem_singleton.mp hm, ← shouldAddFile_eventPath dir name]
        exact hadd
  | restart => exact hl.elim

theorem custody_same {s t : State} {name content : Str} (hs : Custody name content s)
    (hsame : SameFile name s t) (hw : t.workers = s.workers) (hc : t.calls = s.calls) :
    Custody name content t := by
  obtain ⟨h₁, h₂, h₃⟩ := hsame
  cases hs with
  | waiting hfind hphase hcalls => exact .waiting (h₁ ▸ hfind) (hw ▸ hphase) (hc ▸ hcalls)
  | held w hgone hfind hphase hothers hcalls =>
      exact .held w (h₁ ▸ hgone) (h₂ ▸ hfind) (hw ▸ hphase) (hw ▸ hothers) (hc ▸ hcalls)
  | closed w rows ending hgone hfind hphase hrows hothers hcalls =>
      exact .closed w rows ending (h₁ ▸ hgone) (h₃ ▸ hfind) (hw ▸ hphase) hrows (hw ▸ hothers)
        (hc ▸ hcalls)
  | archived before after rows ending hgone hfind hphase hrows hcalls hidle =>
      exact .archived before after rows ending (h₁ ▸ hgone) (h₃ ▸ hfind) (hw ▸ hphase) hrows
        (hc ▸ hcalls) hidle

theorem concat_calls {P : Call → Prop} {xs ys : List Call}
    (h : ys = xs ∨ ∃ last, P last ∧ ys = xs ++ [last]) (hxs : ∀ call ∈ xs, P call) :
    ∀ call ∈ ys, P call := by
  intro call hm
  rcases h with rfl | ⟨last, hl, rfl⟩
  · exact hxs call hm
  · rcases List.mem_append.mp hm with hm | hm
    · exact hxs call hm
    · rw [List.mem_singleton.mp hm]
      exact hl

theorem aside_calls {s t : State} {w : Nat} {name : Str} (h : Aside name s t w)
    (hc : ∀ call ∈ s.calls, Idle name call) : ∀ call ∈ t.calls, Idle name call :=
  concat_calls h.calls hc

theorem aside_filter {s t : State} {w : Nat} {name : Str} (h : Aside name s t w)
    {before after : List Call} {call : Call}
    (hc : s.calls.filter (fun call => call.name = name) = before ++ call :: after)
    (hidle : ∀ call ∈ before ++ after, Idle name call) :
    ∃ after', t.calls.filter (fun call => call.name = name) = before ++ call :: after' ∧
      ∀ call ∈ before ++ after', Idle name call := by
  rcases h.calls with he | ⟨last, hl, he⟩
  · exact ⟨after, he ▸ hc, hidle⟩
  · by_cases hn : last.name = name
    · refine ⟨after ++ [last], ?_, ?_⟩
      · rw [he, List.filter_append, hc]
        simp [hn]
      · intro c hm
        rw [← List.append_assoc] at hm
        rcases List.mem_append.mp hm with hm | hm
        · exact hidle c hm
        · rw [List.mem_singleton.mp hm]
          exact hl
    · refine ⟨after, ?_, hidle⟩
      rw [he, List.filter_append, hc]
      simp [hn]

theorem NotYet.bystander {name : Str} {phase : Phase} (h : NotYet name phase) :
    Bystander name phase := by
  cases phase with
  | leaving call => exact fun he => absurd he h
  | idle | taken other | entered other => trivial
  | renamed other | reading other excCount rows rest | closing other rows ending => exact h

section WorkedCustody

variable {s t : State} {w : Nat} {a : Action} {name content : Str}

theorem worked_custody_waiting (hname : shouldAddFile name false = true) (hf : Filtered s)
    (h : Worked s w a t) (hfind : s.directory.find name = some content)
    (hphase : ∀ w, NotYet name (s.workers w)) (hcalls : ∀ call ∈ s.calls, call.name ≠ name) :
    Custody name content t := by
  rcases worked_waiting hname hf h hfind (hphase w) with
    ⟨hsame, hw, hc⟩ | ⟨hgone, hfind', hw, hc⟩
  · refine .waiting (hsame.self.trans hfind) ?_ (concat_calls hc hcalls)
    exact worked_workers h (P := fun _ => NotYet name) hw fun w' _ => hphase w'
  · refine .held w hgone hfind' (by rw [hw]; rfl) ?_ ?_
    · intro w' hw'
      rw [worked_others h w' hw']
      exact (hphase w').bystander
    · intro call hm he
      exact absurd he (hcalls call (hc ▸ hm))

theorem worked_bystanders {holder : Nat} (h : Worked s w a t)
    (hphase : Bystander name (t.workers w))
    (hothers : ∀ w' ≠ holder, Bystander name (s.workers w')) :
    ∀ w' ≠ holder, Bystander name (t.workers w') :=
  worked_workers h (P := fun w' phase => w' ≠ holder → Bystander name phase) (fun _ => hphase)
    fun w' _ => hothers w'

theorem worked_custody_held (hname : shouldAddFile name false = true) (hf : Filtered s)
    (h : Worked s w a t) {holder : Nat} (hgone : s.directory.find name = none)
    (hfind : s.directory.find (inprogress name) = some content)
    (hphase : Holder name content (s.workers holder))
    (hb : ∀ w' ≠ holder, Bystander name (s.workers w'))
    (hcalls : ∀ call ∈ s.calls, Idle name call) : Custody name content t := by
  have hothers := worked_others h
  by_cases hw : w = holder
  · subst hw
    rcases worked_holder h hgone hfind hphase with
      ⟨hdir, hphase', hc⟩ | ⟨rows, ending, hgone', hfind', hphase', hrows, hc⟩
    · exact .held w (hdir ▸ hgone) (hdir ▸ hfind) hphase'
        (fun w' hw' => hothers w' hw' ▸ hb w' hw') (hc ▸ hcalls)
    · exact .closed w rows ending hgone' hfind' hphase' hrows
        (fun w' hw' => hothers w' hw' ▸ hb w' hw') (hc ▸ hcalls)
  · have haside := worked_aside hname hf h hgone (hb w hw)
    refine .held holder (haside.same.self.trans hgone) (haside.same.inprogress.trans hfind) ?_
      (worked_bystanders h haside.phase hb) (aside_calls haside hcalls)
    rw [hothers holder (Ne.symm hw)]
    exact hphase

theorem worked_custody_closed (hname : shouldAddFile name false = true) (hf : Filtered s)
    (h : Worked s w a t) {holder : Nat} {rows : Rows} {ending : Ending}
    (hgone : s.directory.find name = none) (hfind : s.directory.find (done name) = some content)
    (hphase : s.workers holder = .leaving (winner name rows ending))
    (hrows : Streamed content rows ending) (hb : ∀ w' ≠ holder, Bystander name (s.workers w'))
    (hcalls : ∀ call ∈ s.calls, Idle name call) : Custody name content t := by
  by_cases hw : w = holder
  · subst hw
    obtain ⟨hdir, hidle, hc⟩ := worked_leaving h hphase
    refine .archived (s.calls.filter fun call => call.name = name) [] rows ending
      (hdir ▸ hgone) (hdir ▸ hfind) ?_ hrows ?_ ?_
    · apply worked_workers h (P := fun _ => Bystander name) _ hb
      rw [hidle]
      trivial
    · rw [hc, List.filter_append]
      simp [winner]
    · intro call hm
      rw [List.append_nil] at hm
      exact hcalls call (List.mem_of_mem_filter hm)
  · have haside := worked_aside hname hf h hgone (hb w hw)
    refine .closed holder rows ending (haside.same.self.trans hgone)
      (haside.same.done.trans hfind) ?_ hrows (worked_bystanders h haside.phase hb)
      (aside_calls haside hcalls)
    rw [worked_others h holder (Ne.symm hw)]
    exact hphase

theorem worked_custody (hname : shouldAddFile name false = true) (hf : Filtered s)
    (h : Worked s w a t) (hs : Custody name content s) : Custody name content t := by
  cases hs with
  | waiting hfind hphase hcalls => exact worked_custody_waiting hname hf h hfind hphase hcalls
  | held holder hgone hfind hphase hb hcalls =>
      exact worked_custody_held hname hf h hgone hfind hphase hb hcalls
  | closed holder rows ending hgone hfind hphase hrows hb hcalls =>
      exact worked_custody_closed hname hf h hgone hfind hphase hrows hb hcalls
  | archived before after rows ending hgone hfind hphase hrows hcalls hidle =>
      have haside := worked_aside hname hf h hgone (hphase w)
      obtain ⟨after', hcalls', hidle'⟩ := aside_filter haside hcalls hidle
      refine .archived before after' rows ending (haside.same.self.trans hgone)
        (haside.same.done.trans hfind) ?_ hrows hcalls' hidle'
      exact worked_workers h (P := fun _ => Bystander name) haside.phase fun w' _ => hphase w'

end WorkedCustody

structure Queued (name content : Str) (s : State) : Prop where
  filtered : Filtered s
  created : name ∈ s.created
  custody : Custody name content s

theorem step_queued (dir : Str) {name : Str} (content : Str) (hname : shouldAddFile name false = true)
    (s : State) (l : Label) (t : State) (h : step dir s l = some t) (hl : Admissible s l)
    (hs : Queued name content s) : Queued name content t := by
  have hfiltered := step_filtered dir s l t h hl hs.filtered
  cases l with
  | worker w a =>
      have hworked := workerStep_worked h
      exact ⟨hfiltered, worked_created hworked ▸ hs.created,
        worked_custody hname hs.filtered hworked hs.custody⟩
  | create other text =>
      obtain ⟨e, he, rfl⟩ := Option.map_eq_some_iff.mp h
      obtain ⟨hfresh, hother⟩ := hl
      refine ⟨hfiltered, List.mem_cons_of_mem _ hs.created, custody_same hs.custody ?_ rfl rfl⟩
      have hfind {n : Str} (hn : n ≠ other) : e.find n = s.directory.find n := by
        rw [Directory.find_create he, if_neg hn]
      refine ⟨hfind ?_, hfind ?_, hfind ?_⟩
      · rintro rfl
        exact hfresh hs.created
      · rintro rfl
        exact not_shouldAddFile_inprogress _ hother
      · rintro rfl
        exact not_shouldAddFile_done _ hother
  | enqueue other =>
      obtain ⟨-, he⟩ := Option.ite_none_right_eq_some.mp h
      cases he
      exact ⟨hfiltered, hs.created, custody_same hs.custody (.rfl rfl) rfl rfl⟩
  | restart => exact hl.elim

structure Unseen (name : Str) (s : State) : Prop where
  queue : name ∉ s.queue
  workers : ∀ w, subject (s.workers w) ≠ some name
  calls : ∀ call ∈ s.calls, call.name ≠ name

theorem worked_calls {s t : State} {w : Nat} {a : Action} (h : Worked s w a t) {call : Call}
    (hm : call ∈ t.calls) : call ∈ s.calls ∨ subject (s.workers w) = some call.name := by
  cases h with
  | decrement hphase =>
      rcases List.mem_append.mp hm with hm | hm
      · exact .inl hm
      · rw [hphase, List.mem_singleton.mp hm]
        exact .inr rfl
  | _ => exact .inl hm

theorem step_unseen (dir name : Str) (s : State) (l : Label) (t : State) (h : step dir s l = some t)
    (hl : Admissible s l ∧ l ≠ .enqueue name) (hs : Unseen name s) : Unseen name t := by
  cases l with
  | worker w a =>
      have hworked := workerStep_worked h
      refine ⟨fun hm => hs.queue (worked_queue hworked name hm), ?_, ?_⟩
      · intro w' hsub
        rcases worked_subject hworked w' hsub with hsub | hm
        · exact hs.workers w' hsub
        · exact hs.queue hm
      · intro call hm he
        rcases worked_calls hworked hm with hm | hsub
        · exact hs.calls call hm he
        · exact hs.workers w (he ▸ hsub)
  | create other text =>
      obtain ⟨e, he, rfl⟩ := Option.map_eq_some_iff.mp h
      exact ⟨hs.queue, hs.workers, hs.calls⟩
  | enqueue other =>
      obtain ⟨-, he⟩ := Option.ite_none_right_eq_some.mp h
      cases he
      refine ⟨?_, hs.workers, hs.calls⟩
      intro hm
      rcases List.mem_append.mp hm with hm | hm
      · exact hs.queue hm
      · exact hl.2 (by rw [List.mem_singleton.mp hm])
  | restart => exact hl.1.elim

theorem notYet_of_subject {name : Str} {phase : Phase} (h : subject phase ≠ some name) :
    NotYet name phase := by
  cases phase with
  | idle | taken other | entered other => trivial
  | renamed other | reading other excCount rows rest | closing other rows ending =>
      exact fun he => h (he ▸ rfl)
  | leaving call => exact fun he => h (he ▸ rfl)

theorem unseen_waiting {name content : Str} {s : State} (hs : Unseen name s)
    (hfind : s.directory.find name = some content) : Custody name content s :=
  .waiting hfind (fun w => notYet_of_subject (hs.workers w)) hs.calls

theorem init_unseen (name : Str) (d : Directory Str Str) : Unseen name (init d) :=
  ⟨fun h => (by cases h), fun _ h => (by cases h), fun _ h => (by cases h)⟩

theorem run_queued {dir name content : Str} {d : Directory Str Str} {tr tr' : List Label}
    {s t : State} (hfirst : run (step dir) (init d) tr = some s) (hnew : ∀ l ∈ tr, l ≠ .enqueue name)
    (hfind : s.directory.find name = some content)
    (hrest : run (step dir) s (.enqueue name :: tr') = some t)
    (hl : Along (step dir) Admissible (init d) (tr ++ .enqueue name :: tr')) :
    Queued name content t := by
  obtain ⟨hl₁, hl₂⟩ := (along_append hfirst).mp hl
  have hunseen := run_invariant_along (step_unseen dir name)
    (along_and hl₁ (along_of_forall hnew (init d))) hfirst (init_unseen name d)
  have hfiltered := run_invariant_along (step_filtered dir) hl₁ hfirst (init_filtered d)
  obtain ⟨u, hu, -⟩ := run_cons_eq_some.mp hrest
  have hname : shouldAddFile name false = true := by
    rw [← shouldAddFile_eventPath dir name]
    exact (Option.ite_none_right_eq_some.mp hu).1
  have hcreated := hfiltered.names name
    (Directory.find_isSome.mp (Option.isSome_of_eq_some hfind)) hname
  exact run_invariant_along (step_queued dir content hname) hl₂ hrest
    ⟨hfiltered, hcreated, unseen_waiting hunseen hfind⟩

theorem holder_subject {name content : Str} {phase : Phase} (h : Holder name content phase) :
    subject phase = some name := by
  cases phase with
  | renamed other => exact congrArg some h
  | reading other excCount rows rest | closing other rows ending => exact congrArg some h.1
  | idle | taken other | entered other | leaving call => exact h.elim

/-- However often a file is queued and however the processors take turns, one
call streams it and archives it, and the other calls on it do nothing. -/
theorem handle_once {dir name content : Str} {d : Directory Str Str} {tr tr' : List Label}
    {s t : State} (hfirst : run (step dir) (init d) tr = some s) (hnew : ∀ l ∈ tr, l ≠ .enqueue name)
    (hfind : s.directory.find name = some content)
    (hrest : run (step dir) s (.enqueue name :: tr') = some t)
    (hl : Along (step dir) Admissible (init d) (tr ++ .enqueue name :: tr'))
    (hreturned : ∀ w, subject (t.workers w) ≠ some name) (hsome : ∃ call ∈ t.calls, call.name = name) :
    ∃ before call after rows ending,
      t.calls.filter (fun call => call.name = name) = before ++ call :: after ∧
      call.streamed = some (rows, ending) ∧ Streamed content rows ending ∧
      call.renames = [(name, inprogress name), (inprogress name, done name)] ∧
      (∀ other ∈ before ++ after, other.streamed = none ∧ other.renames = []) ∧
      t.directory.find name = none ∧ t.directory.find (done name) = some content := by
  obtain ⟨-, -, hs⟩ := run_queued hfirst hnew hfind hrest hl
  cases hs with
  | waiting hfind hphase hcalls =>
      obtain ⟨call, hm, he⟩ := hsome
      exact absurd he (hcalls call hm)
  | held w hgone hfind hphase hothers hcalls =>
      exact absurd (holder_subject hphase) (hreturned w)
  | closed w rows ending hgone hfind hphase hrows hothers hcalls =>
      exact absurd (by rw [hphase]; rfl) (hreturned w)
  | archived before after rows ending hgone hfind hphase hrows hcalls hidle =>
      refine ⟨before, _, after, rows, ending, hcalls, rfl, hrows, rfl, ?_, hgone, hfind⟩
      intro other hm
      have hother : other ∈ t.calls.filter (fun call => call.name = name) := by
        rw [hcalls]
        rcases List.mem_append.mp hm with hm | hm
        · exact List.mem_append_left _ hm
        · exact List.mem_append_right _ (List.mem_cons_of_mem _ hm)
      exact hidle other hm (by simpa using (List.mem_filter.mp hother).2)

instance (s : State) : (l : Label) → Decidable (Admissible s l)
  | .create _ _ => inferInstanceAs (Decidable (_ ∧ _))
  | .restart => inferInstanceAs (Decidable False)
  | .worker _ _ => inferInstanceAs (Decidable True)
  | .enqueue _ => inferInstanceAs (Decidable True)

def oneRow : Directory Str Str := ⟨[(['x'], ['h', '\n', '1'])], by decide⟩

def race : List Label :=
  [.enqueue ['x'], .worker 0 .take, .worker 1 .take, .worker 0 .increment, .worker 1 .increment,
    .worker 0 .renameFirst, .worker 1 .renameFirst, .worker 1 .decrement, .worker 0 .openFile,
    .worker 0 (.row .published), .worker 0 .endOfFile, .worker 0 .renameLast, .worker 0 .decrement]

theorem race_returned {t : State}
    (ht : run (step ['d']) (init oneRow) (.enqueue ['x'] :: race) = some t) :
    (∀ w, subject (t.workers w) ≠ some ['x']) ∧ ∃ call ∈ t.calls, call.name = ['x'] := by
  cases ht
  refine ⟨?_, by decide⟩
  rintro (_ | _ | w) h <;> cases h

theorem handle_once_race :
    ∃ t, run (step ['d']) (init oneRow) (.enqueue ['x'] :: race) = some t ∧
      ∃ before call after rows ending,
        t.calls.filter (fun call => call.name = ['x']) = before ++ call :: after ∧
        call.streamed = some (rows, ending) ∧ Streamed ['h', '\n', '1'] rows ending ∧
        call.renames = [(['x'], inprogress ['x']), (inprogress ['x'], done ['x'])] ∧
        (∀ other ∈ before ++ after, other.streamed = none ∧ other.renames = []) ∧
        t.directory.find ['x'] = none ∧ t.directory.find (done ['x']) = some ['h', '\n', '1'] := by
  have hr : ∃ t, run (step ['d']) (init oneRow) (.enqueue ['x'] :: race) = some t := ⟨_, rfl⟩
  obtain ⟨t, ht⟩ := hr
  obtain ⟨h₁, h₂⟩ := race_returned ht
  exact ⟨t, ht, @handle_once ['d'] ['x'] _ oneRow [] race _ _ rfl (by decide) rfl ht (by decide) h₁ h₂⟩

/-- A file of fifteen rows, the first fourteen of which throw. -/
theorem handle_stops_early :
    ∃ t, run (step ['d']) (init ⟨[(['x'], 'h' :: (List.replicate 15 ['\n', '1']).flatten)], by decide⟩)
        ([.enqueue ['x'], .worker 0 .take, .worker 0 .increment, .worker 0 .renameFirst,
          .worker 0 .openFile] ++ List.replicate 14 (.worker 0 (.row .threw)) ++
          [.worker 0 .renameLast, .worker 0 .decrement]) = some t ∧
      Along (step ['d']) Admissible
        (init ⟨[(['x'], 'h' :: (List.replicate 15 ['\n', '1']).flatten)], by decide⟩)
        ([.enqueue ['x'], .worker 0 .take, .worker 0 .increment, .worker 0 .renameFirst,
          .worker 0 .openFile] ++ List.replicate 14 (.worker 0 (.row .threw)) ++
          [.worker 0 .renameLast, .worker 0 .decrement]) ∧
      (∀ w, subject (t.workers w) ≠ some ['x']) ∧
      ∃ call rows ending, t.calls = [call] ∧ call.name = ['x'] ∧ call.streamed = some (rows, ending) ∧
        rows.map Prod.fst ≠ dataLines ('h' :: (List.replicate 15 ['\n', '1']).flatten) := by
  refine ⟨_, rfl, by decide, ?_, _, _, _, rfl, rfl, rfl, by decide⟩
  rintro (_ | w) h <;> cases h

end Flycatcher.HandleOnce
