import Flycatcher.CsvIterator
import Flycatcher.Library.Directories
import Flycatcher.Library.Runs
import Flycatcher.Polling
import Mathlib.Data.List.Basic
import Mathlib.Logic.Function.Basic

namespace Flycatcher.Handle

open Library.TextStreams Library.Directories Library.Runs FileNames Polling CsvIterator

inductive Outcome
  | published
  | ignored
  | threw
deriving DecidableEq

inductive Ending
  | endOfFile
  | tooManyExceptions
  | notLoaded
deriving DecidableEq

abbrev Rows := List (Str × Outcome)

structure Call where
  name : Str
  streamed : Option (Rows × Ending)
  renames : List (Str × Str)
deriving DecidableEq

inductive Phase
  | idle
  | taken (name : Str)
  | entered (name : Str)
  | renamed (name : Str)
  | reading (name : Str) (excCount : Nat) (rows : Rows) (rest : List Str)
  | closing (name : Str) (rows : Rows) (ending : Ending)
  | leaving (call : Call)
deriving DecidableEq

structure Move where
  source : Str
  target : Str
  replaced : Bool
deriving DecidableEq

/-- The directory, the queue and the processors. A path in the queue stands for
the entry that it leads to, and is given by the name of that entry: handle does
no more with it than append to it. The last three fields record the past. -/
structure State where
  directory : Directory Str Str
  queue : List Str
  workers : Nat → Phase
  activeProcessors : BitVec 64
  calls : List Call
  moves : List Move
  created : List Str

inductive Action
  | take
  | increment
  | renameFirst
  | openFile
  | row (outcome : Outcome)
  | endOfFile
  | loadFails
  | renameLast
  | decrement
deriving DecidableEq

def dataLines (text : Str) : List Str := (textLines text).tail

def rowsOf (content : Option Str) : List Str := (content.map dataLines).getD []

def State.goto (s : State) (w : Nat) (phase : Phase) : State :=
  { s with workers := Function.update s.workers w phase }

def State.rename (s : State) (source target : Str) : Option State :=
  (s.directory.rename source target).map fun directory =>
    { s with directory, moves := s.moves ++ [⟨source, target, target ∈ s.directory.names⟩] }

def afterRow (name : Str) (excCount : Nat) (rows : Rows) (rest : List Str) : Outcome → Phase
  -- The write of the row that threw is taken to return, as it is meant to.
  | .threw =>
      if excCount + 1 > 13 then .closing name rows .tooManyExceptions
      else .reading name (excCount + 1) rows rest
  | _ => .reading name excCount rows rest

def workerStep (s : State) (w : Nat) (a : Action) : Option State :=
  match s.workers w, a with
  | .idle, .take =>
      match s.queue with
      | name :: queue => some (State.goto { s with queue } w (.taken name))
      | [] => none
  | .taken name, .increment =>
      some (State.goto { s with activeProcessors := s.activeProcessors + 1 } w (.entered name))
  | .entered name, .renameFirst =>
      match s.rename name (inprogress name) with
      | some s => some (s.goto w (.renamed name))
      | none => some (s.goto w (.leaving ⟨name, none, []⟩))
  | .renamed name, .openFile =>
      some (s.goto w (.reading name 0 [] (rowsOf (s.directory.find (inprogress name)))))
  | .reading name excCount rows (row :: rest), .row outcome =>
      some (s.goto w (afterRow name excCount (rows ++ [(row, outcome)]) rest outcome))
  | .reading name _ rows [], .endOfFile => some (s.goto w (.closing name rows .endOfFile))
  | .reading name _ rows _, .loadFails => some (s.goto w (.closing name rows .notLoaded))
  | .closing name rows ending, .renameLast =>
      match s.rename (inprogress name) (done name) with
      | some s => some (s.goto w (.leaving ⟨name, some (rows, ending),
          [(name, inprogress name), (inprogress name, done name)]⟩))
      | none => some (s.goto w (.leaving ⟨name, some (rows, ending), [(name, inprogress name)]⟩))
  | .leaving call, .decrement =>
      some (State.goto { s with
        activeProcessors := s.activeProcessors - 1, calls := s.calls ++ [call] } w .idle)
  | _, _ => none

inductive Label
  | worker (w : Nat) (a : Action)
  | create (name content : Str)
  | enqueue (name : Str)
  | restart
deriving DecidableEq

def startupListing (dir : Str) (names : List Str) : List Str :=
  names.filter fun name => entryPath dir name ∈ (DirectoryPoller.construct dir names).filePaths

/-- The steps of the processors, of the outside world, and of the poller when it
hands a path of an event over. A restart ends the run of the program wherever
it is, and starts the next one with the startup listing in the queue. -/
def step (dir : Str) (s : State) : Label → Option State
  | .worker w a => workerStep s w a
  | .create name content =>
      (s.directory.create name content).map fun directory =>
        { s with directory, created := name :: s.created }
  | .enqueue name =>
      if shouldAddFile (eventPath dir name) false then some { s with queue := s.queue ++ [name] }
      else none
  | .restart => some { s with
      queue := startupListing dir s.directory.names
      workers := fun _ => .idle
      activeProcessors := 0 }

def init (directory : Directory Str Str) : State :=
  ⟨directory, [], fun _ => .idle, 0, [], [], directory.names⟩

def State.moved (s : State) (directory : Directory Str Str) (source target : Str) : State :=
  { s with directory, moves := s.moves ++ [⟨source, target, target ∈ s.directory.names⟩] }

inductive Worked (s : State) (w : Nat) : Action → State → Prop
  | take {name : Str} {queue : List Str} (hw : s.workers w = .idle) (hq : s.queue = name :: queue) :
      Worked s w .take (State.goto { s with queue } w (.taken name))
  | increment {name : Str} (hw : s.workers w = .taken name) :
      Worked s w .increment
        (State.goto { s with activeProcessors := s.activeProcessors + 1 } w (.entered name))
  | renamed {name : Str} {d : Directory Str Str} (hw : s.workers w = .entered name)
      (hr : s.directory.rename name (inprogress name) = some d) :
      Worked s w .renameFirst ((s.moved d name (inprogress name)).goto w (.renamed name))
  | missing {name : Str} (hw : s.workers w = .entered name) (hr : name ∉ s.directory.names) :
      Worked s w .renameFirst (s.goto w (.leaving ⟨name, none, []⟩))
  | opened {name : Str} (hw : s.workers w = .renamed name) :
      Worked s w .openFile
        (s.goto w (.reading name 0 [] (rowsOf (s.directory.find (inprogress name)))))
  | row {name row : Str} {excCount : Nat} {rows : Rows} {rest : List Str} (outcome : Outcome)
      (hw : s.workers w = .reading name excCount rows (row :: rest)) :
      Worked s w (.row outcome)
        (s.goto w (afterRow name excCount (rows ++ [(row, outcome)]) rest outcome))
  | endOfFile {name : Str} {excCount : Nat} {rows : Rows}
      (hw : s.workers w = .reading name excCount rows []) :
      Worked s w .endOfFile (s.goto w (.closing name rows .endOfFile))
  | loadFails {name : Str} {excCount : Nat} {rows : Rows} {rest : List Str}
      (hw : s.workers w = .reading name excCount rows rest) :
      Worked s w .loadFails (s.goto w (.closing name rows .notLoaded))
  | archived {name : Str} {rows : Rows} {ending : Ending} {d : Directory Str Str}
      (hw : s.workers w = .closing name rows ending)
      (hr : s.directory.rename (inprogress name) (done name) = some d) :
      Worked s w .renameLast ((s.moved d (inprogress name) (done name)).goto w
        (.leaving ⟨name, some (rows, ending),
          [(name, inprogress name), (inprogress name, done name)]⟩))
  | unarchived {name : Str} {rows : Rows} {ending : Ending}
      (hw : s.workers w = .closing name rows ending) (hr : inprogress name ∉ s.directory.names) :
      Worked s w .renameLast
        (s.goto w (.leaving ⟨name, some (rows, ending), [(name, inprogress name)]⟩))
  | decrement {call : Call} (hw : s.workers w = .leaving call) :
      Worked s w .decrement (State.goto { s with
        activeProcessors := s.activeProcessors - 1, calls := s.calls ++ [call] } w .idle)

theorem rename_cases (s : State) (source target : Str) :
    (∃ d, s.directory.rename source target = some d ∧
      s.rename source target = some (s.moved d source target)) ∨
    source ∉ s.directory.names ∧ s.rename source target = none := by
  rw [State.rename]
  cases hr : s.directory.rename source target with
  | some d => exact .inl ⟨d, rfl, rfl⟩
  | none =>
      refine .inr ⟨?_, rfl⟩
      rw [← @Directory.rename_isSome _ _ _ _ _ target, hr]
      simp

theorem workerStep_worked {s t : State} {w : Nat} {a : Action} (h : workerStep s w a = some t) :
    Worked s w a t := by
  unfold workerStep at h
  split at h
  next hw =>
    split at h
    next name queue hq => cases h; exact .take hw hq
    next => cases h
  next name hw => cases h; exact .increment hw
  next name hw =>
    rcases rename_cases s name (inprogress name) with ⟨d, hr, he⟩ | ⟨hr, he⟩
    · rw [he] at h
      cases h
      exact .renamed hw hr
    · rw [he] at h
      cases h
      exact .missing hw hr
  next name hw => cases h; exact .opened hw
  next name excCount rows row rest outcome hw => cases h; exact .row outcome hw
  next name excCount rows hw => cases h; exact .endOfFile hw
  next name excCount rows rest hw => cases h; exact .loadFails hw
  next name rows ending hw =>
    rcases rename_cases s (inprogress name) (done name) with ⟨d, hr, he⟩ | ⟨hr, he⟩
    · rw [he] at h
      cases h
      exact .archived hw hr
    · rw [he] at h
      cases h
      exact .unarchived hw hr
  next call hw => cases h; exact .decrement hw
  next => cases h

inductive Stage
  | waiting
  | inprogress
  | done
deriving DecidableEq

def Stage.rename : Stage → Str → Str
  | .waiting, name => name
  | .inprogress, name => FileNames.inprogress name
  | .done, name => FileNames.done name

def holds : Phase → Option (Str × Stage)
  | .taken name | .entered name => some (name, .waiting)
  | .renamed name | .reading name _ _ _ | .closing name _ _ => some (name, .inprogress)
  | .idle | .leaving _ => none

@[simp] theorem goto_workers_self (s : State) (w : Nat) (phase : Phase) :
    (s.goto w phase).workers w = phase := Function.update_self ..

theorem worked_others {s t : State} {w : Nat} {a : Action} (h : Worked s w a t) :
    ∀ w' ≠ w, t.workers w' = s.workers w' := by
  intro w' hw
  cases h <;> exact Function.update_of_ne hw ..

theorem worked_queue {s t : State} {w : Nat} {a : Action} (h : Worked s w a t) :
    ∀ name ∈ t.queue, name ∈ s.queue := by
  intro name hm
  cases h with
  | take _ hq =>
      rw [hq]
      exact List.mem_cons_of_mem _ hm
  | _ => exact hm

theorem worked_workers {s t : State} {w : Nat} {a : Action} (h : Worked s w a t)
    {P : Nat → Phase → Prop} (hw : P w (t.workers w)) (hs : ∀ w' ≠ w, P w' (s.workers w')) :
    ∀ w', P w' (t.workers w') := by
  intro w'
  by_cases hw' : w' = w
  · rw [hw']
    exact hw
  · rw [worked_others h w' hw']
    exact hs w' hw'

theorem afterRow_cases (name : Str) (excCount : Nat) (rows : Rows) (rest : List Str)
    (outcome : Outcome) :
    (∃ n, afterRow name excCount rows rest outcome = .reading name n rows rest) ∨
      afterRow name excCount rows rest outcome = .closing name rows .tooManyExceptions := by
  cases outcome with
  | threw =>
      rw [afterRow]
      split_ifs
      · exact .inr rfl
      · exact .inl ⟨_, rfl⟩
  | published | ignored => exact .inl ⟨_, rfl⟩

theorem afterRow_holds (name : Str) (excCount : Nat) (rows : Rows) (rest : List Str)
    (outcome : Outcome) :
    holds (afterRow name excCount rows rest outcome) = some (name, .inprogress) := by
  rcases afterRow_cases name excCount rows rest outcome with ⟨n, he⟩ | he
  · rw [he]
    rfl
  · rw [he]
    rfl

theorem goto_holds (s : State) (w : Nat) (phase : Phase)
    (h : holds phase = holds (s.workers w) ∨ holds phase = none) (w' : Nat) :
    holds ((s.goto w phase).workers w') = holds (s.workers w') ∨
      holds ((s.goto w phase).workers w') = none := by
  by_cases hw : w' = w
  · subst hw
    simpa [State.goto] using h
  · simp [State.goto, hw]

theorem worked_holds {s t : State} {w : Nat} {a : Action} (h : Worked s w a t) {p : Str × Stage}
    (hw : holds (t.workers w) = some p) :
    holds (s.workers w) = some p ∨ (∃ name ∈ s.queue, p = (name, .waiting)) ∨
      ∃ name ∈ s.directory.names, a = .renameFirst ∧ s.workers w = .entered name ∧
        p = (name, .inprogress) := by
  cases h with
  | @take name queue hphase hq =>
      rw [goto_workers_self] at hw
      refine .inr (.inl ⟨name, ?_, (Option.some.inj hw).symm⟩)
      rw [hq]
      exact List.mem_cons_self
  | @renamed name e hphase hr =>
      rw [goto_workers_self] at hw
      exact .inr (.inr ⟨name, Directory.mem_of_rename hr, rfl, hphase, (Option.some.inj hw).symm⟩)
  | row outcome hphase =>
      rw [goto_workers_self, afterRow_holds] at hw
      rw [hphase]
      exact .inl hw
  | increment hphase | opened hphase | endOfFile hphase | loadFails hphase =>
      rw [goto_workers_self] at hw
      rw [hphase]
      exact .inl hw
  | missing hphase | archived hphase | unarchived hphase | decrement hphase =>
      rw [goto_workers_self] at hw
      cases hw

theorem worked_directory {s t : State} {w : Nat} {a : Action} (h : Worked s w a t) :
    t.directory = s.directory ∧ t.moves = s.moves ∨
    (∃ name, a = .renameFirst ∧ s.workers w = .entered name ∧
      s.directory.rename name (inprogress name) = some t.directory ∧
      t.moves = s.moves ++ [⟨name, inprogress name, inprogress name ∈ s.directory.names⟩]) ∨
    ∃ name rows ending, a = .renameLast ∧ s.workers w = .closing name rows ending ∧
      s.directory.rename (inprogress name) (done name) = some t.directory ∧
      t.moves = s.moves ++ [⟨inprogress name, done name, done name ∈ s.directory.names⟩] := by
  cases h with
  | renamed hphase hr => exact .inr (.inl ⟨_, rfl, hphase, hr, rfl⟩)
  | archived hphase hr => exact .inr (.inr ⟨_, _, _, rfl, hphase, hr, rfl⟩)
  | _ => exact .inl ⟨rfl, rfl⟩

theorem mem_startupListing {dir name : Str} {names : List Str} :
    name ∈ startupListing dir names ↔ name ∈ names ∧ ¬ doneMark <:+ name := by
  rw [startupListing, List.mem_filter, decide_eq_true_iff, mem_construct]
  constructor
  · rintro ⟨hm, other, -, he, hs⟩
    have hadd : shouldAddFile (entryPath dir name) true = true := by
      rw [← he, shouldAddFile_entryPath, hs]
    rw [shouldAddFile_entryPath, shouldAddFile_startingUp] at hadd
    exact ⟨hm, hadd⟩
  · rintro ⟨hm, hs⟩
    exact ⟨hm, name, hm, rfl, (shouldAddFile_startingUp name).mpr hs⟩

end Flycatcher.Handle
