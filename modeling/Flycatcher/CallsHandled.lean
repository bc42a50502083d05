import Flycatcher.Handle
import Flycatcher.HandleCall
import Mathlib.Data.List.Basic

namespace Flycatcher.CallsHandled

open Library.TextStreams Library.Statements Library.Runs CsvRow FileNames Handle
open HandleCall (Attempt UpToThrow throws attempts renames handle)

variable {dir : Str} {s t : State} {rows : Rows}

def liftOutcome : Outcome → HandleCall.Outcome
  | .published => .published
  | .ignored => .ignored
  | .threw => .threw .other

def attemptsOf (rows : Rows) : List Attempt :=
  rows.map fun row => ⟨row.1, .empty, liftOutcome row.2⟩

def Due (rows : Rows) : Prop := UpToThrow 14 (attemptsOf rows) (attemptsOf rows)

def CallDue (call : Call) : Prop := ∀ streamed ∈ call.streamed, Due streamed.1

def PhaseDue : Phase → Prop
  | .reading _ excCount rows _ => excCount = throws (attemptsOf rows) ∧ excCount ≤ 13
  | .closing _ rows _ => Due rows
  | .leaving call => CallDue call
  | _ => True

structure AllDue (s : State) : Prop where
  workers : ∀ w, PhaseDue (s.workers w)
  calls : ∀ call ∈ s.calls, CallDue call

theorem throws_cons (a : Attempt) (xs : List Attempt) :
    throws (a :: xs) = throws xs + if a.throws then 1 else 0 := List.countP_cons

theorem throws_before_last {before after : List Attempt} {last : Attempt}
    (h : last.throws = true) :
    throws (before ++ last :: after) = throws before + throws after + 1 := by
  rw [HandleCall.throws_append, throws_cons, if_pos h, Nat.add_assoc]

/-- What is thrown before it tells which row throws last. -/
theorem last_throw_unique {before before' after after' : List Attempt} {last last' : Attempt}
    (he : before ++ last :: after = before' ++ last' :: after') (hlast : last.throws = true)
    (hlast' : last'.throws = true) (hcount : throws before = throws before') :
    before ++ [last] = before' ++ [last'] := by
  induction before generalizing before' with
  | nil =>
      cases before' with
      | nil =>
          obtain rfl := (List.cons.inj he).1
          rfl
      | cons b before' =>
          obtain rfl := (List.cons.inj he).1
          rw [throws_cons, if_pos hlast] at hcount
          exact absurd hcount.symm (Nat.succ_ne_zero _)
  | cons b before ih =>
      cases before' with
      | nil =>
          obtain rfl := (List.cons.inj he).1
          rw [throws_cons, if_pos hlast'] at hcount
          exact absurd hcount (Nat.succ_ne_zero _)
      | cons b' before' =>
          obtain ⟨rfl, hrest⟩ := List.cons.inj he
          rw [throws_cons, throws_cons] at hcount
          rw [List.cons_append, List.cons_append, ih hrest (Nat.add_right_cancel hcount)]

/-- There is one way only to leave the loop when it is due. -/
theorem upToThrow_unique {n : Nat} {rows xs ys : List Attempt} (hx : UpToThrow n rows xs)
    (hy : UpToThrow n rows ys) : xs = ys := by
  rcases hx with ⟨hlt, rfl⟩ | ⟨before, last, after, rfl, rfl, hlast, hn⟩
  · rcases hy with ⟨-, rfl⟩ | ⟨before, last, after, rfl, rfl, hlast, hn⟩
    · rfl
    · rw [throws_before_last hlast] at hlt
      omega
  · rcases hy with ⟨hlt, rfl⟩ | ⟨before', last', after', he, rfl, hlast', hn'⟩
    · rw [throws_before_last hlast] at hlt
      omega
    · exact last_throw_unique he hlast hlast' (Nat.succ.inj (hn.trans hn'.symm))

theorem attemptsOf_concat (rows : Rows) (row : Str) (outcome : Outcome) :
    attemptsOf (rows ++ [(row, outcome)]) =
      attemptsOf rows ++ [⟨row, .empty, liftOutcome outcome⟩] := List.map_append

theorem due_of_le (h : throws (attemptsOf rows) ≤ 13) : Due rows :=
  .inl ⟨Nat.lt_succ_of_le h, rfl⟩

theorem afterRow_due (name row : Str) (rest : List Str) (outcome : Outcome)
    (h : throws (attemptsOf rows) ≤ 13) :
    PhaseDue (afterRow name (throws (attemptsOf rows)) (rows ++ [(row, outcome)]) rest outcome) := by
  have hconcat : throws (attemptsOf (rows ++ [(row, outcome)])) = throws (attemptsOf rows) +
      throws [⟨row, .empty, liftOutcome outcome⟩] := by
    rw [attemptsOf_concat, HandleCall.throws_append]
  cases outcome with
  | published | ignored => exact ⟨hconcat.symm, h⟩
  | threw =>
      rw [afterRow]
      split_ifs with hlimit
      · exact .inr ⟨attemptsOf rows, _, [], attemptsOf_concat .., attemptsOf_concat .., rfl, by omega⟩
      · exact ⟨hconcat.symm, by omega⟩

theorem worked_due {w : Nat} {a : Action} (h : Worked s w a t) (hs : AllDue s) : AllDue t := by
  have hw := hs.workers w
  refine ⟨worked_workers h ?_ fun w' _ => hs.workers w', ?_⟩
  · cases h with
    | take | increment | renamed | decrement =>
        rw [goto_workers_self]
        trivial
    | missing =>
        rw [goto_workers_self]
        rintro streamed hm
        cases hm
    | opened =>
        rw [goto_workers_self]
        exact ⟨rfl, Nat.zero_le 13⟩
    | row outcome hphase =>
        rw [hphase] at hw
        obtain ⟨rfl, hle⟩ := hw
        rw [goto_workers_self]
        exact afterRow_due _ _ _ _ hle
    | endOfFile hphase | loadFails hphase =>
        rw [hphase] at hw
        obtain ⟨rfl, hle⟩ := hw
        rw [goto_workers_self]
        exact due_of_le hle
    | archived hphase | unarchived hphase =>
        rw [hphase] at hw
        rw [goto_workers_self]
        rintro streamed hm
        cases hm
        exact hw
  · cases h with
    | decrement hphase =>
        rw [hphase] at hw
        intro call hm
        rcases List.mem_append.mp hm with hm | hm
        · exact hs.calls call hm
        · obtain rfl := List.mem_singleton.mp hm
          exact hw
    | _ => exact hs.calls

theorem step_due {label : Label} (h : step dir s label = some t) (hs : AllDue s) : AllDue t := by
  cases label with
  | worker w a => exact worked_due (workerStep_worked h) hs
  | create name content =>
      obtain ⟨d, -, rfl⟩ := Option.map_eq_some_iff.mp h
      exact ⟨hs.workers, hs.calls⟩
  | enqueue name =>
      rw [step] at h
      split_ifs at h
      cases h
      exact ⟨hs.workers, hs.calls⟩
  | restart =>
      cases h
      exact ⟨fun _ => trivial, hs.calls⟩

/-- In every run of the processors, a call that has streamed rows has streamed
them the way handle goes through a file, where the write of a row that throws returns. -/
theorem calls_handled {directory : Library.Directories.Directory Str Str} {tr : List Label}
    (hr : run (step dir) (init directory) tr = some t) {call : Call} (hcall : call ∈ t.calls)
    {ending : Ending} (hstreamed : call.streamed = some (rows, ending)) (days : Int) :
    ∃ file, attempts (handle skip ⟨call.name, true, file, days⟩).2.events = attemptsOf rows ∧
      renames (handle skip ⟨call.name, true, file, days⟩).2.events =
        [(call.name, inprogress call.name), (inprogress call.name, done call.name)] := by
  have hinit : AllDue (init directory) := ⟨fun _ => trivial, by simp [init]⟩
  have hdue := (run_invariant (fun s a t => step_due) hr hinit).calls call hcall _ hstreamed
  obtain ⟨u, ⟨attempted, hupTo, hprogress⟩, hhandle⟩ :=
    HandleCall.handle_renamed call.name ⟨attemptsOf rows, none⟩ days
  obtain rfl := upToThrow_unique hupTo hdue
  refine ⟨⟨attemptsOf rows, none⟩, ?_, ?_⟩
  · rw [hhandle]
    exact HandleCall.attempts_left days hprogress
  · rw [hhandle]
    exact HandleCall.renames_left days hprogress

end Flycatcher.CallsHandled
