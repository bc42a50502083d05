import Flycatcher.HandleCall
import Flycatcher.Library.Runs
import Mathlib.Algebra.Ring.Nat
import Mathlib.Data.List.Basic
import Mathlib.Logic.Function.Basic

namespace Flycatcher.ActiveProcessors

open Library.Runs Library.Statements HandleCall

/-- The call of handle that a processor is in, by what it has done and what it
will do. It has nothing left to do when it has returned. -/
structure Activity where
  past : List Event
  future : List Event

def Activity.inHandle (a : Activity) : Bool := !a.future.isEmpty

def Activity.counted (a : Activity) : Bool := 1 ∈ updates a.past ∧ -1 ∉ updates a.past

structure State where
  activeProcessors : BitVec 64
  workers : Nat → Activity

/-- The argument of fetch_add is converted to the type of the counter. -/
def perform (event : Event) (counter : BitVec 64) : BitVec 64 :=
  match event with
  | .fetchAdd n => counter + .ofInt 64 n
  | _ => counter

inductive Label
  | call (w : Nat) (input : Input)
  | act (w : Nat)

/-- So many processors, each of which calls handle when it is not in a call, on
whatever path and with whatever comes of the renames and the rows. The write of a row
that throws is taken to return. -/
def step (n : Nat) (s : State) : Label → Option State
  | .call w input =>
      if w < n ∧ (s.workers w).inHandle = false then
        some { s with workers := Function.update s.workers w ⟨[], (handle skip input).2.events⟩ }
      else none
  | .act w =>
      match (s.workers w).future with
      | [] => none
      | event :: future =>
          if w < n then
            some {
              activeProcessors := perform event s.activeProcessors
              workers :=
                Function.update s.workers w ⟨(s.workers w).past ++ [event], future⟩ }
          else none

def init : State := ⟨0, fun _ => ⟨[], []⟩⟩

def State.counted (s : State) (n : Nat) : Nat :=
  (List.range n).countP fun w => (s.workers w).counted

def State.added (s : State) : Label → Int
  | .call _ _ => 0
  | .act w => ((s.workers w).future.head?.bind Event.updated).getD 0

def State.stopWaiting (s : State) : Bool := s.activeProcessors = 0

theorem countP_update {α : Type} (p : α → Bool) (f : Nat → α) {w n : Nat} (hw : w < n) (x : α) :
    (List.range n).countP (fun i => p (Function.update f w x i)) + (p (f w)).toNat =
      (List.range n).countP (fun i => p (f i)) + (p x).toNat := by
  have hother {i : Nat} (hi : i ≠ w) : p (Function.update f w x i) = p (f i) := by
    rw [Function.update_of_ne hi]
  have htoNat (b : Bool) : (if b = true then 1 else 0) = b.toNat := by
    cases b <;> rfl
  induction n with
  | zero => exact absurd hw (Nat.not_lt_zero w)
  | succ n ih =>
      rw [List.range_succ, List.countP_append, List.countP_append, List.countP_singleton,
        List.countP_singleton, htoNat, htoNat]
      by_cases hn : w = n
      · subst hn
        have hrest : (List.range w).countP (fun i => p (Function.update f w x i)) =
            (List.range w).countP fun i => p (f i) := by
          apply List.countP_congr
          intro i hi
          rw [hother (Nat.ne_of_lt (List.mem_range.mp hi))]
        rw [hrest, Function.update_self]
        omega
      · rw [hother (Ne.symm hn)]
        have h := ih (by omega)
        omega

theorem handle_updates (input : Input) : updates (handle skip input).2.events = [1, -1] := by
  obtain ⟨d, renamed, file, days⟩ := input
  cases renamed with
  | false =>
      rw [handle_missing]
      rfl
  | true =>
      obtain ⟨t, ⟨attempted, -, ht⟩, hhandle⟩ := handle_renamed d file days
      obtain ⟨events, hs, -, -, -, hu, -⟩ := ht.events
      rw [hhandle, left_events, hs, updates_append, updates_append, hu]
      rfl

variable {n : Nat} {s t : State} {label : Label}

def Activity.Regular (a : Activity) : Prop :=
  updates (a.past ++ a.future) = [1, -1] ∨ a = ⟨[], []⟩

inductive Acted (a : Activity) (event : Event) (future : List Event) : Prop
  | other (hevent : event.updated = none)
      (hcounted : Activity.counted ⟨a.past ++ [event], future⟩ = a.counted)
  | increment (hevent : event = .fetchAdd 1) (hbefore : a.counted = false)
      (hafter : Activity.counted ⟨a.past ++ [event], future⟩ = true)
  | decrement (hevent : event = .fetchAdd (-1)) (hbefore : a.counted = true)
      (hafter : Activity.counted ⟨a.past ++ [event], future⟩ = false)

theorem updates_singleton_other {event : Event} (h : event.updated = none) :
    updates [event] = [] := by
  rw [updates, List.filterMap_cons_none h, List.filterMap_nil]

theorem Activity.Regular.acted {a : Activity} {event : Event} {future : List Event}
    (h : a.Regular) (hf : a.future = event :: future) : Acted a event future := by
  rcases h with h | rfl
  · rw [hf, List.append_cons, updates_append, updates_append] at h
    cases hu : event.updated with
    | none =>
        refine .other hu ?_
        rw [Activity.counted, Activity.counted, updates_append, updates_singleton_other hu,
          List.append_nil]
    | some m =>
        obtain rfl : event = .fetchAdd m := by
          cases event <;> cases hu
          rfl
        have hm : updates [Event.fetchAdd m] = [m] := rfl
        rw [hm] at h
        cases hp : updates a.past with
        | nil =>
            rw [hp] at h
            obtain rfl : m = 1 := (List.cons.inj h).1
            refine .increment rfl ?_ ?_
            · simp [Activity.counted, hp]
            · simp [Activity.counted, updates_append, hp, hm]
        | cons x xs =>
            rw [hp] at h
            obtain ⟨rfl, hxs⟩ := List.cons.inj h
            cases xs with
            | nil =>
                obtain rfl : m = -1 := (List.cons.inj hxs).1
                refine .decrement rfl ?_ ?_
                · simp [Activity.counted, hp]
                · simp [Activity.counted, updates_append, hp, hm]
            | cons y ys => simp at hxs
  · cases hf

structure Exact (n : Nat) (s : State) : Prop where
  regular : ∀ w, (s.workers w).Regular
  counter : s.activeProcessors = .ofNat 64 (s.counted n)

theorem counted_le (n : Nat) (s : State) : s.counted n ≤ n := by
  have h := @List.countP_le_length _ (fun w => (s.workers w).counted) (List.range n)
  rwa [List.length_range] at h

theorem regular_update (hs : ∀ w, (s.workers w).Regular) {w : Nat} {a : Activity} (ha : a.Regular)
    (v : Nat) : (Function.update s.workers w a v).Regular := by
  by_cases hv : v = w
  · rw [hv, Function.update_self]
    exact ha
  · rw [Function.update_of_ne hv]
    exact hs v

theorem perform_increment (k : Nat) : perform (.fetchAdd 1) (.ofNat 64 k) = .ofNat 64 (k + 1) := by
  rw [BitVec.ofNat_add]
  rfl

theorem perform_decrement (k : Nat) : perform (.fetchAdd (-1)) (.ofNat 64 (k + 1)) = .ofNat 64 k := by
  have hcancel : BitVec.ofNat 64 1 + BitVec.ofInt 64 (-1) = 0#64 := rfl
  rw [perform, BitVec.ofNat_add, BitVec.add_assoc, hcancel, BitVec.add_zero]

theorem Activity.Regular.not_counted {a : Activity} (h : a.Regular) (hin : a.inHandle = false) :
    a.counted = false := by
  have hf : a.future = [] := by simpa [Activity.inHandle] using hin
  rcases h with h | rfl
  · rw [hf, List.append_nil] at h
    simp [Activity.counted, h]
  · rfl

theorem counted_goto (s : State) (counter : BitVec 64) {w : Nat} (hw : w < n) (a : Activity) :
    State.counted ⟨counter, Function.update s.workers w a⟩ n + (s.workers w).counted.toNat =
      s.counted n + a.counted.toNat :=
  countP_update Activity.counted s.workers hw a

theorem perform_other {event : Event} (h : event.updated = none) (c : BitVec 64) :
    perform event c = c := by
  cases event with
  | fetchAdd m => cases h
  | log | rename | attempt | ignore | excCount | notifyAll => rfl

theorem Acted.counter {a : Activity} {event : Event} {future : List Event}
    (h : Acted a event future) {k k' : Nat}
    (hcount : k' + a.counted.toNat = k + (Activity.counted ⟨a.past ++ [event], future⟩).toNat) :
    perform event (.ofNat 64 k) = .ofNat 64 k' ∧ (k' : Int) = k + event.updated.getD 0 := by
  cases h with
  | other hevent hsame =>
      rw [hsame] at hcount
      obtain rfl := Nat.add_right_cancel hcount
      rw [hevent]
      exact ⟨perform_other hevent _, (Int.add_zero _).symm⟩
  | increment hevent hbefore hafter =>
      rw [hbefore, hafter, Bool.toNat_false, Bool.toNat_true, Nat.add_zero] at hcount
      subst hevent hcount
      exact ⟨perform_increment k, rfl⟩
  | decrement hevent hbefore hafter =>
      rw [hbefore, hafter, Bool.toNat_false, Bool.toNat_true, Nat.add_zero] at hcount
      subst hevent hcount
      have hupdated : (Event.fetchAdd (-1)).updated.getD 0 = -1 := rfl
      rw [hupdated]
      exact ⟨perform_decrement k', by omega⟩

theorem step_exact (hs : Exact n s) (h : step n s label = some t) :
    Exact n t ∧ (t.counted n : Int) = s.counted n + s.added label := by
  cases label with
  | call w input =>
      rw [step] at h
      split_ifs at h with hcan
      obtain ⟨hw, hin⟩ := hcan
      cases h
      have hcount := counted_goto s s.activeProcessors hw ⟨[], (handle skip input).2.events⟩
      have hnew : Activity.counted ⟨[], (handle skip input).2.events⟩ = false := rfl
      rw [(hs.regular w).not_counted hin, hnew] at hcount
      have hsame := Nat.add_right_cancel hcount
      refine ⟨⟨regular_update hs.regular (.inl (handle_updates input)), ?_⟩, ?_⟩
      · rw [hsame]
        exact hs.counter
      · rw [hsame]
        exact (Int.add_zero _).symm
  | act w =>
      rw [step] at h
      cases hf : (s.workers w).future with
      | nil => simp [hf] at h
      | cons event future =>
          simp only [hf] at h
          split_ifs at h with hw
          cases h
          have hregular : Activity.Regular ⟨(s.workers w).past ++ [event], future⟩ := by
            rcases hs.regular w with hr | hr
            · rw [hf, List.append_cons] at hr
              exact .inl hr
            · rw [hr] at hf
              cases hf
          have hcount := counted_goto s (perform event s.activeProcessors) hw
            ⟨(s.workers w).past ++ [event], future⟩
          obtain ⟨hcounter, hadded⟩ := ((hs.regular w).acted hf).counter hcount
          refine ⟨⟨regular_update hs.regular hregular, ?_⟩, ?_⟩
          · rw [← hcounter, ← hs.counter]
          · rw [State.added, hf]
            exact hadded

theorem init_exact (n : Nat) : Exact n init := by
  refine ⟨fun w => .inr rfl, ?_⟩
  have hnone : init.counted n = 0 := List.countP_eq_zero.mpr fun w _ => Bool.false_ne_true
  rw [hnone]
  rfl

theorem Exact.toNat (hs : Exact n s) (hn : n < 2 ^ 64) : s.activeProcessors.toNat = s.counted n := by
  rw [hs.counter, BitVec.toNat_ofNat]
  exact Nat.mod_eq_of_lt (Nat.lt_of_le_of_lt (counted_le n s) hn)

theorem Exact.counted_idle (hs : Exact n s) (hidle : ∀ w < n, (s.workers w).inHandle = false) :
    s.counted n = 0 := by
  rw [State.counted, List.countP_eq_zero]
  intro w hw
  rw [(hs.regular w).not_counted (hidle w (List.mem_range.mp hw))]
  exact Bool.false_ne_true

theorem stopWaiting_iff (s : State) : s.stopWaiting = true ↔ s.activeProcessors = 0 :=
  decide_eq_true_iff

/-- In every state that any number of processors come to, the counter is the
number of calls between their increment and their decrement, modulo 2 ^ 64. It is
that number, and no step wraps the counter, when the processors are no more than
a size_t can tell. With no call in handle it is zero, and the LogProcessor goes on. -/
theorem active_processors_exact {labels : List Label} (hr : run (step n) init labels = some s) :
    s.activeProcessors = .ofNat 64 (s.counted n) ∧
      (n < 2 ^ 64 → s.activeProcessors.toNat = s.counted n ∧
        (∀ label t, step n s label = some t →
          (t.activeProcessors.toNat : Int) = s.activeProcessors.toNat + s.added label) ∧
        (s.stopWaiting = true ↔ s.counted n = 0)) ∧
      ((∀ w < n, (s.workers w).inHandle = false) →
        s.activeProcessors = 0 ∧ s.stopWaiting = true) := by
  have hexact : Exact n s :=
    run_invariant (fun s a t h hs => (step_exact hs h).1) hr (init_exact n)
  refine ⟨hexact.counter, fun hn => ⟨hexact.toNat hn, ?_, ?_⟩, fun hidle => ?_⟩
  · intro label t h
    obtain ⟨ht, hadded⟩ := step_exact hexact h
    rw [ht.toNat hn, hexact.toNat hn]
    exact hadded
  · rw [stopWaiting_iff, ← hexact.toNat hn, ← BitVec.toNat_inj]
    rfl
  · have hzero : s.activeProcessors = 0 := by
      rw [hexact.counter, hexact.counted_idle hidle]
      rfl
    exact ⟨hzero, (stopWaiting_iff s).mpr hzero⟩

def emptyFile : Input := ⟨['f'], true, ⟨[], none⟩, 0⟩

def twoCalls : List Label := [.call 0 emptyFile, .act 0, .act 0, .call 1 emptyFile, .act 1]

theorem active_processors_exact_two :
    ∃ s, run (step 2) init twoCalls = some s ∧ s.activeProcessors.toNat = 2 := by
  obtain ⟨s, hr, hcounted⟩ : ∃ s, run (step 2) init twoCalls = some s ∧ s.counted 2 = 2 :=
    ⟨_, rfl, rfl⟩
  obtain ⟨-, hexact, -⟩ := active_processors_exact hr
  exact ⟨s, hr, (hexact (by decide)).1.trans hcounted⟩

end Flycatcher.ActiveProcessors
