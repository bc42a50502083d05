import Mathlib.Logic.Function.Basic

namespace Library.StopFlags

variable {α : Type}

/-- Where a thread is in a loop that tests a stop flag at its head, then waits a
while, and then does its work whether or not the flag has been set meanwhile. -/
inductive Position (α : Type)
  | head
  | waiting
  | working (point : α)
  | left
deriving DecidableEq

def Position.test (stop : Bool) : Position α → Option (Position α)
  | .head => some (if stop then .left else .waiting)
  | _ => none

def Position.wake (first : α) : Position α → Option (Position α)
  | .waiting => some (.working first)
  | _ => none

def tally (stop : Bool) (n : Nat) : Nat := if stop then n + 1 else n

/-- The turns that are begun, and the acts that are done, once the flag is set. The
point of the work tells whether the act of the turn is already done. -/
structure Budget (acted : α → Bool) (stop : Bool) (position : Position α) (turns acts : Nat) :
    Prop where
  quiet : stop = false → turns = 0 ∧ acts = 0
  bound : match position with
    | .waiting => turns = 0 ∧ acts = 0
    | .working point => turns ≤ 1 ∧ acts ≤ if acted point then 1 else 0
    | .head | .left => turns ≤ 1 ∧ acts ≤ 1

variable {acted : α → Bool} {stop : Bool} {position position' : Position α} {point point' : α}
  {turns acts : Nat}

theorem tally_le {n m : Nat} (h : n ≤ m) : tally stop n ≤ m + 1 := by
  rw [tally]
  split <;> omega

theorem Budget.le (h : Budget acted stop position turns acts) : turns ≤ 1 ∧ acts ≤ 1 := by
  have hb := h.bound
  cases position with
  | head | left => exact hb
  | waiting =>
      obtain ⟨rfl, rfl⟩ := hb
      exact ⟨Nat.zero_le 1, Nat.zero_le 1⟩
  | working point =>
      refine ⟨hb.1, Nat.le_trans hb.2 ?_⟩
      split <;> omega

theorem Budget.start (position : Position α) : Budget acted false position 0 0 := by
  refine ⟨fun _ => ⟨rfl, rfl⟩, ?_⟩
  cases position <;> simp

theorem Budget.set (h : Budget acted stop position turns acts) :
    Budget acted true position turns acts :=
  ⟨fun he => (by cases he), h.bound⟩

theorem Budget.test (h : Budget acted stop position turns acts)
    (ht : position.test stop = some position') : Budget acted stop position' turns acts := by
  cases position with
  | waiting | working | left => cases ht
  | head =>
      cases ht
      cases stop with
      | true => exact ⟨h.quiet, h.bound⟩
      | false => exact ⟨h.quiet, h.quiet rfl⟩

theorem Budget.wake (h : Budget acted stop position turns acts)
    (hw : position.wake point = some position') :
    Budget acted stop position' (tally stop turns) acts := by
  cases position with
  | head | working | left => cases hw
  | waiting =>
      cases hw
      obtain ⟨rfl, rfl⟩ := h.bound
      refine ⟨?_, tally_le (Nat.le_refl 0), Nat.zero_le _⟩
      rintro rfl
      exact ⟨rfl, rfl⟩

theorem Budget.work (h : Budget acted stop (.working point) turns acts)
    (hpoint : acted point = false) : Budget acted stop (.working point') turns acts := by
  refine ⟨h.quiet, h.bound.1, ?_⟩
  have hb := h.bound.2
  rw [hpoint] at hb
  exact Nat.le_trans hb (Nat.zero_le _)

theorem Budget.act (h : Budget acted stop (.working point) turns acts)
    (hpoint : acted point = false) (hpoint' : acted point' = true) :
    Budget acted stop (.working point') turns (tally stop acts) := by
  have hb := h.bound.2
  rw [hpoint] at hb
  refine ⟨?_, h.bound.1, ?_⟩
  · rintro rfl
    exact h.quiet rfl
  · rw [hpoint']
    exact tally_le hb

theorem Budget.finish (h : Budget acted stop (.working point) turns acts) :
    Budget acted stop .head turns acts :=
  ⟨h.quiet, h.le⟩

theorem Budget.actLast (h : Budget acted stop (.working point) turns acts)
    (hpoint : acted point = false) : Budget acted stop .head turns (tally stop acts) := by
  have hb := h.bound.2
  rw [hpoint] at hb
  refine ⟨?_, h.bound.1, tally_le hb⟩
  rintro rfl
  exact h.quiet rfl

theorem budgets_update {positions : Nat → Position α} {turnsOf actsOf : Nat → Nat}
    (h : ∀ v, Budget acted stop (positions v) (turnsOf v) (actsOf v)) (w : Nat)
    (hw : Budget acted stop position turns acts) (v : Nat) :
    Budget acted stop (Function.update positions w position v) (Function.update turnsOf w turns v)
      (Function.update actsOf w acts v) := by
  by_cases hv : v = w
  · subst hv
    simpa only [Function.update_self] using hw
  · simpa only [Function.update_of_ne hv] using h v

end Library.StopFlags
