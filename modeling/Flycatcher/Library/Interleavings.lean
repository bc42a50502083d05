import Mathlib.Data.List.Basic
import Mathlib.Data.List.Perm.Basic

namespace Library.Interleavings

variable {α β : Type} [DecidableEq α]

def part (a : α) (log : List (α × β)) : List β := (log.filter fun entry => entry.1 = a).map Prod.snd

@[simp] theorem part_nil (a : α) : part a ([] : List (α × β)) = [] := rfl

theorem part_cons (a : α) (entry : α × β) (log : List (α × β)) :
    part a (entry :: log) = if entry.1 = a then entry.2 :: part a log else part a log := by
  rw [part, List.filter_cons]
  by_cases h : entry.1 = a
  · rw [if_pos (decide_eq_true h), if_pos h, List.map_cons]
    rfl
  · rw [if_neg (by simpa using h), if_neg h]
    rfl

theorem part_append (a : α) (xs ys : List (α × β)) : part a (xs ++ ys) = part a xs ++ part a ys := by
  rw [part, List.filter_append, List.map_append]
  rfl

theorem part_own (a : α) (ys : List β) : part a (ys.map fun y => (a, y)) = ys := by
  induction ys with
  | nil => rfl
  | cons y ys ih => rw [List.map_cons, part_cons, if_pos rfl, ih]

theorem part_other {a b : α} (h : b ≠ a) (ys : List β) : part a (ys.map fun y => (b, y)) = [] := by
  induction ys with
  | nil => rfl
  | cons y ys ih => rw [List.map_cons, part_cons, if_neg h, ih]

theorem flatMap_part_cons {writers : List α} (hnodup : writers.Nodup) {entry : α × β}
    (hm : entry.1 ∈ writers) (log : List (α × β)) :
    (writers.flatMap fun a => part a (entry :: log)).Perm
      (entry.2 :: writers.flatMap fun a => part a log) := by
  induction writers with
  | nil => cases hm
  | cons a writers ih =>
      obtain ⟨ha, hnodup⟩ := List.nodup_cons.mp hnodup
      rw [List.flatMap_cons, List.flatMap_cons, part_cons]
      by_cases he : entry.1 = a
      · -- the other writers have no part in the entry
        have hothers : (writers.flatMap fun b => part b (entry :: log)) =
            writers.flatMap fun b => part b log := by
          apply List.flatMap_congr
          intro b hb
          rw [part_cons, if_neg]
          rintro rfl
          exact ha (he ▸ hb)
        rw [if_pos he, hothers, List.cons_append]
      · rw [if_neg he]
        have hm' := (List.mem_cons.mp hm).resolve_left he
        exact ((ih hnodup hm').append_left _).trans List.perm_middle

/-- The log is its parts put together, when each entry is of one of the writers. -/
theorem perm_flatMap_part {writers : List α} (hnodup : writers.Nodup) {log : List (α × β)}
    (h : ∀ entry ∈ log, entry.1 ∈ writers) :
    (log.map Prod.snd).Perm (writers.flatMap fun a => part a log) := by
  induction log with
  | nil => simp
  | cons entry log ih =>
      obtain ⟨hentry, hlog⟩ := List.forall_mem_cons.mp h
      rw [List.map_cons]
      exact ((ih hlog).cons _).trans (flatMap_part_cons hnodup hentry log).symm

end Library.Interleavings
