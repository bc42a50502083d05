import Mathlib.Data.List.Basic
import Mathlib.Logic.Function.Basic

namespace Library.Reorderings

section Lists

variable {α β σ : Type}

/-- The elements of xs, each at its place, can be brought into the order ys so
that of two conflicting ones the first stays in front. -/
def Reordering (conflict : α → α → Prop) (xs ys : List α) : Prop :=
  ∃ zs : List (α × Nat), zs.Perm xs.zipIdx ∧ zs.map Prod.fst = ys ∧
    zs.Pairwise fun a b => conflict a.1 b.1 → a.2 < b.2

theorem Reordering.perm {conflict : α → α → Prop} {xs ys : List α} (h : Reordering conflict xs ys) :
    ys.Perm xs := by
  obtain ⟨zs, hperm, rfl, -⟩ := h
  have hp := hperm.map Prod.fst
  rwa [List.zipIdx_map_fst] at hp

theorem Reordering.map {conflict : α → α → Prop} {conflict' : β → β → Prop} {xs ys : List α}
    (h : Reordering conflict xs ys) {f : α → β}
    (hf : ∀ a ∈ xs, ∀ b ∈ xs, conflict' (f a) (f b) → conflict a b) :
    Reordering conflict' (xs.map f) (ys.map f) := by
  obtain ⟨zs, hperm, rfl, hpair⟩ := h
  have hmem : ∀ z ∈ zs, z.1 ∈ xs := by
    intro z hz
    exact List.fst_mem_of_mem_zipIdx (hperm.subset hz)
  refine ⟨zs.map (Prod.map f id), ?_, ?_, ?_⟩
  · rw [List.zipIdx_map]
    exact hperm.map _
  · rw [List.map_map, List.map_map]
    rfl
  · rw [List.pairwise_map]
    apply hpair.imp_of_mem
    intro a b ha hb hab hc
    exact hab (hf _ (hmem a ha) _ (hmem b hb) hc)

variable {conflict : α → α → Prop} {f : σ → α → σ}

/-- What conflicts with none of the elements before it may as well come first. -/
theorem foldl_to_front (hcomm : ∀ a b s, ¬conflict a b → f (f s a) b = f (f s b) a) {a : α}
    {before : List α} (h : ∀ b ∈ before, ¬conflict b a) (s : σ) :
    (before ++ [a]).foldl f s = (a :: before).foldl f s := by
  induction before generalizing s with
  | nil => rfl
  | cons b before ih =>
      obtain ⟨hb, hbefore⟩ := List.forall_mem_cons.mp h
      rw [List.cons_append, List.foldl_cons, ih hbefore, List.foldl_cons, List.foldl_cons,
        List.foldl_cons, hcomm b a s hb]

theorem foldl_labelled (hcomm : ∀ a b s, ¬conflict a b → f (f s a) b = f (f s b) a)
    {ws zs : List (α × Nat)} (hsorted : ws.Pairwise fun a b => a.2 < b.2) (hperm : zs.Perm ws)
    (hzs : zs.Pairwise fun a b => conflict a.1 b.1 → a.2 < b.2) (s : σ) :
    (zs.map Prod.fst).foldl f s = (ws.map Prod.fst).foldl f s := by
  induction ws generalizing zs s with
  | nil => rw [hperm.eq_nil]
  | cons w ws ih =>
      obtain ⟨hw, hsorted⟩ := List.pairwise_cons.mp hsorted
      obtain ⟨before, after, rfl⟩ := List.append_of_mem (hperm.mem_iff.mpr List.mem_cons_self)
      have hrest : (before ++ after).Perm ws := (List.perm_middle.symm.trans hperm).cons_inv
      have hfree : ∀ b ∈ before.map Prod.fst, ¬conflict b w.1 := by
        intro b hb hc
        obtain ⟨z, hz, rfl⟩ := List.mem_map.mp hb
        have hlt := (List.pairwise_append.mp hzs).2.2 z hz w List.mem_cons_self hc
        have hgt := hw z (hrest.subset (List.mem_append_left after hz))
        exact Nat.lt_asymm hlt hgt
      have hzs : (before ++ after).Pairwise fun a b => conflict a.1 b.1 → a.2 < b.2 :=
        hzs.sublist (List.Sublist.append_left (List.sublist_cons_self w after) before)
      have ih := ih hsorted hrest hzs (f s w.1)
      rw [List.map_append, List.foldl_append] at ih
      rw [List.map_append, List.map_cons, ← List.singleton_append, ← List.append_assoc,
        List.foldl_append, foldl_to_front hcomm hfree, List.foldl_cons, ih]
      rfl

theorem zipIdx_sorted (xs : List α) (n : Nat) : (xs.zipIdx n).Pairwise fun a b => a.2 < b.2 := by
  induction xs generalizing n with
  | nil => exact .nil
  | cons x xs ih =>
      rw [List.zipIdx_cons, List.pairwise_cons]
      refine ⟨?_, ih (n + 1)⟩
      intro z hz
      exact List.le_snd_of_mem_zipIdx hz

/-- Where the elements without a conflict commute, a reordering folds to the
same result. -/
theorem Reordering.foldl_eq (hcomm : ∀ a b s, ¬conflict a b → f (f s a) b = f (f s b) a)
    {xs ys : List α} (h : Reordering conflict xs ys) (s : σ) : ys.foldl f s = xs.foldl f s := by
  obtain ⟨zs, hperm, rfl, hpair⟩ := h
  rw [foldl_labelled hcomm (zipIdx_sorted xs 0) hperm hpair, List.zipIdx_map_fst]

end Lists

section Footprints

variable {κ β : Type} [DecidableEq κ]

structure Operation (κ β : Type) where
  key : κ
  reads : κ → Prop
  result : (κ → β) → β
  result_congr : ∀ {v w : κ → β}, (∀ c, reads c → v c = w c) → result v = result w

namespace Operation

def apply (v : κ → β) (o : Operation κ β) : κ → β := Function.update v o.key (o.result v)

def Conflict (a b : Operation κ β) : Prop := a.key = b.key ∨ a.reads b.key ∨ b.reads a.key

theorem result_update {o : Operation κ β} {c : κ} (h : ¬o.reads c) (v : κ → β) (x : β) :
    o.result (Function.update v c x) = o.result v := by
  apply o.result_congr
  intro d hd
  rw [Function.update_of_ne]
  rintro rfl
  exact h hd

theorem apply_comm {a b : Operation κ β} (h : ¬Conflict a b) (v : κ → β) :
    (apply (apply v a) b) = apply (apply v b) a := by
  obtain ⟨hkey, ha, hb⟩ : a.key ≠ b.key ∧ ¬a.reads b.key ∧ ¬b.reads a.key := by
    simpa [Conflict, not_or] using h
  rw [apply, apply, apply, apply, result_update hb, result_update ha, Function.update_comm hkey]

/-- Operations may be reordered as long as the conflicting ones keep their
order. -/
theorem foldl_reordering {xs ys : List (Operation κ β)} (h : Reordering Conflict xs ys) (v : κ → β) :
    ys.foldl apply v = xs.foldl apply v :=
  h.foldl_eq (fun _ _ v hab => apply_comm hab v) v

end Operation

end Footprints

end Library.Reorderings
