import Mathlib.Data.Option.Basic
import Mathlib.Data.List.Basic

namespace Library.Runs

variable {σ ℓ : Type}

/-- A label names everything the outside decides, so a step is a function of
the state and the label, and a schedule is a list of labels. -/
abbrev Step (σ ℓ : Type) := σ → ℓ → Option σ

def run (step : Step σ ℓ) : σ → List ℓ → Option σ
  | s, [] => some s
  | s, a :: tr => (step s a).bind (fun t => run step t tr)

def Along (step : Step σ ℓ) (P : σ → ℓ → Prop) : σ → List ℓ → Prop
  | _, [] => True
  | s, a :: tr => P s a ∧ ∀ t, step s a = some t → Along step P t tr

theorem along_cons_iff {step : Step σ ℓ} {P : σ → ℓ → Prop} {s t : σ} {a : ℓ} {tr : List ℓ}
    (h : step s a = some t) : Along step P s (a :: tr) ↔ P s a ∧ Along step P t tr := by
  simp only [Along, h, Option.some.injEq, forall_eq']

instance decidableAlong (step : Step σ ℓ) (P : σ → ℓ → Prop) [∀ s a, Decidable (P s a)] :
    ∀ s tr, Decidable (Along step P s tr)
  | _, [] => isTrue trivial
  | s, a :: tr =>
      match h : step s a with
      | none => decidable_of_iff (P s a) (by simp [Along, h])
      | some t =>
          have := decidableAlong step P t tr
          decidable_of_iff _ (along_cons_iff h).symm

theorem along_of_forall {step : Step σ ℓ} {P : ℓ → Prop} {tr : List ℓ} (h : ∀ a ∈ tr, P a) (s : σ) :
    Along step (fun _ a => P a) s tr := by
  induction tr generalizing s with
  | nil => trivial
  | cons a tr ih =>
      exact ⟨h a List.mem_cons_self, fun t _ => ih (fun b hb => h b (List.mem_cons_of_mem a hb)) t⟩

theorem forall_of_along {step : Step σ ℓ} {P : σ → ℓ → Prop} {Q : ℓ → Prop}
    (hPQ : ∀ s a, P s a → Q a) {s t : σ} {tr : List ℓ} (h : Along step P s tr)
    (hr : run step s tr = some t) : ∀ a ∈ tr, Q a := by
  induction tr generalizing s with
  | nil =>
      intro a ha
      cases ha
  | cons a tr ih =>
      cases hstep : step s a with
      | none =>
          rw [run, hstep] at hr
          cases hr
      | some u =>
          rw [run, hstep] at hr
          exact List.forall_mem_cons.mpr ⟨hPQ s a h.1, ih (h.2 u hstep) hr⟩

theorem along_and {step : Step σ ℓ} {P Q : σ → ℓ → Prop} {s : σ} {tr : List ℓ}
    (hP : Along step P s tr) (hQ : Along step Q s tr) :
    Along step (fun s a => P s a ∧ Q s a) s tr := by
  induction tr generalizing s with
  | nil => trivial
  | cons a tr ih => exact ⟨⟨hP.1, hQ.1⟩, fun t ht => ih (hP.2 t ht) (hQ.2 t ht)⟩

@[simp] theorem run_nil (step : Step σ ℓ) (s : σ) : run step s [] = some s := rfl

theorem run_cons (step : Step σ ℓ) (s : σ) (a : ℓ) (tr : List ℓ) :
    run step s (a :: tr) = (step s a).bind (fun t => run step t tr) := rfl

theorem run_cons_eq_some {step : Step σ ℓ} {s u : σ} {a : ℓ} {tr : List ℓ} :
    run step s (a :: tr) = some u ↔ ∃ t, step s a = some t ∧ run step t tr = some u := by
  rw [run_cons, Option.bind_eq_some_iff]

theorem run_append (step : Step σ ℓ) (s : σ) (xs ys : List ℓ) :
    run step s (xs ++ ys) = (run step s xs).bind (fun t => run step t ys) := by
  induction xs generalizing s with
  | nil => rfl
  | cons a xs ih =>
      rw [List.cons_append, run_cons, run_cons, Option.bind_assoc]
      congr 1
      funext t
      exact ih t

theorem run_invariant {step : Step σ ℓ} {I : σ → Prop}
    (hstep : ∀ s a t, step s a = some t → I s → I t)
    {s t : σ} {tr : List ℓ} (hr : run step s tr = some t) (hs : I s) : I t := by
  induction tr generalizing s with
  | nil =>
      have he : s = t := Option.some.inj hr
      exact he ▸ hs
  | cons a tr ih =>
      obtain ⟨u, hu, hr⟩ := run_cons_eq_some.mp hr
      exact ih hr (hstep s a u hu hs)

/-- Where a measure never grows and the steps that count make it smaller, no run
has more of them than the measure at its start. -/
theorem run_measure {step : Step σ ℓ} {p : ℓ → Bool} {μ : σ → Nat} {I : σ → Prop}
    (hstep : ∀ s a t, step s a = some t → I s → I t ∧ μ t + (p a).toNat ≤ μ s)
    {s t : σ} {tr : List ℓ} (hr : run step s tr = some t) (hs : I s) :
    tr.countP p + μ t ≤ μ s := by
  induction tr generalizing s with
  | nil =>
      have he : s = t := Option.some.inj hr
      subst he
      exact Nat.le_of_eq (Nat.zero_add (μ s))
  | cons a tr ih =>
      obtain ⟨u, hu, hr⟩ := run_cons_eq_some.mp hr
      obtain ⟨hu', hle⟩ := hstep s a u hu hs
      have hrest := ih hr hu'
      rw [List.countP_cons]
      cases hp : p a <;> simp [hp] at hle ⊢ <;> omega

/-- The same rule where only the steps that meet P keep the assertion. -/
theorem run_invariant_along {step : Step σ ℓ} {P : σ → ℓ → Prop} {I : σ → Prop}
    (hstep : ∀ s a t, step s a = some t → P s a → I s → I t)
    {s t : σ} {tr : List ℓ} (hP : Along step P s tr) (hr : run step s tr = some t) (hs : I s) :
    I t := by
  induction tr generalizing s with
  | nil =>
      have he : s = t := Option.some.inj hr
      exact he ▸ hs
  | cons a tr ih =>
      obtain ⟨u, hu, hr⟩ := run_cons_eq_some.mp hr
      exact ih (hP.2 u hu) hr (hstep s a u hu hP.1 hs)

/-- Where an assertion holds, the labels alone decide whether the steps meet P. -/
theorem along_of_invariant {step : Step σ ℓ} {P : σ → ℓ → Prop} {I : σ → Prop} {Q : ℓ → Prop}
    (hstep : ∀ s a t, step s a = some t → Q a → I s → I t) (hP : ∀ s a, I s → Q a → P s a)
    {s : σ} {tr : List ℓ} (hQ : ∀ a ∈ tr, Q a) (hs : I s) : Along step P s tr := by
  induction tr generalizing s with
  | nil => trivial
  | cons a tr ih =>
      have ha := hQ a List.mem_cons_self
      refine ⟨hP s a hs ha, ?_⟩
      intro t ht
      exact ih (fun b hb => hQ b (List.mem_cons_of_mem a hb)) (hstep s a t ht ha hs)

theorem along_append {step : Step σ ℓ} {P : σ → ℓ → Prop} {s t : σ} {xs ys : List ℓ}
    (hr : run step s xs = some t) :
    Along step P s (xs ++ ys) ↔ Along step P s xs ∧ Along step P t ys := by
  induction xs generalizing s with
  | nil =>
      have he : s = t := Option.some.inj hr
      subst he
      simp [Along]
  | cons a xs ih =>
      obtain ⟨u, hu, hr⟩ := run_cons_eq_some.mp hr
      have h := ih hr
      simp only [List.cons_append, Along, hu, Option.some.injEq, forall_eq', h, and_assoc]

/-- A step that fails P somewhere in the run splits it there. -/
theorem exists_of_not_along {step : Step σ ℓ} {P : σ → ℓ → Prop} {s t : σ} {tr : List ℓ}
    (hr : run step s tr = some t) (hn : ¬ Along step P s tr) :
    ∃ u v a xs ys, tr = xs ++ a :: ys ∧ run step s xs = some u ∧ ¬ P u a ∧
      step u a = some v ∧ run step v ys = some t := by
  induction tr generalizing s with
  | nil => exact absurd trivial hn
  | cons a tr ih =>
      obtain ⟨u, hu, hr⟩ := run_cons_eq_some.mp hr
      by_cases hP : P s a
      · have hn' : ¬ Along step P u tr := by
          intro h
          refine hn ⟨hP, ?_⟩
          intro w hw
          rw [hu] at hw
          cases hw
          exact h
        obtain ⟨x, y, b, xs, ys, rfl, hxs, hb, hy, hys⟩ := ih hr hn'
        exact ⟨x, y, b, a :: xs, ys, rfl, run_cons_eq_some.mpr ⟨u, hu, hxs⟩, hb, hy, hys⟩
      · exact ⟨s, u, a, [], tr, rfl, rfl, hP, hu, hr⟩

/-- An element of a list is the first one, with nothing before it, or one of
the others. -/
theorem exists_split_cons {α : Type} {x : α} {xs : List α} {P : List α → α → Prop} :
    (∃ before y after, x :: xs = before ++ y :: after ∧ P before y) ↔
      P [] x ∨ ∃ before y after, xs = before ++ y :: after ∧ P (x :: before) y := by
  constructor
  · rintro ⟨before, y, after, he, hp⟩
    cases before with
    | nil =>
        cases he
        exact .inl hp
    | cons b before =>
        cases he
        exact .inr ⟨before, y, after, rfl, hp⟩
  · rintro (hp | ⟨before, y, after, rfl, hp⟩)
    · exact ⟨[], x, xs, rfl, hp⟩
    · exact ⟨x :: before, y, after, rfl, hp⟩

theorem forall_split_cons {α : Type} {x : α} {xs : List α} {P : List α → α → Prop} :
    (∀ before y after, x :: xs = before ++ y :: after → P before y) ↔
      P [] x ∧ ∀ before y after, xs = before ++ y :: after → P (x :: before) y := by
  have h := not_congr (@exists_split_cons α x xs fun before y => ¬P before y)
  simpa only [not_exists, not_and, not_or, not_not] using h

/-- An assertion holds at every point of a run exactly when every step meets P,
where P is what a step that starts with the assertion needs to keep it. -/
theorem prefixes_iff_along {step : Step σ ℓ} {P : σ → ℓ → Prop} {Q I : σ → Prop} {R : ℓ → Prop}
    (hstep : ∀ s a t, step s a = some t → R a → I s → Q s → (Q t ↔ P s a) ∧ I t)
    {s t : σ} {tr : List ℓ} (hr : run step s tr = some t) (hR : ∀ a ∈ tr, R a) (hI : I s) (hQ : Q s) :
    (∀ xs ys u, tr = xs ++ ys → run step s xs = some u → Q u) ↔ Along step P s tr := by
  induction tr generalizing s with
  | nil =>
      refine iff_of_true ?_ trivial
      intro xs ys u he hu
      obtain ⟨rfl, rfl⟩ := List.append_eq_nil_iff.mp he.symm
      cases hu
      exact hQ
  | cons a tr ih =>
      obtain ⟨v, hv, hr⟩ := run_cons_eq_some.mp hr
      obtain ⟨hiff, hI'⟩ := hstep s a v hv (hR a List.mem_cons_self) hI hQ
      have ih := ih hr (fun b hb => hR b (List.mem_cons_of_mem a hb)) hI'
      rw [along_cons_iff hv, ← hiff]
      constructor
      · intro h
        have hQv : Q v := h [a] tr v rfl (run_cons_eq_some.mpr ⟨v, hv, rfl⟩)
        refine ⟨hQv, (ih hQv).mp ?_⟩
        intro xs ys u he hu
        exact h (a :: xs) ys u (congrArg (a :: ·) he) (run_cons_eq_some.mpr ⟨v, hv, hu⟩)
      · rintro ⟨hQv, hP⟩ xs ys u he hu
        cases xs with
        | nil =>
            cases hu
            exact hQ
        | cons b xs =>
            obtain ⟨rfl, rfl⟩ := List.cons.inj he
            obtain ⟨w, hw, hu⟩ := run_cons_eq_some.mp hu
            cases hv.symm.trans hw
            exact (ih hQv).mpr hP xs ys u rfl hu

def Reaches (step : Step σ ℓ) (P : σ → ℓ → Prop) (s t : σ) : Prop :=
  ∃ tr, Along step P s tr ∧ run step s tr = some t

theorem Reaches.refl (step : Step σ ℓ) (P : σ → ℓ → Prop) (s : σ) : Reaches step P s s :=
  ⟨[], trivial, rfl⟩

theorem Reaches.one {step : Step σ ℓ} {P : σ → ℓ → Prop} {s t : σ} {a : ℓ}
    (h : step s a = some t) (hP : P s a) : Reaches step P s t :=
  ⟨[a], (along_cons_iff h).mpr ⟨hP, trivial⟩, run_cons_eq_some.mpr ⟨t, h, rfl⟩⟩

theorem Reaches.trans {step : Step σ ℓ} {P : σ → ℓ → Prop} {s t u : σ}
    (hst : Reaches step P s t) (htu : Reaches step P t u) : Reaches step P s u := by
  obtain ⟨xs, hxs, hrx⟩ := hst
  obtain ⟨ys, hys, hry⟩ := htu
  refine ⟨xs ++ ys, (along_append hrx).mpr ⟨hxs, hys⟩, ?_⟩
  rw [run_append, hrx]
  exact hry

theorem Reaches.invariant {step : Step σ ℓ} {P : σ → ℓ → Prop} {I : σ → Prop} {s t : σ}
    (hst : Reaches step P s t) (hstep : ∀ s a t, step s a = some t → P s a → I s → I t)
    (hs : I s) : I t := by
  obtain ⟨tr, htr, hr⟩ := hst
  exact run_invariant_along hstep htr hr hs

end Library.Runs
