import Mathlib.Data.List.Basic

namespace Library.Reports

variable {ω ε α β σ : Type}

structure Report (ω ε α : Type) where
  reports : List ω
  result : Except ε α

def tell (x : ω) : Report ω ε Unit := ⟨[x], .ok ()⟩

def fail (e : ε) : Report ω ε α := ⟨[], .error e⟩

def Report.bind (a : Report ω ε α) (f : α → Report ω ε β) : Report ω ε β :=
  match a.result with
  | .ok x => ⟨a.reports ++ (f x).reports, (f x).result⟩
  | .error e => ⟨a.reports, .error e⟩

instance : Monad (Report ω ε) where
  pure x := ⟨[], .ok x⟩
  bind := Report.bind

theorem bind_ok {a : Report ω ε α} {x : α} (h : a.result = .ok x) (f : α → Report ω ε β) :
    a >>= f = ⟨a.reports ++ (f x).reports, (f x).result⟩ := by
  change Report.bind a f = _
  rw [Report.bind, h]

theorem bind_error {a : Report ω ε α} {e : ε} (h : a.result = .error e) (f : α → Report ω ε β) :
    a >>= f = ⟨a.reports, .error e⟩ := by
  change Report.bind a f = _
  rw [Report.bind, h]

theorem result_bind_ok {a : Report ω ε α} {f : α → Report ω ε β} {y : β} :
    (a >>= f).result = .ok y ↔ ∃ x, a.result = .ok x ∧ (f x).result = .ok y := by
  cases ha : a.result with
  | ok x =>
      rw [bind_ok ha]
      constructor
      · intro h
        exact ⟨x, rfl, h⟩
      · rintro ⟨x', hx, h⟩
        cases hx
        exact h
  | error e =>
      rw [bind_error ha]
      constructor
      · intro h
        cases h
      · rintro ⟨x, hx, -⟩
        cases hx

/-- A property of reports and results that a value with no reports has, and that
a computation hands on to the one behind it. -/
structure Composes (P : List ω → Except ε Unit → Prop) : Prop where
  value : P [] (.ok ())
  after : ∀ xs ys r, P xs (.ok ()) → P ys r → P (xs ++ ys) r

def outcome (r : Except ε α) : Except ε Unit := r.map fun _ => ()

def Report.Has (P : List ω → Except ε Unit → Prop) (a : Report ω ε α) : Prop :=
  P a.reports (outcome a.result)

theorem has_pure {P : List ω → Except ε Unit → Prop} (hP : Composes P) (x : α) :
    (pure x : Report ω ε α).Has P := hP.value

theorem has_bind {P : List ω → Except ε Unit → Prop} (hP : Composes P) {a : Report ω ε α}
    {f : α → Report ω ε β} (ha : a.Has P) (hf : ∀ x, a.result = .ok x → (f x).Has P) :
    (a >>= f).Has P := by
  rw [Report.Has] at ha
  cases hr : a.result with
  | ok x =>
      rw [hr] at ha
      rw [bind_ok hr]
      exact hP.after _ _ _ ha (hf x hr)
  | error e =>
      rw [hr] at ha
      rw [bind_error hr]
      exact ha

theorem has_foldlM {P : List ω → Except ε Unit → Prop} (hP : Composes P)
    {body : σ → α → Report ω ε σ} (hbody : ∀ s x, (body s x).Has P) (xs : List α) (s : σ) :
    (xs.foldlM body s).Has P := by
  induction xs generalizing s with
  | nil => exact has_pure hP s
  | cons x xs ih =>
      rw [List.foldlM_cons]
      exact has_bind hP (hbody s x) fun t _ => ih t

theorem Report.Has.mono {P Q : List ω → Except ε Unit → Prop} {a : Report ω ε α} (h : a.Has P)
    (hPQ : ∀ xs r, P xs r → Q xs r) : a.Has Q := hPQ _ _ h

/-- What a loop that gets to its end has reported of the kind that is kept. -/
theorem loop_reports {body : σ → α → Report ω ε σ} {kept : ω → Bool} {h : α → List ω}
    (hbody : ∀ s x t, (body s x).result = .ok t → (body s x).reports.filter kept = h x)
    {xs : List α} {s t : σ} (hloop : (xs.foldlM body s).result = .ok t) :
    (xs.foldlM body s).reports.filter kept = xs.flatMap h := by
  induction xs generalizing s with
  | nil => rfl
  | cons x xs ih =>
      rw [List.foldlM_cons] at hloop ⊢
      obtain ⟨u, hu, hloop⟩ := result_bind_ok.mp hloop
      rw [bind_ok hu, List.filter_append, hbody s x u hu, ih hloop, List.flatMap_cons]

/-- A loop whose turns fail, or change the state in a way of their own. -/
theorem foldlM_ok_iff {body : σ → α → Report ω ε σ} {p : α → Prop} {g : σ → α → σ}
    (hbody : ∀ s x t, (body s x).result = .ok t ↔ p x ∧ t = g s x) {xs : List α} {s t : σ} :
    (xs.foldlM body s).result = .ok t ↔ (∀ x ∈ xs, p x) ∧ t = xs.foldl g s := by
  induction xs generalizing s with
  | nil =>
      constructor
      · intro h
        cases h
        exact ⟨fun _ h => (by cases h), rfl⟩
      · rintro ⟨-, rfl⟩
        rfl
  | cons x xs ih =>
      rw [List.foldlM_cons, result_bind_ok, List.forall_mem_cons, List.foldl_cons]
      constructor
      · rintro ⟨u, hu, h⟩
        obtain ⟨hx, rfl⟩ := (hbody s x u).mp hu
        obtain ⟨hxs, ht⟩ := ih.mp h
        exact ⟨⟨hx, hxs⟩, ht⟩
      · rintro ⟨⟨hx, hxs⟩, ht⟩
        exact ⟨g s x, (hbody s x _).mpr ⟨hx, rfl⟩, ih.mpr ⟨hxs, ht⟩⟩

end Library.Reports
