import Mathlib.Data.List.Basic

namespace Library.Statements

inductive Completion (ε : Type)
  | normally
  | byBreak
  | byThrow (e : ε)
  /-- Together with the whole program. -/
  | ended
deriving DecidableEq

variable {σ ε α : Type}

/-- A statement of a language with breaks and exceptions, over the values of
the variables. -/
abbrev Statement (σ ε : Type) := σ → Completion ε × σ

def skip : Statement σ ε := fun s => (.normally, s)

def breakLoop : Statement σ ε := fun s => (.byBreak, s)

def throwing (e : ε) : Statement σ ε := fun s => (.byThrow e, s)

def endProgram : Statement σ ε := fun s => (.ended, s)

def assign (f : σ → σ) : Statement σ ε := fun s => (.normally, f s)

def select (f : σ → Statement σ ε) : Statement σ ε := fun s => f s s

def seq (a b : Statement σ ε) : Statement σ ε := fun s =>
  match a s with
  | (.normally, t) => b t
  | left => left

def tryCatch (body : Statement σ ε) (handler : ε → Statement σ ε) : Statement σ ε := fun s =>
  match body s with
  | (.byThrow e, t) => handler e t
  | left => left

def turn (body rest : Statement σ ε) : Statement σ ε := fun s =>
  match body s with
  | (.normally, t) => rest t
  | (.byBreak, t) => (.normally, t)
  | (.byThrow e, t) => (.byThrow e, t)
  | (.ended, t) => (.ended, t)

/-- A loop over what a range gives. The last statement is the attempt to get one
more, which finds the end or throws. -/
def forEach (body : α → Statement σ ε) (last : Statement σ ε) : List α → Statement σ ε
  | [] => last
  | x :: xs => turn (body x) (forEach body last xs)

structure Triple (P : σ → Prop) (a : Statement σ ε) (Q : Completion ε → σ → Prop) : Prop where
  left : ∀ s, P s → Q (a s).1 (a s).2

def Normally (R : σ → Prop) (completion : Completion ε) (t : σ) : Prop :=
  completion = .normally ∧ R t

def Continues (R : σ → Prop) (Q : Completion ε → σ → Prop) : Completion ε → σ → Prop
  | .normally, t => R t
  | left, t => Q left t

def Catches (R : ε → σ → Prop) (Q : Completion ε → σ → Prop) : Completion ε → σ → Prop
  | .byThrow e, t => R e t
  | left, t => Q left t

def Loops (I : σ → Prop) (Q : Completion ε → σ → Prop) : Completion ε → σ → Prop
  | .normally, t => I t
  | .byBreak, t => Q .normally t
  | .byThrow e, t => Q (.byThrow e) t
  | .ended, t => Q .ended t

variable {P R : σ → Prop} {Q Q' : Completion ε → σ → Prop} {a b : Statement σ ε}

theorem Triple.weaken (h : Triple P a Q) (hQ : ∀ completion t, Q completion t → Q' completion t) :
    Triple P a Q' := by
  constructor
  intro s hs
  exact hQ _ _ (h.left s hs)

theorem triple_skip (h : ∀ s, P s → Q .normally s) : Triple P skip Q := ⟨h⟩

theorem triple_throwing {e : ε} (h : ∀ s, P s → Q (.byThrow e) s) : Triple P (throwing e) Q := ⟨h⟩

theorem triple_breakLoop (h : ∀ s, P s → Q .byBreak s) : Triple P breakLoop Q := ⟨h⟩

theorem triple_assign {f : σ → σ} (h : ∀ s, P s → Q .normally (f s)) : Triple P (assign f) Q := ⟨h⟩

theorem triple_select {f : σ → Statement σ ε} (h : ∀ s, P s → Triple (· = s) (f s) Q) :
    Triple P (select f) Q := by
  constructor
  intro s hs
  exact (h s hs).left s rfl

theorem Triple.seq (ha : Triple P a (Continues R Q)) (hb : Triple R b Q) : Triple P (seq a b) Q := by
  constructor
  intro s hs
  have h := ha.left s hs
  rw [Statements.seq]
  generalize a s = outcome at h
  obtain ⟨completion, t⟩ := outcome
  cases completion with
  | normally => exact hb.left t h
  | byBreak | byThrow e | ended => exact h

theorem Triple.tryCatch {R : ε → σ → Prop} {handler : ε → Statement σ ε}
    (ha : Triple P a (Catches R Q)) (hhandler : ∀ e, Triple (R e) (handler e) Q) :
    Triple P (tryCatch a handler) Q := by
  constructor
  intro s hs
  have h := ha.left s hs
  rw [Statements.tryCatch]
  generalize a s = outcome at h
  obtain ⟨completion, t⟩ := outcome
  cases completion with
  | normally | byBreak | ended => exact h
  | byThrow e => exact (hhandler e).left t h

theorem Triple.turn (ha : Triple P a (Loops R Q)) (hb : Triple R b Q) :
    Triple P (turn a b) Q := by
  constructor
  intro s hs
  have h := ha.left s hs
  rw [Statements.turn]
  generalize a s = outcome at h
  obtain ⟨completion, t⟩ := outcome
  cases completion with
  | normally => exact hb.left t h
  | byBreak | byThrow e | ended => exact h

theorem forEach_congr {body body' : α → Statement σ ε} {last : Statement σ ε} {xs : List α}
    (h : ∀ x ∈ xs, body x = body' x) : forEach body last xs = forEach body' last xs := by
  induction xs with
  | nil => rfl
  | cons x xs ih =>
      obtain ⟨hx, hxs⟩ := List.forall_mem_cons.mp h
      rw [forEach, forEach, hx, ih hxs]

/-- The rule for loops. The invariant knows the elements that the body has been
through. -/
theorem triple_forEach {I : List α → σ → Prop} {body : α → Statement σ ε} {last : Statement σ ε}
    (before xs : List α)
    (hbody : ∀ seen x rest, before ++ xs = seen ++ x :: rest →
      Triple (I seen) (body x) (Loops (I (seen ++ [x])) Q))
    (hlast : Triple (I (before ++ xs)) last Q) : Triple (I before) (forEach body last xs) Q := by
  induction xs generalizing before with
  | nil =>
      rw [List.append_nil] at hlast
      exact hlast
  | cons x xs ih =>
      rw [List.append_cons] at hlast
      apply (hbody before x xs rfl).turn
      apply ih (before ++ [x]) _ hlast
      intro seen y rest he
      exact hbody seen y rest (by rw [List.append_cons, he])

end Library.Statements
