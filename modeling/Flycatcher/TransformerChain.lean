import Flycatcher.Transformers
import Mathlib.Data.List.Basic

namespace Flycatcher.TransformerChain

open Library.TextStreams CsvRow Transformers

def build (steps : List Step) (t : Transformer) : Transformer :=
  steps.foldl (fun t step => step.wrap t) t

def Step.isBase : Step → Bool
  | .base _ => true
  | .decorate _ _ => false

theorem foldlM_addEntry {entries : List TransformEntry} {steps : List Step}
    (h : entries.map TransformEntry.step? = steps.map some) (s : Building) :
    entries.foldlM addEntry s = some ⟨build steps s.lastPtr, s.sigints⟩ := by
  induction entries generalizing steps s with
  | nil =>
      obtain rfl : steps = [] := by simpa using h.symm
      rfl
  | cons entry entries ih =>
      cases steps with
      | nil => simp at h
      | cons step steps =>
          rw [List.map_cons, List.map_cons, List.cons.injEq] at h
          rw [List.foldlM_cons, addEntry_eq h.1, Option.bind_eq_bind, Option.bind_some, ih h.2]
          rfl

theorem transformers_eq {entries : List TransformEntry} {steps : List Step}
    (h : entries.map TransformEntry.step? = steps.map some) :
    ∃ chain, transformers entries = some (chain, 0) ∧
      chain.flatMap Transformer.steps = (build steps .nullptr).steps := by
  rw [transformers, foldlM_addEntry h]
  refine ⟨_, rfl, ?_⟩
  cases build steps .nullptr <;> simp [Transformer.isNull, Transformer.steps]

theorem steps_wrap (step : Step) (t : Transformer) :
    (step.wrap t).steps = (if Step.isBase step then [] else t.steps) ++ [step] := by
  cases step <;> rfl

theorem steps_build {steps : List Step} (h : ∀ step ∈ steps, Step.isBase step = false)
    (t : Transformer) : (build steps t).steps = t.steps ++ steps := by
  induction steps generalizing t with
  | nil => exact (List.append_nil _).symm
  | cons step steps ih =>
      have hs : Step.isBase step = false := h step (by simp)
      have ht := ih (fun s hs => h s (List.mem_cons_of_mem _ hs)) (step.wrap t)
      rw [steps_wrap, hs] at ht
      simpa [build] using ht

theorem length_steps_build (steps : List Step) (t : Transformer) :
    (build steps t).steps.length ≤ t.steps.length + steps.length := by
  induction steps generalizing t with
  | nil => exact Nat.le_refl _
  | cons step steps ih =>
      have h := ih (step.wrap t)
      rw [steps_wrap, List.length_append, List.length_singleton] at h
      simp only [List.length_cons]
      change (build steps (step.wrap t)).steps.length ≤ _
      split_ifs at h
      · rw [List.length_nil] at h; omega
      · omega

theorem length_steps_build_base (before after : List Step) (column : Str) (t : Transformer) :
    (build (before ++ .base column :: after) t).steps.length ≤ after.length + 1 := by
  have h : build (before ++ .base column :: after) t = build after (.base column) := by
    rw [build, List.foldl_append]
    rfl
  have hl := length_steps_build after (.base column)
  rw [h]
  simp only [Transformer.steps, List.length_singleton] at hl
  omega

theorem isBase_iff {entry : TransformEntry} {step : Step} (h : entry.step? = some step) :
    Step.isBase step = true ↔ entry.type = some voidType := by
  obtain ⟨column, type, lookup, fromColumn, value⟩ := entry
  cases column with
  | none => simp [TransformEntry.step?] at h
  | some column =>
  cases type with
  | none => simp [TransformEntry.step?] at h
  | some type =>
  simp only [TransformEntry.step?, Option.bind_eq_bind, Option.bind_some, pure] at h
  rw [Option.some.injEq]
  split_ifs at h with hvoid hunuuid hmap happend hprepend hset
  · obtain rfl := Option.some.inj h
    simp [Step.isBase, hvoid]
  · obtain rfl := Option.some.inj h
    simp [Step.isBase, hvoid]
  · obtain rfl := Option.some.inj h
    simp [Step.isBase, hvoid]
  · obtain ⟨c, -, hs⟩ := Option.bind_eq_some_iff.mp h
    obtain rfl := Option.some.inj hs
    simp [Step.isBase, hvoid]
  · obtain ⟨c, -, hs⟩ := Option.bind_eq_some_iff.mp h
    obtain rfl := Option.some.inj hs
    simp [Step.isBase, hvoid]
  · obtain ⟨v, -, hs⟩ := Option.bind_eq_some_iff.mp h
    obtain rfl := Option.some.inj hs
    simp [Step.isBase, hvoid]

theorem tail_void_iff {entries : List TransformEntry} {steps : List Step}
    (h : entries.map TransformEntry.step? = steps.map some) :
    (∀ entry ∈ entries.tail, entry.type ≠ some voidType) ↔
      ∀ step ∈ steps.tail, Step.isBase step = false := by
  have ht : entries.tail.map TransformEntry.step? = steps.tail.map some := by
    rw [List.map_tail, h, List.map_tail]
  constructor
  · intro hv step hs
    have hm : some step ∈ entries.tail.map TransformEntry.step? := by
      rw [ht]; exact List.mem_map_of_mem hs
    obtain ⟨entry, he, hstep⟩ := List.mem_map.mp hm
    rw [Bool.eq_false_iff]
    exact fun hb => hv entry he ((isBase_iff hstep).mp hb)
  · intro hb entry he hv
    have hm : entry.step? ∈ steps.tail.map some := by
      rw [← ht]; exact List.mem_map_of_mem he
    obtain ⟨step, hs, hstep⟩ := List.mem_map.mp hm
    have ht := (isBase_iff hstep.symm).mpr hv
    rw [hb step hs] at ht
    exact absurd ht (by decide)

/-- The chain that the configuration builds means the configured steps in
their order, none missing, exactly when no entry after the first has the type
whose class is not a decorator. -/
theorem transformers_mean_configuration {entries : List TransformEntry} {steps : List Step}
    (h : entries.map TransformEntry.step? = steps.map some) :
    (∃ chain sigints, transformers entries = some (chain, sigints) ∧
      chain.flatMap Transformer.steps = steps ∧
      ∀ row, operate chain row = runSteps steps row) ↔
    ∀ entry ∈ entries.tail, entry.type ≠ some voidType := by
  obtain ⟨chain, hchain, hsteps⟩ := transformers_eq h
  rw [tail_void_iff h]
  constructor
  · rintro ⟨chain', sigints, hchain', hsteps', -⟩ step hs
    rw [hchain] at hchain'
    obtain ⟨rfl, rfl⟩ := Prod.mk.inj (Option.some.inj hchain')
    rw [hsteps] at hsteps'
    cases step with
    | decorate own column => rfl
    | base column =>
        exfalso
        cases steps with
        | nil => simp at hs
        | cons first rest =>
            obtain ⟨before, after, hrest⟩ := List.append_of_mem hs
            rw [List.tail_cons] at hrest
            subst hrest
            have hl := length_steps_build_base (first :: before) after column .nullptr
            rw [List.cons_append, hsteps'] at hl
            simp only [List.length_cons, List.length_append] at hl
            omega
  · intro hb
    have hbuild : (build steps .nullptr).steps = steps := by
      cases steps with
      | nil => rfl
      | cons first rest =>
          have hr := steps_build hb (first.wrap .nullptr)
          rw [steps_wrap] at hr
          cases hf : Step.isBase first <;> simpa [build, hf, Transformer.steps] using hr
    refine ⟨chain, 0, hchain, hsteps.trans hbuild, fun row => ?_⟩
    rw [operate_eq_runSteps, hsteps, hbuild]

theorem transformers_mean_configuration_two :
    ∃ chain sigints,
      transformers
        [⟨some ['c'], some setType, [], none, some ['0']⟩,
          ⟨some ['c'], some mapType, [(['0'], ['p'])], none, none⟩] =
          some (chain, sigints) ∧
      chain.flatMap Transformer.steps =
        [.decorate (.set ['0']) ['c'], .decorate (.map (insertAll ∅ [(['0'], ['p'])])) ['c']] ∧
      ∀ row, operate chain row =
        runSteps
          [.decorate (.set ['0']) ['c'], .decorate (.map (insertAll ∅ [(['0'], ['p'])])) ['c']] row :=
  (transformers_mean_configuration rfl).mpr (by decide)

/-- The entry before a void entry is dropped: the column stays empty. -/
theorem transformers_drop_before_void :
    ¬ ∃ chain sigints,
      transformers [⟨some ['c'], some setType, [], none, some ['0']⟩,
          ⟨some ['d'], some voidType, [], none, none⟩] =
        some (chain, sigints) ∧
      ∀ row, operate chain row = runSteps [.decorate (.set ['0']) ['c'], .base ['d']] row := by
  rintro ⟨chain, sigints, hchain, hrow⟩
  have hbuilt : transformers
      [⟨some ['c'], some setType, [], none, some ['0']⟩, ⟨some ['d'], some voidType, [], none, none⟩] =
        some ([.base ['d']], 0) := rfl
  rw [hbuilt] at hchain
  obtain ⟨rfl, -⟩ := Prod.mk.inj (Option.some.inj hchain)
  have h := congrArg (fun row => row.value ['c']) (hrow .empty)
  exact absurd h (by decide)

end Flycatcher.TransformerChain
