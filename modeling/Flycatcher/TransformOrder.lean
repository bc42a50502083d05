import Flycatcher.Library.Reorderings
import Flycatcher.TransformerChain
import Mathlib.Data.List.Basic

namespace Flycatcher.TransformOrder

open Library.TextStreams Library.Reorderings CsvRow Transformers TransformerChain

def decoratorTypes : List Str := [setType, mapType, appendType, prependType, unuuidType]

def Writes (entry : TransformEntry) (c : Str) : Prop := entry.column = some c

def Reads (entry : TransformEntry) (c : Str) : Prop :=
  entry.column = some c ∨
    ((entry.type = some appendType ∨ entry.type = some prependType) ∧ entry.fromColumn = some c)

def Conflict (a b : TransformEntry) : Prop :=
  ∃ c, (Writes a c ∧ (Reads b c ∨ Writes b c)) ∨ (Writes b c ∧ (Reads a c ∨ Writes a c))

def operation (step : Step) : Operation Str Str :=
  ⟨step.column, (· ∈ step.reads), step.result, result_congr⟩

theorem value_effect (step : Step) (row : CSVRow) :
    (step.effect row).value = (operation step).apply row.value := by
  funext c
  change _ = Function.update row.value step.column (step.result row.value) c
  by_cases hc : c = step.column
  · rw [hc, value_effect_column, Function.update_self]
  · rw [value_effect_of_ne (Ne.symm hc), Function.update_of_ne hc]

theorem value_runSteps (steps : List Step) (row : CSVRow) :
    (runSteps steps row).value = (steps.map operation).foldl Operation.apply row.value := by
  induction steps generalizing row with
  | nil => rfl
  | cons step steps ih =>
      rw [List.map_cons, List.foldl_cons, ← value_effect, ← ih]
      rfl

def stepOf (entry : TransformEntry) : Step := entry.step?.getD (.base [])

theorem step?_of_addEntry {entry : TransformEntry} {type : Str} (htype : entry.type = some type)
    (hmem : type ∈ decoratorTypes) {s t : Building} (h : addEntry s entry = some t) :
    ∃ step, entry.step? = some step ∧ Step.isBase step = false := by
  obtain ⟨column, type', lookup, fromColumn, value⟩ := entry
  obtain rfl : type' = some type := htype
  cases column with
  | none => simp [addEntry] at h
  | some column =>
      have hsome : addEntry s ⟨some column, some type, lookup, fromColumn, value⟩ ≠ none := by
        rw [h]
        exact Option.some_ne_none t
      simp only [decoratorTypes, List.mem_cons, List.not_mem_nil, or_false] at hmem
      rcases hmem with rfl | rfl | rfl | rfl | rfl
      · cases value with
        | none => exact absurd rfl hsome
        | some value => exact ⟨_, rfl, rfl⟩
      · exact ⟨_, rfl, rfl⟩
      · cases fromColumn with
        | none => exact absurd rfl hsome
        | some fromColumn => exact ⟨_, rfl, rfl⟩
      · cases fromColumn with
        | none => exact absurd rfl hsome
        | some fromColumn => exact ⟨_, rfl, rfl⟩
      · exact ⟨_, rfl, rfl⟩

theorem steps_of_foldlM {entries : List TransformEntry}
    (htypes : ∀ entry ∈ entries, ∃ type ∈ decoratorTypes, entry.type = some type) {s t : Building}
    (h : entries.foldlM addEntry s = some t) :
    ∀ entry ∈ entries, entry.step? = some (stepOf entry) ∧ Step.isBase (stepOf entry) = false := by
  induction entries generalizing s with
  | nil => simp
  | cons entry entries ih =>
      obtain ⟨⟨type, hmem, htype⟩, htypes⟩ := List.forall_mem_cons.mp htypes
      rw [List.foldlM_cons] at h
      obtain ⟨u, hu, h⟩ := Option.bind_eq_some_iff.mp h
      obtain ⟨step, hstep, hbase⟩ := step?_of_addEntry htype hmem hu
      have hof : stepOf entry = step := by rw [stepOf, hstep, Option.getD_some]
      rw [List.forall_mem_cons]
      exact ⟨by rw [hof]; exact ⟨hstep, hbase⟩, ih htypes h⟩

/-- Entries that are well-formed in some order make a chain in any, which runs
them as operations on the values of the row. -/
theorem transformers_value {entries : List TransformEntry}
    (hsteps : ∀ entry ∈ entries,
      entry.step? = some (stepOf entry) ∧ Step.isBase (stepOf entry) = false) :
    ∃ chain, transformers entries = some (chain, 0) ∧ ∀ row, (operate chain row).value =
      (entries.map fun entry => operation (stepOf entry)).foldl Operation.apply row.value := by
  have hmap : entries.map TransformEntry.step? = (entries.map stepOf).map some := by
    rw [List.map_map]
    exact List.map_congr_left fun entry he => (hsteps entry he).1
  obtain ⟨chain, hbuild, hflat⟩ := transformers_eq hmap
  have hbase : ∀ step ∈ entries.map stepOf, Step.isBase step = false := by
    intro step hs
    obtain ⟨entry, he, rfl⟩ := List.mem_map.mp hs
    exact (hsteps entry he).2
  refine ⟨chain, hbuild, ?_⟩
  intro row
  rw [operate_eq_runSteps, hflat, steps_build hbase, value_runSteps, Transformer.steps,
    List.nil_append, List.map_map]
  rfl

theorem step?_footprint {entry : TransformEntry} {step : Step} (h : entry.step? = some step) :
    Writes entry step.column ∧ ∀ c ∈ step.reads, Reads entry c := by
  obtain ⟨column, type, lookup, fromColumn, value⟩ := entry
  cases column with
  | none => simp [TransformEntry.step?] at h
  | some column =>
  cases type with
  | none => simp [TransformEntry.step?] at h
  | some type =>
  have hown {c : Str} (hc : c ∈ [column]) :
      Reads ⟨some column, some type, lookup, fromColumn, value⟩ c :=
    .inl (congrArg some (List.mem_singleton.mp hc).symm)
  have hfrom {from' : Str} (ht : type = appendType ∨ type = prependType)
      (hf : fromColumn = some from') {c : Str} (hc : c ∈ [column, from']) :
      Reads ⟨some column, some type, lookup, fromColumn, value⟩ c := by
    rcases List.mem_pair.mp hc with rfl | rfl
    · exact .inl rfl
    · exact .inr ⟨ht.imp (congrArg some) (congrArg some), hf⟩
  simp only [TransformEntry.step?, Option.bind_eq_bind, Option.bind_some, pure] at h
  split_ifs at h with hvoid hunuuid hmap happend hprepend hset
  · cases h
    exact ⟨rfl, fun c => hown⟩
  · cases h
    exact ⟨rfl, fun c => hown⟩
  · cases h
    exact ⟨rfl, fun c => hown⟩
  · obtain ⟨from', hf, hs⟩ := Option.bind_eq_some_iff.mp h
    cases hs
    exact ⟨rfl, fun c => hfrom (.inl happend) hf⟩
  · obtain ⟨from', hf, hs⟩ := Option.bind_eq_some_iff.mp h
    cases hs
    exact ⟨rfl, fun c => hfrom (.inr hprepend) hf⟩
  · obtain ⟨v, hv, hs⟩ := Option.bind_eq_some_iff.mp h
    cases hs
    exact ⟨rfl, by simp [Step.reads]⟩

theorem conflict_of_operations {a b : TransformEntry} (ha : a.step? = some (stepOf a))
    (hb : b.step? = some (stepOf b))
    (h : Operation.Conflict (operation (stepOf a)) (operation (stepOf b))) : Conflict a b := by
  obtain ⟨hwa, hra⟩ := step?_footprint ha
  obtain ⟨hwb, hrb⟩ := step?_footprint hb
  rcases h with hkey | hreads | hreads
  · refine ⟨(stepOf a).column, .inl ⟨hwa, .inr ?_⟩⟩
    obtain hkey : (stepOf a).column = (stepOf b).column := hkey
    rw [hkey]
    exact hwb
  · exact ⟨_, .inr ⟨hwb, .inl (hra _ hreads)⟩⟩
  · exact ⟨_, .inl ⟨hwa, .inl (hrb _ hreads)⟩⟩

/-- Transforms in another order, with those that conflict in the same order as
before, make a chain that leaves the same values in every row. -/
theorem transforms_reorder {entries entries' : List TransformEntry} {chain : List Transformer}
    {sigints : Nat} (htypes : ∀ entry ∈ entries, ∃ type ∈ decoratorTypes, entry.type = some type)
    (horder : Reordering Conflict entries entries')
    (hbuild : transformers entries = some (chain, sigints)) :
    ∃ chain', transformers entries' = some (chain', sigints) ∧
      ∀ row c, (operate chain' row).value c = (operate chain row).value c := by
  obtain ⟨s, hfold, hs⟩ := Option.bind_eq_some_iff.mp hbuild
  have hsteps := steps_of_foldlM htypes hfold
  have hsteps' : ∀ entry ∈ entries',
      entry.step? = some (stepOf entry) ∧ Step.isBase (stepOf entry) = false :=
    fun entry he => hsteps entry (horder.perm.subset he)
  obtain ⟨chain₁, hbuild₁, hvalue⟩ := transformers_value hsteps
  obtain ⟨chain', hbuild', hvalue'⟩ := transformers_value hsteps'
  rw [hbuild] at hbuild₁
  cases hbuild₁
  have hops : Reordering Operation.Conflict (entries.map fun entry => operation (stepOf entry))
      (entries'.map fun entry => operation (stepOf entry)) :=
    horder.map fun a ha b hb => conflict_of_operations (hsteps a ha).1 (hsteps b hb).1
  refine ⟨chain', hbuild', ?_⟩
  intro row c
  rw [hvalue', hvalue, Operation.foldl_reordering hops]

def setX : TransformEntry := ⟨some ['x'], some setType, [], none, some ['1']⟩

def appendYX : TransformEntry := ⟨some ['y'], some appendType, [], some ['x'], none⟩

def setZ : TransformEntry := ⟨some ['z'], some setType, [], none, some ['2']⟩

theorem transforms_reorder_front : ∃ chain chain',
    transformers [setX, appendYX, setZ] = some (chain, 0) ∧
      transformers [setZ, setX, appendYX] = some (chain', 0) ∧
      ∀ row c, (operate chain' row).value c = (operate chain row).value c := by
  have htypes : ∀ entry ∈ [setX, appendYX, setZ],
      ∃ type ∈ decoratorTypes, entry.type = some type := by
    simp only [List.forall_mem_cons]
    exact ⟨⟨setType, by decide, rfl⟩, ⟨appendType, by decide, rfl⟩, ⟨setType, by decide, rfl⟩,
      by simp⟩
  have horder : Reordering Conflict [setX, appendYX, setZ] [setZ, setX, appendYX] := by
    refine ⟨[(setZ, 2), (setX, 0), (appendYX, 1)], ?_, rfl, ?_⟩
    · exact @List.perm_append_comm _ [(setZ, 2)] [(setX, 0), (appendYX, 1)]
    · simp [forall_and, Conflict, Writes, Reads, setX, appendYX, setZ, setType, appendType,
        prependType]
  have hbuild : ∃ chain, transformers [setX, appendYX, setZ] = some (chain, 0) := ⟨_, rfl⟩
  obtain ⟨chain, hbuild⟩ := hbuild
  obtain ⟨chain', hbuild', hvalue⟩ := transforms_reorder htypes horder hbuild
  exact ⟨chain, chain', hbuild, hbuild', hvalue⟩

end Flycatcher.TransformOrder
