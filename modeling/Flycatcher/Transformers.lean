import Flycatcher.CsvRow
import Mathlib.Data.List.Basic

namespace Flycatcher.Transformers

open Library.TextStreams CsvRow

/-- The guard that the transformers share: row[column] is looked up, and the
rest happens only when it is not empty. -/
def onNonEmpty (column : Str) (f : CSVRow → CSVRow) (row : CSVRow) : CSVRow :=
  let row := row.touch column
  if row.value column = [] then row else f row

def baseOperation (column : Str) : CSVRow → CSVRow :=
  onNonEmpty column fun row => row.assign column (['B', 'A', 'S', 'E', ' '] ++ row.value column)

def unuuidOperation (column : Str) : CSVRow → CSVRow :=
  onNonEmpty column fun row =>
    row.assign column ((removeChar '-' (row.value column)).map Char.toLower)

def mapOperation (lookup : StringMap) (column : Str) : CSVRow → CSVRow :=
  onNonEmpty column fun row =>
    match lookup[row.value column]? with
    | some v => row.assign column v
    | none => row

def appendOperation (fromColumn column : Str) : CSVRow → CSVRow :=
  onNonEmpty column <| onNonEmpty fromColumn fun row =>
    row.assign column (row.value column ++ row.value fromColumn)

def prependOperation (fromColumn column : Str) : CSVRow → CSVRow :=
  onNonEmpty column <| onNonEmpty fromColumn fun row =>
    row.assign column (row.value fromColumn ++ row.value column)

def setOperation (value column : Str) (row : CSVRow) : CSVRow := row.assign column value

inductive Decoration
  | unuuid
  | map (lookup : StringMap)
  | append (fromColumn : Str)
  | prepend (fromColumn : Str)
  | set (value : Str)

def Decoration.operation : Decoration → Str → CSVRow → CSVRow
  | .unuuid => unuuidOperation
  | .map lookup => mapOperation lookup
  | .append fromColumn => appendOperation fromColumn
  | .prepend fromColumn => prependOperation fromColumn
  | .set value => setOperation value

inductive Transformer
  | nullptr
  | base (column : Str)
  | decorator (own : Decoration) (column : Str) (wrapped : Transformer)

def Transformer.isNull : Transformer → Bool
  | .nullptr => true
  | _ => false

def Transformer.operation : Transformer → CSVRow → CSVRow
  | .nullptr, row => row
  | .base column, row => baseOperation column row
  | .decorator own column wrapped, row => own.operation column (wrapped.operation row)

def operate (transformers : List Transformer) (row : CSVRow) : CSVRow :=
  transformers.foldl (fun row t => t.operation row) row

/-- The class that is not a decorator has no use for the wrapped transformer,
which is destroyed with the argument that owns it. -/
def createBase (column : Str) (_wrapped : Transformer) : Transformer := .base column

def createDecorator (own : Decoration) (column : Str) (wrapped : Transformer) : Transformer :=
  .decorator own column wrapped

def voidType : Str := ['v', 'o', 'i', 'd']

def unuuidType : Str := ['u', 'n', 'u', 'u', 'i', 'd']

def mapType : Str := ['m', 'a', 'p']

def appendType : Str := ['a', 'p', 'p', 'e', 'n', 'd']

def prependType : Str := ['p', 'r', 'e', 'p', 'e', 'n', 'd']

def setType : Str := ['s', 'e', 't']

def getInstance (type column : Str) (wrapped : Transformer) : Transformer :=
  if type = voidType then createBase column wrapped
  else if type = unuuidType then createDecorator .unuuid column wrapped
  else if type = mapType then createDecorator (.map ∅) column wrapped
  else if type = appendType then createDecorator (.append []) column wrapped
  else if type = prependType then createDecorator (.prepend []) column wrapped
  else if type = setType then createDecorator (.set []) column wrapped
  else .nullptr

/-- One entry under transforms. A missing scalar is none, and reading it as a
string throws. -/
structure TransformEntry where
  column : Option Str
  type : Option Str
  lookup : List (Str × Str)
  fromColumn : Option Str
  value : Option Str

def Transformer.withOwn (own : Decoration) : Transformer → Transformer
  | .decorator _ column wrapped => .decorator own column wrapped
  | t => t

def insertAll (lookup : StringMap) (pairs : List (Str × Str)) : StringMap :=
  pairs.foldl (fun m p => m.insertIfNew p.1 p.2) lookup

def configure (entry : TransformEntry) (type : Str) (ptr : Transformer) : Option Transformer :=
  if type = mapType then some (ptr.withOwn (.map (insertAll ∅ entry.lookup)))
  else if type = appendType then entry.fromColumn.map fun c => ptr.withOwn (.append c)
  else if type = prependType then entry.fromColumn.map fun c => ptr.withOwn (.prepend c)
  else if type = setType then entry.value.map fun v => ptr.withOwn (.set v)
  else some ptr

structure Building where
  lastPtr : Transformer
  sigints : Nat

def addEntry (s : Building) (entry : TransformEntry) : Option Building := do
  let column ← entry.column
  let type ← entry.type
  let ptr := getInstance type column s.lastPtr
  -- last_ptr was moved into the call, so on an unknown type it is null afterwards
  if ptr.isNull then return ⟨.nullptr, s.sigints + 1⟩
  else
    let ptr ← configure entry type ptr
    return ⟨ptr, s.sigints⟩

def transformers (entries : List TransformEntry) : Option (List Transformer × Nat) := do
  let s ← entries.foldlM addEntry ⟨.nullptr, 0⟩
  return (if s.lastPtr.isNull then [] else [s.lastPtr], s.sigints)

inductive Step
  | base (column : Str)
  | decorate (own : Decoration) (column : Str)

def Step.effect : Step → CSVRow → CSVRow
  | .base column => baseOperation column
  | .decorate own column => own.operation column

def TransformEntry.step? (entry : TransformEntry) : Option Step := do
  let column ← entry.column
  let type ← entry.type
  if type = voidType then return .base column
  else if type = unuuidType then return .decorate .unuuid column
  else if type = mapType then return .decorate (.map (insertAll ∅ entry.lookup)) column
  else if type = appendType then return .decorate (.append (← entry.fromColumn)) column
  else if type = prependType then return .decorate (.prepend (← entry.fromColumn)) column
  else if type = setType then return .decorate (.set (← entry.value)) column
  else none

def Transformer.steps : Transformer → List Step
  | .nullptr => []
  | .base column => [.base column]
  | .decorator own column wrapped => wrapped.steps ++ [.decorate own column]

def Step.wrap : Step → Transformer → Transformer
  | .base column, _ => .base column
  | .decorate own column, wrapped => .decorator own column wrapped

def runSteps (steps : List Step) (row : CSVRow) : CSVRow :=
  steps.foldl (fun row step => step.effect row) row

theorem runSteps_append (xs ys : List Step) (row : CSVRow) :
    runSteps (xs ++ ys) row = runSteps ys (runSteps xs row) := List.foldl_append

theorem operation_eq_runSteps (t : Transformer) (row : CSVRow) :
    t.operation row = runSteps t.steps row := by
  induction t with
  | nullptr => rfl
  | base column => rfl
  | decorator own column wrapped ih =>
      rw [Transformer.operation, ih, Transformer.steps, runSteps_append]
      rfl

theorem operate_eq_runSteps (chain : List Transformer) (row : CSVRow) :
    operate chain row = runSteps (chain.flatMap Transformer.steps) row := by
  induction chain generalizing row with
  | nil => rfl
  | cons t chain ih =>
      rw [List.flatMap_cons, runSteps_append, ← operation_eq_runSteps, ← ih]
      rfl

theorem addEntry_eq {entry : TransformEntry} {step : Step} (h : entry.step? = some step)
    (s : Building) : addEntry s entry = some ⟨step.wrap s.lastPtr, s.sigints⟩ := by
  obtain ⟨column, type, lookup, fromColumn, value⟩ := entry
  cases column with
  | none => simp [TransformEntry.step?] at h
  | some column =>
  cases type with
  | none => simp [TransformEntry.step?] at h
  | some type =>
  simp only [TransformEntry.step?, Option.bind_eq_bind, Option.bind_some, pure] at h
  split_ifs at h with hvoid hunuuid hmap happend hprepend hset
  · subst hvoid
    obtain rfl := Option.some.inj h
    rfl
  · subst hunuuid
    obtain rfl := Option.some.inj h
    rfl
  · subst hmap
    obtain rfl := Option.some.inj h
    rfl
  · subst happend
    obtain ⟨c, rfl, hs⟩ := Option.bind_eq_some_iff.mp h
    obtain rfl := Option.some.inj hs
    rfl
  · subst hprepend
    obtain ⟨c, rfl, hs⟩ := Option.bind_eq_some_iff.mp h
    obtain rfl := Option.some.inj hs
    rfl
  · subst hset
    obtain ⟨v, rfl, hs⟩ := Option.bind_eq_some_iff.mp h
    obtain rfl := Option.some.inj hs
    rfl

def Step.column : Step → Str
  | .base column => column
  | .decorate _ column => column

def Step.reads : Step → List Str
  | .base column => [column]
  | .decorate (.set _) _ => []
  | .decorate (.append fromColumn) column => [column, fromColumn]
  | .decorate (.prepend fromColumn) column => [column, fromColumn]
  | .decorate _ column => [column]

def Step.overwrites (step : Step) (c : Str) : Bool :=
  match step with
  | .decorate (.set _) column => column = c
  | _ => false

theorem overwrites_spec {step : Step} {c : Str} (h : step.overwrites c = true) :
    step.column = c ∧ step.reads = [] := by
  cases step with
  | base column => simp [Step.overwrites] at h
  | decorate own column =>
      cases own with
      | set value => exact ⟨of_decide_eq_true h, rfl⟩
      | unuuid | map | append | prepend => simp [Step.overwrites] at h

def Step.result : Step → (Str → Str) → Str
  | .base column, v => if v column = [] then [] else ['B', 'A', 'S', 'E', ' '] ++ v column
  | .decorate .unuuid column, v => (removeChar '-' (v column)).map Char.toLower
  | .decorate (.map lookup) column, v => if v column = [] then [] else lookup.getD (v column) (v column)
  | .decorate (.append fromColumn) column, v => if v column = [] then [] else v column ++ v fromColumn
  | .decorate (.prepend fromColumn) column, v => if v column = [] then [] else v fromColumn ++ v column
  | .decorate (.set value) _, _ => value

theorem value_onNonEmpty (column : Str) (f : CSVRow → CSVRow) (row : CSVRow) (d : Str) :
    (onNonEmpty column f row).value d =
      if row.value column = [] then row.value d else (f (row.touch column)).value d := by
  rw [onNonEmpty, value_touch]
  split_ifs <;> simp

theorem onNonEmpty_frame {f : CSVRow → CSVRow} {d : Str}
    (hf : ∀ row, (f row).value d = row.value d) (column : Str) (row : CSVRow) :
    (onNonEmpty column f row).value d = row.value d := by
  rw [value_onNonEmpty]
  split_ifs
  · rfl
  · rw [hf, value_touch]

theorem value_effect_of_ne {step : Step} {d : Str} (h : step.column ≠ d) (row : CSVRow) :
    (step.effect row).value d = row.value d := by
  have hassign (v : CSVRow → Str) (row : CSVRow) :
      (row.assign step.column (v row)).value d = row.value d := value_assign_of_ne row h (v row)
  cases step with
  | base column => exact onNonEmpty_frame (hassign _) column row
  | decorate own column =>
      cases own with
      | unuuid => exact onNonEmpty_frame (hassign _) column row
      | map lookup =>
          refine onNonEmpty_frame (fun row => ?_) column row
          cases lookup[row.value column]? with
          | none => rfl
          | some v => exact hassign (fun _ => v) row
      | append fromColumn | prepend fromColumn =>
          exact onNonEmpty_frame (onNonEmpty_frame (hassign _) fromColumn) column row
      | set value => exact hassign (fun _ => value) row

theorem value_effect_column (step : Step) (row : CSVRow) :
    (step.effect row).value step.column = step.result row.value := by
  cases step with
  | base column =>
      change (baseOperation column row).value column = _
      rw [baseOperation, value_onNonEmpty]
      split_ifs with h <;> simp [Step.result, h]
  | decorate own column =>
      cases own with
      | unuuid =>
          change (unuuidOperation column row).value column = _
          rw [unuuidOperation, value_onNonEmpty]
          split_ifs with h <;> simp [Step.result, h, removeChar]
      | map lookup =>
          change (mapOperation lookup column row).value column = _
          rw [mapOperation, value_onNonEmpty]
          split_ifs with h
          · simp [Step.result, h]
          · rw [value_touch, Step.result, if_neg h, Std.TreeMap.getD_eq_getD_getElem?]
            cases lookup[row.value column]? <;> simp
      | append fromColumn =>
          change (appendOperation fromColumn column row).value column = _
          rw [appendOperation, value_onNonEmpty, value_onNonEmpty]
          split_ifs with h h' <;> simp_all [Step.result]
      | prepend fromColumn =>
          change (prependOperation fromColumn column row).value column = _
          rw [prependOperation, value_onNonEmpty, value_onNonEmpty]
          split_ifs with h h' <;> simp_all [Step.result]
      | set value => exact value_assign_self row column value

theorem result_congr {step : Step} {v w : Str → Str} (h : ∀ c ∈ step.reads, v c = w c) :
    step.result v = step.result w := by
  cases step with
  | base column =>
      have hc := h column (by simp [Step.reads])
      simp only [Step.result, hc]
  | decorate own column =>
      cases own with
      | unuuid | map =>
          have hc := h column (by simp [Step.reads])
          simp only [Step.result, hc]
      | append fromColumn | prepend fromColumn =>
          have hc := h column (by simp [Step.reads])
          have hf := h fromColumn (by simp [Step.reads])
          simp only [Step.result, hc, hf]
      | set value => rfl

theorem result_nil {step : Step} {v : Str → Str} (hs : step.overwrites step.column = false)
    (hv : v step.column = []) : step.result v = [] := by
  cases step with
  | base column => exact if_pos hv
  | decorate own column =>
      have hv' : v column = [] := hv
      cases own with
      | set value => simp [Step.overwrites, Step.column] at hs
      | unuuid => simp [Step.result, hv', removeChar]
      | map | append | prepend => exact if_pos hv

end Flycatcher.Transformers
