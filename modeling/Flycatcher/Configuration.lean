import Flycatcher.Library.Reports
import Flycatcher.Library.YamlNodes
import Flycatcher.Logging
import Flycatcher.SchemaIds
import Flycatcher.Transformers

namespace Flycatcher.Configuration

open Library.TextStreams Library.Reports Library.YamlNodes CsvRow Datums Logging Publish
open SchemaAssembly Transformers

inductive Effect
  | log (level : Level) (message : Str)
  | sigint
  | initRegistry (url : Str)
deriving DecidableEq

/-- How a function is left without a value: by an exception of the YAML library or
of the assembly of a schema, or past its end, where a return is missing. -/
inductive Left
  | yaml
  | assembly (e : Exception)
  | pastEnd

abbrev Code (α : Type) := Report Effect Left α

def error (message : Str) : Code Unit := tell (.log .error message)

def info (message : Str) : Code Unit := tell (.log .info message)

def interrupt : Code Unit := tell .sigint

/-- An error that is followed by SIGINT, and by no return. -/
def giveUp {α : Type} (message : Str) : Code α := do
  error message
  interrupt
  fail .pastEnd

def orThrow {α : Type} : Option α → Code α
  | some x => pure x
  | none => fail .yaml

section Reading

variable {ν : Type} (yaml : Nodes ν)

def as (node : ν) : Code Str := orThrow (yaml.asText node)

def typeOf (node : ν) : Code NodeType := orThrow (yaml.type node)

def lookUp (node : ν) (key : Str) : Code ν := orThrow (yaml.subscript node key)

def hasKey (config : ν) (k : Str) : Code Bool := do
  return (← typeOf yaml (← lookUp yaml config k)) ≠ .undefined

def noSuchKey (k : Str) : Str := "No such key '".toList ++ k ++ ['\'']

def notAMap (k : Str) : Str := "Value for key '".toList ++ k ++ "' is not a map".toList

def nestedMap (k : Str) : Str := "Nested map found for key '".toList ++ k ++ ['\'']

def addScalar (k : Str) (result : StringMap) (it : Position ν) : Code StringMap := do
  match ← typeOf yaml it.second with
  | .scalar =>
      let key ← as yaml it.first
      let value ← as yaml it.second
      return result.insertIfNew key value
  | .map =>
      info (nestedMap k)
      return result
  | _ => return result

def configForKey (config : ν) (k : Str) : Code StringMap := do
  if ← hasKey yaml config k then
    let node ← lookUp yaml config k
    if (← typeOf yaml node) = .map then (yaml.iterate node).foldlM (addScalar yaml k) ∅
    else giveUp (notAMap k)
  else giveUp (noSuchKey k)

def columnMapKey : Str := "column_map".toList

def columnTypeTransformsKey : Str := "column_type_transforms".toList

def kafkaKey : Str := "kafka".toList

def typeMapKey : Str := "type_map".toList

def keyColumnKey : Str := "key_column".toList

def columnsKey : Str := "columns".toList

def maxAgeKey : Str := "max_age".toList

def transformsKey : Str := "transforms".toList

def columnMap (config : ν) : Code StringMap := configForKey yaml config columnMapKey

def columnTypeTransformsMap (config : ν) : Code StringMap :=
  configForKey yaml config columnTypeTransformsKey

def kafka (config : ν) : Code StringMap := configForKey yaml config kafkaKey

def missingKeyColumn (topic : Str) : Str := "Missing key_column for topic '".toList ++ topic ++ ['\'']

def noColumns (topic : Str) : Str := "No columns found for topic '".toList ++ topic ++ ['\'']

def notOfTypeMap (topic : Str) : Str :=
  "Value for key '".toList ++ topic ++ "' should be of type map!".toList

def noSchemaConfiguration : Str := "No schema configuration found".toList

structure Scan where
  err : List Str
  result : SchemaMap

def readKeyColumn (topic : Str) (value : ν) : Code (Str × List Str) := do
  let node ← lookUp yaml value keyColumnKey
  if yaml.isDefined node then return (← as yaml node, [])
  else return ([], [missingKeyColumn topic])

def addColumnName (columns : List Str) (it : Position ν) : Code (List Str) := do
  return columns ++ [← as yaml it.element]

def readColumns (topic : Str) (value : ν) : Code (List Str × List Str) := do
  let list ← lookUp yaml value columnsKey
  let columns ← (yaml.iterate list).foldlM (addColumnName yaml) []
  return (columns, if columns.isEmpty then [noColumns topic] else [])

def readTopic (topic : Str) (value : ν) : Code (Str × List Str × List Str) := do
  if (← typeOf yaml value) = .map then
    let (keyColumn, err) ← readKeyColumn yaml topic value
    let (columns, err') ← readColumns yaml topic value
    return (keyColumn, columns, err ++ err')
  else return ([], [], [notOfTypeMap topic])

def addTopic (config : ν) (s : Scan) (it : Position ν) : Code Scan := do
  let cm ← columnMap yaml config
  let ctt ← columnTypeTransformsMap yaml config
  let topic ← as yaml it.first
  let (keyColumn, columns, err) ← readTopic yaml topic it.second
  return ⟨s.err ++ err, s.result.insertIfNew topic ⟨topic, keyColumn, columns, cm, ctt, ⟨[], []⟩, 0⟩⟩

def joinError (running new : Str) : Str := if running.isEmpty then new else running ++ '\n' :: new

def readTopics (config : ν) : Code Scan := do
  if ← hasKey yaml config typeMapKey then
    (yaml.iterate (← lookUp yaml config typeMapKey)).foldlM (addTopic yaml config) ⟨[], ∅⟩
  else return ⟨[noSchemaConfiguration], ∅⟩

def schemaConfigs (config : ν) : Code SchemaMap := do
  let kafkaConfig ← kafka yaml config
  tell (.initRegistry (kafkaConfig.getD "schema.registry.url".toList []))
  let s ← readTopics yaml config
  if !s.err.isEmpty then giveUp (s.err.foldl joinError [])
  else return s.result

/-- The messages about the ids and the schemas are left out. -/
def schemas (avro : AvroSchemas) (get : Str → Option Int32) (config : ν) : Code SchemaMap := do
  let configs ← schemaConfigs yaml config
  match SchemaIds.schemas avro get configs with
  | .ok schemas => return schemas
  | .error e => fail (.assembly e)

/-- atoi of the C library: a number that a long does not hold is brought into its
range, and cut down to an int. -/
def atoi (s : Str) : Int := wrap 32 (max (-2 ^ 63) (min (2 ^ 63 - 1) ((strtol s).getD 0)))

def malformedMaxAge : Str := "Malformed max_age configuration.".toList

def maxAge (config : ν) : Code (Str × Int) := do
  if ← hasKey yaml config maxAgeKey then
    let maxAgeConfig ← configForKey yaml config maxAgeKey
    match maxAgeConfig["column".toList]?, maxAgeConfig["days".toList]? with
    | some column, some days => return (column, atoi days)
    | _, _ => giveUp malformedMaxAge
  else fail .pastEnd

def createdTransformer (type column : Str) : Str :=
  "Created transformer type '".toList ++ type ++ "' for column '".toList ++ column ++ ['\'']

def unknownType (type : Str) : Str := "Unknown type '".toList ++ type ++ ['\'']

def addPair (pairs : List (Str × Str)) (it : Position ν) : Code (List (Str × Str)) := do
  let key ← as yaml it.first
  let value ← as yaml it.second
  return pairs ++ [(key, value)]

def readText (d : ν) (key : Str) : Code Str := do as yaml (← lookUp yaml d key)

def readLookup (d : ν) : Code (List (Str × Str)) := do
  (yaml.iterate (← lookUp yaml d "lookup".toList)).foldlM (addPair yaml) []

def configureFrom (d : ν) (type : Str) (ptr : Transformer) : Code Transformer := do
  if type = mapType then
    return ptr.withOwn (.map (insertAll ∅ (← readLookup yaml d)))
  else if type = appendType then
    return ptr.withOwn (.append (← readText yaml d "from_column".toList))
  else if type = prependType then
    return ptr.withOwn (.prepend (← readText yaml d "from_column".toList))
  else if type = setType then
    return ptr.withOwn (.set (← readText yaml d "value".toList))
  else return ptr

def addTransformer (lastPtr : Transformer) (it : Position ν) : Code Transformer := do
  let column ← readText yaml it.element "column".toList
  let type ← readText yaml it.element "type".toList
  let ptr := getInstance type column lastPtr
  if ptr.isNull then
    error (unknownType type)
    interrupt
    return .nullptr
  else
    let ptr ← configureFrom yaml it.element type ptr
    info (createdTransformer type column)
    return ptr

def transformersOf (config : ν) : Code (List Transformer) := do
  if yaml.isDefined (← lookUp yaml config transformsKey) then
    let lastPtr ← (yaml.iterate (← lookUp yaml config transformsKey)).foldlM
      (addTransformer yaml) .nullptr
    return if lastPtr.isNull then [] else [lastPtr]
  else return []

def maxAgeSetting (config : ν) : Code (Option (Str × Int)) := do
  if ← hasKey yaml config maxAgeKey then some <$> maxAge yaml config else return none

structure Settings where
  schemas : SchemaMap
  kafka : StringMap
  transformers : List Transformer
  maxAge : Option (Str × Int)

def configure (avro : AvroSchemas) (get : Str → Option Int32) (config : ν) : Code Settings := do
  let schemas ← schemas yaml avro get config
  let kafka ← kafka yaml config
  let transformers ← transformersOf yaml config
  let maxAge ← maxAgeSetting yaml config
  return ⟨schemas, kafka, transformers, maxAge⟩

end Reading

def alarm : Effect → Bool
  | .log .error _ => true
  | .sigint => true
  | _ => false

def alarms (xs : List Effect) : List Effect := xs.filter alarm

def alarmsOf (messages : List Str) : List Effect :=
  messages.flatMap fun message => [.log .error message, .sigint]

/-- SIGINT comes behind each error, never alone, and before an end without a return. -/
def Interrupts (xs : List Effect) (r : Except Left Unit) : Prop :=
  ∃ messages, alarms xs = alarmsOf messages ∧ (r = .error .pastEnd → messages ≠ [])

def Quiet (xs : List Effect) (r : Except Left Unit) : Prop := r = .ok () → alarms xs = []

def Guarded (xs : List Effect) (r : Except Left Unit) : Prop := Interrupts xs r ∧ Quiet xs r

section Readings

variable {ν : Type} (yaml : Nodes ν)

def ScalarReadable (it : Position ν) : Prop :=
  ∃ type, yaml.type it.second = some type ∧
    (type = .scalar → Readable yaml it.first ∧ Readable yaml it.second)

def Section (config : ν) (k : Str) : Prop :=
  typeAt yaml config k = some .map ∧ ∀ it ∈ itemsAt yaml config k, ScalarReadable yaml it

def withScalar (result : StringMap) (it : Position ν) : StringMap :=
  if yaml.type it.second = some .scalar then
    result.insertIfNew (textOf yaml it.first) (textOf yaml it.second)
  else result

def sectionMap (config : ν) (k : Str) : StringMap :=
  (itemsAt yaml config k).foldl (withScalar yaml) ∅

def KeyColumnReadable (value : ν) : Prop :=
  ∃ node, yaml.subscript value keyColumnKey = some node ∧
    (yaml.isDefined node = true → Readable yaml node)

def ColumnsReadable (value : ν) : Prop :=
  yaml.subscript value columnsKey ≠ none ∧
    ∀ column ∈ itemsAt yaml value columnsKey, Readable yaml column.element

def EntriesReadable (it : Position ν) : Prop :=
  ∃ type, yaml.type it.second = some type ∧
    (type = .map → KeyColumnReadable yaml it.second ∧ ColumnsReadable yaml it.second)

def keyColumnOf (value : ν) : Str :=
  if hasAt yaml value keyColumnKey then (textAt yaml value keyColumnKey).getD [] else []

def columnsOf (value : ν) : List Str :=
  (itemsAt yaml value columnsKey).map fun column => textOf yaml column.element

def topicOf (it : Position ν) : Str × List Str × List Str :=
  if yaml.type it.second = some .map then
    (keyColumnOf yaml it.second, columnsOf yaml it.second,
      (if hasAt yaml it.second keyColumnKey then []
        else [missingKeyColumn (textOf yaml it.first)]) ++
        if columnsOf yaml it.second = [] then [noColumns (textOf yaml it.first)] else [])
  else ([], [], [notOfTypeMap (textOf yaml it.first)])

def defectsOf (it : Position ν) : List Str := (topicOf yaml it).2.2

def configOf (config : ν) (it : Position ν) : SchemaConfig :=
  ⟨textOf yaml it.first, (topicOf yaml it).1, (topicOf yaml it).2.1,
    sectionMap yaml config columnMapKey, sectionMap yaml config columnTypeTransformsKey, ⟨[], []⟩, 0⟩

def TopicReadable (config : ν) (it : Position ν) : Prop :=
  Section yaml config columnMapKey ∧ Section yaml config columnTypeTransformsKey ∧
    Readable yaml it.first ∧ EntriesReadable yaml it

def withTopic (config : ν) (s : Scan) (it : Position ν) : Scan :=
  ⟨s.err ++ defectsOf yaml it, s.result.insertIfNew (textOf yaml it.first) (configOf yaml config it)⟩

def topics (config : ν) : List (Position ν) :=
  if typeAt yaml config typeMapKey = some .undefined then [] else itemsAt yaml config typeMapKey

def TopicsReadable (config : ν) : Prop :=
  typeAt yaml config typeMapKey ≠ none ∧ ∀ it ∈ topics yaml config, TopicReadable yaml config it

def defects (config : ν) : List Str :=
  if typeAt yaml config typeMapKey = some .undefined then [noSchemaConfiguration]
  else (topics yaml config).flatMap (defectsOf yaml)

def topicsOf (config : ν) : SchemaMap :=
  (topics yaml config).foldl
    (fun result it => result.insertIfNew (textOf yaml it.first) (configOf yaml config it)) ∅

end Readings

theorem orThrow_ok_iff {α : Type} {o : Option α} {x : α} :
    (orThrow o).result = .ok x ↔ o = some x := by
  cases o with
  | none =>
      constructor
      · intro h
        cases h
      · intro h
        cases h
  | some y =>
      constructor
      · intro h
        cases h
        rfl
      · intro h
        cases h
        rfl

variable {ν : Type} {yaml : Nodes ν}

theorem typeAt_some {node : ν} {key : Str} {type : NodeType} :
    typeAt yaml node key = some type ↔
      ∃ found, yaml.subscript node key = some found ∧ yaml.type found = some type :=
  Option.bind_eq_some_iff

theorem itemsAt_eq {node found : ν} {key : Str} (h : yaml.subscript node key = some found) :
    itemsAt yaml node key = yaml.iterate found := by
  rw [itemsAt, h]
  rfl

theorem hasAt_eq {node found : ν} {key : Str} (h : yaml.subscript node key = some found) :
    hasAt yaml node key = yaml.isDefined found := by
  rw [hasAt, h]
  rfl

theorem textAt_eq {node found : ν} {key : Str} (h : yaml.subscript node key = some found) :
    (textAt yaml node key).getD [] = textOf yaml found := by
  rw [textAt, h]
  rfl

theorem as_ok_iff {node : ν} {text : Str} :
    (as yaml node).result = .ok text ↔ Readable yaml node ∧ text = textOf yaml node := by
  rw [as, orThrow_ok_iff, Readable, textOf]
  cases yaml.asText node with
  | none =>
      constructor
      · intro h
        cases h
      · rintro ⟨h, -⟩
        cases h
  | some text' =>
      constructor
      · intro h
        cases h
        exact ⟨rfl, rfl⟩
      · rintro ⟨-, rfl⟩
        rfl

theorem typeOf_ok_iff {node : ν} {type : NodeType} :
    (typeOf yaml node).result = .ok type ↔ yaml.type node = some type := orThrow_ok_iff

theorem lookUp_ok_iff {node found : ν} {key : Str} :
    (lookUp yaml node key).result = .ok found ↔ yaml.subscript node key = some found := orThrow_ok_iff

theorem hasKey_ok_iff {config : ν} {k : Str} {b : Bool} :
    (hasKey yaml config k).result = .ok b ↔
      ∃ type, typeAt yaml config k = some type ∧ b = decide (type ≠ .undefined) := by
  simp only [hasKey, result_bind_ok, lookUp_ok_iff, typeOf_ok_iff, typeAt_some]
  constructor
  · rintro ⟨found, hfound, type, htype, h⟩
    exact ⟨type, ⟨found, hfound, htype⟩, (Except.ok.inj h).symm⟩
  · rintro ⟨type, ⟨found, hfound, htype⟩, rfl⟩
    exact ⟨found, hfound, type, htype, rfl⟩

theorem addScalar_ok_iff {k : Str} {result result' : StringMap} {it : Position ν} :
    (addScalar yaml k result it).result = .ok result' ↔
      ScalarReadable yaml it ∧ result' = withScalar yaml result it := by
  rw [addScalar, withScalar, ScalarReadable, result_bind_ok]
  simp only [typeOf_ok_iff]
  cases yaml.type it.second with
  | none =>
      constructor
      · rintro ⟨_, h, -⟩
        cases h
      · rintro ⟨⟨_, h, -⟩, -⟩
        cases h
  | some type =>
      simp only [Option.some.injEq, exists_eq_left']
      cases type with
      | scalar =>
          simp only [result_bind_ok, as_ok_iff, forall_true_left, if_true]
          constructor
          · rintro ⟨_, ⟨hfirst, rfl⟩, _, ⟨hsecond, rfl⟩, h⟩
            exact ⟨⟨hfirst, hsecond⟩, (Except.ok.inj h).symm⟩
          · rintro ⟨⟨hfirst, hsecond⟩, rfl⟩
            exact ⟨_, ⟨hfirst, rfl⟩, _, ⟨hsecond, rfl⟩, rfl⟩
      | undefined | null | sequence | map =>
          constructor
          · intro h
            exact ⟨fun he => (by cases he), (Except.ok.inj h).symm⟩
          · rintro ⟨-, rfl⟩
            rfl

theorem addScalars_ok_iff {k : Str} {its : List (Position ν)} {result result' : StringMap} :
    (its.foldlM (addScalar yaml k) result).result = .ok result' ↔
      (∀ it ∈ its, ScalarReadable yaml it) ∧ result' = its.foldl (withScalar yaml) result := by
  apply foldlM_ok_iff
  intro result it result'
  exact addScalar_ok_iff

theorem configForKey_ok_iff {config : ν} {k : Str} {result : StringMap} :
    (configForKey yaml config k).result = .ok result ↔
      Section yaml config k ∧ result = sectionMap yaml config k := by
  rw [configForKey, result_bind_ok, Section, sectionMap]
  constructor
  · rintro ⟨present, hkey, h⟩
    obtain ⟨type, htype, rfl⟩ := hasKey_ok_iff.mp hkey
    obtain ⟨found, hfound, hmap⟩ := typeAt_some.mp htype
    split at h
    · simp only [result_bind_ok, lookUp_ok_iff, typeOf_ok_iff, hfound, Option.some.injEq,
        exists_eq_left', hmap] at h
      split at h
      · next his =>
          rw [htype, his, itemsAt_eq hfound]
          obtain ⟨hreadable, rfl⟩ := addScalars_ok_iff.mp h
          exact ⟨⟨rfl, hreadable⟩, rfl⟩
      · cases h
    · cases h
  · rintro ⟨⟨htype, hreadable⟩, rfl⟩
    obtain ⟨found, hfound, hmap⟩ := typeAt_some.mp htype
    rw [itemsAt_eq hfound] at hreadable ⊢
    refine ⟨true, hasKey_ok_iff.mpr ⟨_, htype, rfl⟩, ?_⟩
    refine result_bind_ok.mpr ⟨found, lookUp_ok_iff.mpr hfound, ?_⟩
    refine result_bind_ok.mpr ⟨.map, typeOf_ok_iff.mpr hmap, ?_⟩
    exact addScalars_ok_iff.mpr ⟨hreadable, rfl⟩

theorem readKeyColumn_ok_iff {topic : Str} {value : ν} {read : Str × List Str} :
    (readKeyColumn yaml topic value).result = .ok read ↔
      KeyColumnReadable yaml value ∧ read = (keyColumnOf yaml value,
        if hasAt yaml value keyColumnKey then [] else [missingKeyColumn topic]) := by
  rw [readKeyColumn, keyColumnOf, KeyColumnReadable, result_bind_ok]
  simp only [lookUp_ok_iff]
  cases hfound : yaml.subscript value keyColumnKey with
  | none =>
      constructor
      · rintro ⟨_, h, -⟩
        cases h
      · rintro ⟨⟨_, h, -⟩, -⟩
        cases h
  | some found =>
      simp only [Option.some.injEq, exists_eq_left', hasAt_eq hfound, textAt_eq hfound]
      cases yaml.isDefined found with
      | false =>
          constructor
          · intro h
            exact ⟨fun he => (by cases he), (Except.ok.inj h).symm⟩
          · rintro ⟨-, rfl⟩
            rfl
      | true =>
          simp only [if_true, result_bind_ok, as_ok_iff, forall_true_left]
          constructor
          · rintro ⟨_, ⟨hreadable, rfl⟩, h⟩
            exact ⟨hreadable, (Except.ok.inj h).symm⟩
          · rintro ⟨hreadable, rfl⟩
            exact ⟨_, ⟨hreadable, rfl⟩, rfl⟩

theorem columnLoop_ok_iff {its : List (Position ν)} {columns columns' : List Str} :
    (its.foldlM (addColumnName yaml) columns).result = .ok columns' ↔
      (∀ it ∈ its, Readable yaml it.element) ∧
        columns' = its.foldl (fun columns it => columns ++ [textOf yaml it.element]) columns := by
  apply foldlM_ok_iff
  intro columns it columns'
  rw [addColumnName, result_bind_ok]
  simp only [as_ok_iff]
  constructor
  · rintro ⟨text, ⟨hreadable, rfl⟩, h⟩
    exact ⟨hreadable, (Except.ok.inj h).symm⟩
  · rintro ⟨hreadable, rfl⟩
    exact ⟨_, ⟨hreadable, rfl⟩, rfl⟩

theorem foldl_append_singleton {α β : Type} (f : α → β) (xs : List α) (ys : List β) :
    xs.foldl (fun ys x => ys ++ [f x]) ys = ys ++ xs.map f := by
  induction xs generalizing ys with
  | nil => exact (List.append_nil ys).symm
  | cons x xs ih =>
      rw [List.foldl_cons, ih, List.map_cons, List.append_assoc]
      rfl

theorem readColumns_ok_iff {topic : Str} {value : ν} {read : List Str × List Str} :
    (readColumns yaml topic value).result = .ok read ↔
      ColumnsReadable yaml value ∧ read = (columnsOf yaml value,
        if columnsOf yaml value = [] then [noColumns topic] else []) := by
  rw [readColumns, result_bind_ok, ColumnsReadable, columnsOf]
  simp only [lookUp_ok_iff]
  cases hfound : yaml.subscript value columnsKey with
  | none =>
      constructor
      · rintro ⟨_, h, -⟩
        cases h
      · rintro ⟨⟨h, -⟩, -⟩
        exact absurd rfl h
  | some found =>
      simp only [Option.some.injEq, exists_eq_left', itemsAt_eq hfound, result_bind_ok,
        columnLoop_ok_iff, foldl_append_singleton, List.nil_append, List.isEmpty_iff]
      constructor
      · rintro ⟨_, ⟨hreadable, rfl⟩, h⟩
        exact ⟨⟨by simp, hreadable⟩, (Except.ok.inj h).symm⟩
      · rintro ⟨⟨-, hreadable⟩, rfl⟩
        exact ⟨_, ⟨hreadable, rfl⟩, rfl⟩

theorem readTopic_ok_iff {it : Position ν} {read : Str × List Str × List Str} :
    (readTopic yaml (textOf yaml it.first) it.second).result = .ok read ↔
      EntriesReadable yaml it ∧ read = topicOf yaml it := by
  rw [readTopic, EntriesReadable, topicOf, result_bind_ok]
  simp only [typeOf_ok_iff]
  cases yaml.type it.second with
  | none =>
      constructor
      · rintro ⟨_, h, -⟩
        cases h
      · rintro ⟨⟨_, h, -⟩, -⟩
        cases h
  | some type =>
      simp only [Option.some.injEq, exists_eq_left']
      by_cases hmap : type = .map
      · subst hmap
        simp only [if_true, result_bind_ok, readKeyColumn_ok_iff, readColumns_ok_iff,
          forall_true_left]
        constructor
        · rintro ⟨_, ⟨hkey, rfl⟩, _, ⟨hcolumns, rfl⟩, h⟩
          exact ⟨⟨hkey, hcolumns⟩, (Except.ok.inj h).symm⟩
        · rintro ⟨⟨hkey, hcolumns⟩, rfl⟩
          exact ⟨_, ⟨hkey, rfl⟩, _, ⟨hcolumns, rfl⟩, rfl⟩
      · rw [if_neg hmap, if_neg hmap]
        constructor
        · intro h
          exact ⟨fun he => absurd he hmap, (Except.ok.inj h).symm⟩
        · rintro ⟨-, rfl⟩
          rfl

theorem addTopic_ok_iff {config : ν} {s t : Scan} {it : Position ν} :
    (addTopic yaml config s it).result = .ok t ↔
      TopicReadable yaml config it ∧ t = withTopic yaml config s it := by
  simp only [addTopic, result_bind_ok, columnMap, columnTypeTransformsMap, configForKey_ok_iff,
    as_ok_iff]
  constructor
  · rintro ⟨_, ⟨hcm, rfl⟩, _, ⟨hctt, rfl⟩, _, ⟨hfirst, rfl⟩, read, hread, h⟩
    obtain ⟨hentries, rfl⟩ := readTopic_ok_iff.mp hread
    exact ⟨⟨hcm, hctt, hfirst, hentries⟩, (Except.ok.inj h).symm⟩
  · rintro ⟨⟨hcm, hctt, hfirst, hentries⟩, rfl⟩
    exact ⟨_, ⟨hcm, rfl⟩, _, ⟨hctt, rfl⟩, _, ⟨hfirst, rfl⟩, _,
      readTopic_ok_iff.mpr ⟨hentries, rfl⟩, rfl⟩

theorem foldl_withTopic (config : ν) (its : List (Position ν)) (s : Scan) :
    its.foldl (withTopic yaml config) s =
      ⟨s.err ++ its.flatMap (defectsOf yaml),
        its.foldl
          (fun result it => result.insertIfNew (textOf yaml it.first) (configOf yaml config it))
          s.result⟩ := by
  induction its generalizing s with
  | nil => rw [List.flatMap_nil, List.append_nil]; rfl
  | cons it its ih =>
      rw [List.foldl_cons, ih, List.flatMap_cons, ← List.append_assoc]
      rfl

theorem addTopics_ok_iff {config : ν} {its : List (Position ν)} {s : Scan} :
    (its.foldlM (addTopic yaml config) ⟨[], ∅⟩).result = .ok s ↔
      (∀ it ∈ its, TopicReadable yaml config it) ∧ s = its.foldl (withTopic yaml config) ⟨[], ∅⟩ := by
  apply foldlM_ok_iff
  intro s it t
  exact addTopic_ok_iff

theorem readTopics_ok_iff {config : ν} {s : Scan} :
    (readTopics yaml config).result = .ok s ↔
      TopicsReadable yaml config ∧ s = ⟨defects yaml config, topicsOf yaml config⟩ := by
  rw [readTopics, result_bind_ok, TopicsReadable, defects, topicsOf, topics]
  simp only [hasKey_ok_iff]
  cases htype : typeAt yaml config typeMapKey with
  | none =>
      constructor
      · rintro ⟨_, ⟨_, h, -⟩, -⟩
        cases h
      · rintro ⟨⟨h, -⟩, -⟩
        exact absurd rfl h
  | some type =>
      obtain ⟨found, hfound, -⟩ := typeAt_some.mp htype
      have hsome : some type ≠ none := by simp
      simp only [Option.some.injEq, exists_eq_left', exists_eq_left, hsome, not_false_eq_true,
        true_and, ne_eq]
      by_cases hundefined : type = .undefined
      · rw [if_pos hundefined, if_pos hundefined, decide_eq_false (not_not.mpr hundefined)]
        constructor
        · intro h
          exact ⟨fun _ hm => (by cases hm), (Except.ok.inj h).symm⟩
        · rintro ⟨-, rfl⟩
          rfl
      · rw [if_neg hundefined, if_neg hundefined, decide_eq_true hundefined, if_pos rfl,
          result_bind_ok, itemsAt_eq hfound]
        simp only [lookUp_ok_iff, hfound, Option.some.injEq, exists_eq_left', addTopics_ok_iff,
          foldl_withTopic, List.nil_append]

theorem alarms_append (xs ys : List Effect) : alarms (xs ++ ys) = alarms xs ++ alarms ys :=
  List.filter_append xs ys

theorem alarmsOf_append (ms ns : List Str) : alarmsOf (ms ++ ns) = alarmsOf ms ++ alarmsOf ns :=
  List.flatMap_append

theorem interrupts_composes : Composes Interrupts where
  value := ⟨[], rfl, fun h => (by cases h)⟩
  after := by
    rintro xs ys r ⟨ms, hms, -⟩ ⟨ns, hns, hr⟩
    refine ⟨ms ++ ns, ?_, ?_⟩
    · rw [alarms_append, hms, hns, alarmsOf_append]
    · intro h hnil
      exact hr h (List.append_eq_nil_iff.mp hnil).2

theorem guarded_composes : Composes Guarded where
  value := ⟨interrupts_composes.value, fun _ => rfl⟩
  after := by
    rintro xs ys r ⟨hxs, hqx⟩ ⟨hys, hqy⟩
    refine ⟨interrupts_composes.after xs ys r hxs hys, ?_⟩
    intro h
    rw [alarms_append, hqx rfl, hqy h]
    rfl

theorem guarded_plain {xs : List Effect} {r : Except Left Unit} (hxs : alarms xs = [])
    (hr : r ≠ .error .pastEnd) : Guarded xs r :=
  ⟨⟨[], hxs, fun h => absurd h hr⟩, fun _ => hxs⟩

theorem giveUp_guarded {α : Type} (message : Str) : (giveUp message : Code α).Has Guarded :=
  ⟨⟨[message], rfl, fun _ => List.cons_ne_nil _ _⟩, fun h => (by cases h)⟩

theorem orThrow_guarded {α : Type} (o : Option α) : (orThrow o).Has Guarded := by
  cases o with
  | none => exact guarded_plain rfl fun h => (by cases h)
  | some x => exact has_pure guarded_composes x

theorem info_guarded (message : Str) : (info message).Has Guarded :=
  guarded_plain rfl fun h => (by cases h)

theorem as_guarded (node : ν) : (as yaml node).Has Guarded := orThrow_guarded _

theorem lookUp_guarded (node : ν) (key : Str) : (lookUp yaml node key).Has Guarded :=
  orThrow_guarded _

theorem typeOf_guarded (node : ν) : (typeOf yaml node).Has Guarded := orThrow_guarded _

theorem hasKey_guarded (config : ν) (k : Str) : (hasKey yaml config k).Has Guarded := by
  rw [hasKey]
  apply has_bind guarded_composes (lookUp_guarded _ _)
  intro node _
  exact has_bind guarded_composes (typeOf_guarded _) fun _ _ => has_pure guarded_composes _

theorem addScalar_guarded (k : Str) (result : StringMap) (it : Position ν) :
    (addScalar yaml k result it).Has Guarded := by
  rw [addScalar]
  apply has_bind guarded_composes (typeOf_guarded _)
  intro type _
  cases type with
  | scalar =>
      apply has_bind guarded_composes (as_guarded _)
      intro key _
      exact has_bind guarded_composes (as_guarded _) fun _ _ => has_pure guarded_composes _
  | map => exact has_bind guarded_composes (info_guarded _) fun _ _ => has_pure guarded_composes _
  | undefined | null | sequence => exact has_pure guarded_composes _

theorem configForKey_guarded (config : ν) (k : Str) :
    (configForKey yaml config k).Has Guarded := by
  rw [configForKey]
  apply has_bind guarded_composes (hasKey_guarded _ _)
  intro present _
  split
  · apply has_bind guarded_composes (lookUp_guarded _ _)
    intro node _
    apply has_bind guarded_composes (typeOf_guarded _)
    intro type _
    split
    · exact has_foldlM guarded_composes (addScalar_guarded k) _ _
    · exact giveUp_guarded _
  · exact giveUp_guarded _

theorem readKeyColumn_guarded (topic : Str) (value : ν) :
    (readKeyColumn yaml topic value).Has Guarded := by
  rw [readKeyColumn]
  apply has_bind guarded_composes (lookUp_guarded _ _)
  intro node _
  split
  · exact has_bind guarded_composes (as_guarded _) fun _ _ => has_pure guarded_composes _
  · exact has_pure guarded_composes _

theorem readColumns_guarded (topic : Str) (value : ν) :
    (readColumns yaml topic value).Has Guarded := by
  rw [readColumns]
  apply has_bind guarded_composes (lookUp_guarded _ _)
  intro list _
  apply has_bind guarded_composes
  · apply has_foldlM guarded_composes
    intro columns it
    exact has_bind guarded_composes (as_guarded _) fun _ _ => has_pure guarded_composes _
  · exact fun _ _ => has_pure guarded_composes _

theorem readTopic_guarded (topic : Str) (value : ν) :
    (readTopic yaml topic value).Has Guarded := by
  rw [readTopic]
  apply has_bind guarded_composes (typeOf_guarded _)
  intro type _
  split
  · apply has_bind guarded_composes (readKeyColumn_guarded _ _)
    intro keyColumn _
    exact has_bind guarded_composes (readColumns_guarded _ _) fun _ _ => has_pure guarded_composes _
  · exact has_pure guarded_composes _

theorem addTopic_guarded (config : ν) (s : Scan) (it : Position ν) :
    (addTopic yaml config s it).Has Guarded := by
  rw [addTopic]
  apply has_bind guarded_composes (configForKey_guarded _ _)
  intro cm _
  apply has_bind guarded_composes (configForKey_guarded _ _)
  intro ctt _
  apply has_bind guarded_composes (as_guarded _)
  intro topic _
  exact has_bind guarded_composes (readTopic_guarded _ _) fun _ _ => has_pure guarded_composes _

theorem readTopics_guarded (config : ν) : (readTopics yaml config).Has Guarded := by
  rw [readTopics]
  apply has_bind guarded_composes (hasKey_guarded _ _)
  intro present _
  split
  · apply has_bind guarded_composes (lookUp_guarded _ _)
    exact fun _ _ => has_foldlM guarded_composes (addTopic_guarded config) _ _
  · exact has_pure guarded_composes _

theorem foldl_joinError {running : Str} (h : running ≠ []) (errors : List Str) :
    errors.foldl joinError running = running ++ errors.flatMap fun e => '\n' :: e := by
  induction errors generalizing running with
  | nil => exact (List.append_nil running).symm
  | cons e errors ih =>
      have hjoin : joinError running e = running ++ '\n' :: e := by
        rw [joinError, if_neg (by simpa using h)]
      rw [List.foldl_cons, hjoin, ih (by simp [h]), List.append_assoc, List.flatMap_cons]

theorem intercalate_eq_flatMap (e : Str) (errors : List Str) :
    ['\n'].intercalate (e :: errors) = e ++ errors.flatMap fun e => '\n' :: e := by
  induction errors generalizing e with
  | nil => simp
  | cons e' errors ih =>
      rw [List.intercalate_cons_cons, ih, List.append_assoc, List.flatMap_cons]
      rfl

theorem join_errors {errors : List Str} (h : ∀ e ∈ errors, e ≠ []) :
    errors.foldl joinError [] = ['\n'].intercalate errors := by
  cases errors with
  | nil => rfl
  | cons e errors =>
      rw [List.foldl_cons, joinError, if_pos (by rfl), foldl_joinError (h e (by simp)),
        intercalate_eq_flatMap]

theorem around_ne_nil {before : Str} (h : before ≠ []) (topic behind : Str) :
    before ++ topic ++ behind ≠ [] := by
  rw [List.append_assoc]
  exact List.append_ne_nil_of_left_ne_nil h _

theorem defectsOf_ne_nil {it : Position ν} {e : Str} (h : e ∈ defectsOf yaml it) : e ≠ [] := by
  rw [defectsOf, topicOf] at h
  split at h
  · rcases List.mem_append.mp h with h | h
    · split at h
      · cases h
      · obtain rfl := List.mem_singleton.mp h
        exact around_ne_nil (by decide) _ _
    · split at h
      · obtain rfl := List.mem_singleton.mp h
        exact around_ne_nil (by decide) _ _
      · cases h
  · obtain rfl := List.mem_singleton.mp h
    exact around_ne_nil (by decide) _ _

theorem defects_ne_nil {config : ν} {e : Str} (h : e ∈ defects yaml config) : e ≠ [] := by
  rw [defects] at h
  split at h
  · obtain rfl := List.mem_singleton.mp h
    decide
  · obtain ⟨it, -, h⟩ := List.mem_flatMap.mp h
    exact defectsOf_ne_nil h

theorem foldl_insertIfNew_get {α β : Type} (key : α → Str) (value : α → β) (xs : List α)
    (m : Std.TreeMap Str β compare) (k : Str) :
    (xs.foldl (fun m x => m.insertIfNew (key x) (value x)) m)[k]? =
      (m[k]?).or ((xs.find? fun x => key x = k).map value) := by
  induction xs generalizing m with
  | nil => exact (Option.or_none).symm
  | cons x xs ih =>
      rw [List.foldl_cons, ih, Std.TreeMap.getElem?_insertIfNew, List.find?_cons]
      by_cases hk : key x = k
      · subst hk
        cases hm : m[key x]? with
        | none =>
            have hmem : key x ∉ m := fun h => by
              rw [Std.TreeMap.mem_iff_isSome_getElem?, hm] at h
              cases h
            simp [hmem]
        | some old =>
            have hmem : key x ∈ m := by
              rw [Std.TreeMap.mem_iff_isSome_getElem?, hm]
              rfl
            simp [hmem]
      · have hcmp : compare (key x) k ≠ .eq := fun h => hk (Std.LawfulEqCmp.eq_of_compare h)
        simp [hk, hcmp]

theorem topicsOf_get (config : ν) (topic : Str) :
    (topicsOf yaml config)[topic]? =
      ((topics yaml config).find? fun it => textOf yaml it.first = topic).map (configOf yaml config) := by
  rw [topicsOf, foldl_insertIfNew_get]
  rfl

theorem schemaConfigs_ok_iff {config : ν} {result : SchemaMap} :
    (schemaConfigs yaml config).result = .ok result ↔
      Section yaml config kafkaKey ∧ TopicsReadable yaml config ∧ defects yaml config = [] ∧
        result = topicsOf yaml config := by
  simp only [schemaConfigs, kafka, result_bind_ok, configForKey_ok_iff, readTopics_ok_iff]
  constructor
  · rintro ⟨_, ⟨hkafka, rfl⟩, _, -, _, ⟨hreadable, rfl⟩, h⟩
    split at h
    · cases h
    · next hdefects => exact ⟨hkafka, hreadable, by simpa using hdefects, (Except.ok.inj h).symm⟩
  · rintro ⟨hkafka, hreadable, hdefects, rfl⟩
    refine ⟨_, ⟨hkafka, rfl⟩, (), rfl, _, ⟨hreadable, rfl⟩, ?_⟩
    rw [if_neg (by simp [hdefects])]
    rfl

theorem schemaConfigs_rejects {config : ν} (hkafka : Section yaml config kafkaKey)
    (hreadable : TopicsReadable yaml config) (hdefects : defects yaml config ≠ []) :
    (schemaConfigs yaml config).result = .error .pastEnd ∧
      alarms (schemaConfigs yaml config).reports =
        alarmsOf [['\n'].intercalate (defects yaml config)] := by
  have hk := configForKey_ok_iff.mpr ⟨hkafka, rfl⟩
  have ht := readTopics_ok_iff.mpr ⟨hreadable, rfl⟩
  have hkafkaGuarded : (configForKey yaml config kafkaKey).Has Guarded := configForKey_guarded _ _
  have htopicsGuarded : (readTopics yaml config).Has Guarded := readTopics_guarded _
  have hkq := hkafkaGuarded.2
  have htq := htopicsGuarded.2
  rw [hk] at hkq
  rw [ht] at htq
  rw [schemaConfigs, kafka, bind_ok hk, bind_ok rfl, bind_ok ht, if_pos (by simpa using hdefects),
    join_errors fun e he => defects_ne_nil he]
  refine ⟨rfl, ?_⟩
  rw [alarms_append, alarms_append, alarms_append, hkq rfl, htq rfl]
  rfl

end Flycatcher.Configuration
