import Flycatcher.Consumer
import Flycatcher.Startup

namespace Flycatcher.EndToEnd

open Library.TextStreams Library.YamlNodes Flycatcher.Configuration CsvRoundTrip Datums Transformers
open Publish PublishDelivery SchemaAssembly PublishFrames FileStream Startup Consumer

def processor (settings : Settings) (libraries : Libraries) (answers : Nat → Answers) : Setup Nat :=
  ⟨settings.transformers, libraries, settings.maxAge, answers⟩

/-- What the document asks for of a record: the entries of transforms run on it, and
of the cells that this gives the key and the columns. -/
def messageOf {ν : Type} (yaml : Nodes ν) (config : ν) (it : Position ν) (names : List Str)
    (record : List Cell) : Str × Record :=
  let cells := (runSteps ((entries yaml config).foldl kept [])
    (recordRow names (record.map Cell.text))).value
  (cells (configOf yaml config it).keyColumn,
    (configOf yaml config it).columns.map fun field => .string (cells field))

variable {ν : Type} {yaml : Nodes ν}

theorem addSchemas_only {avro : AvroSchemas} {get : Str → Option Int32} {topic : Str}
    {config : SchemaConfig} {m : SchemaMap}
    (h : SchemaIds.schemas avro get ((∅ : SchemaMap).insertIfNew topic config) = .ok m) :
    ∃ c, Assembled avro get topic config c ∧ m.toList = [(topic, c)] := by
  rw [SchemaIds.schemas] at h
  have hlist : ((∅ : SchemaMap).insertIfNew topic config).toList = [(topic, config)] := rfl
  rw [hlist, List.foldlM_cons] at h
  cases hadd : SchemaIds.addSchema avro get ∅ (topic, config) with
  | error e =>
      rw [hadd] at h
      cases h
  | ok next =>
      rw [hadd] at h
      obtain ⟨c, hc, rfl⟩ := addSchema_ok hadd
      refine ⟨c, hc, ?_⟩
      cases h
      rfl

theorem assembled_unique {avro : AvroSchemas} {get : Str → Option Int32} {topic : Str}
    {config c c' : SchemaConfig} (h : Assembled avro get topic config c)
    (h' : Assembled avro get topic config c') : c = c' := by
  obtain ⟨schema, hschema, rfl⟩ := h
  obtain ⟨schema', hschema', rfl⟩ := h'
  rw [hschema] at hschema'
  cases hschema'
  rfl

theorem configure_only {avro : AvroSchemas} {get : Str → Option Int32} {config : ν}
    {settings : Settings} (h : (Configuration.configure yaml avro get config).result = .ok settings)
    {it : Position ν} (hone : topics yaml config = [it]) {c : SchemaConfig}
    (hc : Assembled avro get (textOf yaml it.first) (configOf yaml config it) c) :
    settings.schemas.toList = [(textOf yaml it.first, c)] := by
  obtain ⟨haccepted, -⟩ := configure_ok h
  obtain ⟨-, honly⟩ := schemas_ok haccepted.schemas
  rw [topicsOf, hone, List.foldl_cons, List.foldl_nil] at honly
  obtain ⟨c', hc', hschemas⟩ := addSchemas_only honly
  rw [hschemas, assembled_unique hc hc']

theorem texts_of_document {avro : AvroSchemas} {get : Str → Option Int32} {config : ν}
    {settings : Settings} (h : (Configuration.configure yaml avro get config).result = .ok settings)
    (hage : ageOf yaml config = none) {it : Position ν} {c : SchemaConfig}
    (hc : Assembled avro get (textOf yaml it.first) (configOf yaml config it) c)
    (htypes : ∀ field ∈ (configOf yaml config it).columns,
      (configOf yaml config it).typeName field = stringType)
    (havro : avro.Lawful) {libraries : Libraries} (hlibraries : LawfulRecords libraries)
    (answers : Nat → Answers) :
    Texts (processor settings libraries answers) avro c := by
  obtain ⟨haccepted, -⟩ := configure_ok h
  obtain ⟨schema, hschema, rfl⟩ := hc
  exact ⟨havro, hlibraries, hschema, htypes, (maxAgeSetting_ok haccepted.maxAge).trans hage⟩

theorem textsOf_document {avro : AvroSchemas} {get : Str → Option Int32} {config : ν}
    {settings : Settings} (h : (Configuration.configure yaml avro get config).result = .ok settings)
    {it : Position ν} {c : SchemaConfig}
    (hc : Assembled avro get (textOf yaml it.first) (configOf yaml config it) c)
    (libraries : Libraries) (answers : Nat → Answers) (names : List Str) (record : List Cell) :
    textsOf (processor settings libraries answers) names c record =
      messageOf yaml config it names record := by
  obtain ⟨haccepted, -⟩ := configure_ok h
  obtain ⟨schema, -, rfl⟩ := hc
  rw [textsOf, messageOf, operate_eq_runSteps, processor,
    (transformersOf_ok haccepted.transformers).1]

def appended : Document :=
  .map [entry "kafka" (.map [entry "client.id" (.scalar ['c'])]), entry "column_map" (.map []),
    entry "column_type_transforms" (.map []),
    entry "type_map" (.map [entry "t" (.map
      [entry "key_column" (.scalar ['b']), entry "columns" (.sequence [.scalar ['a']])])]),
    entry "transforms" (.sequence
      [.map [entry "column" (.scalar ['a']), entry "type" (.scalar appendType),
        entry "from_column" (.scalar ['b'])]])]

def appending : Libraries :=
  .withEncoder fun _ record =>
    if record = [.string ['x', 'y']] then .ok [4, 120, 121] else .error []

def readAppended (id : Int) (encoded : List UInt8) : Option Record :=
  if id = 5 ∧ encoded = [4, 120, 121] then some [.string ['x', 'y']] else none

def firstColumn : SchemaConfig :=
  ⟨['t'], ['b'], [['a']], ∅, ∅, ⟨"t_msg".toList, [(['a'], .string)]⟩, 5⟩

theorem appending_answered (settings : Settings) :
    Answered (processor settings appending fun _ => acceptingAnswers) (['t'], firstColumn) := by
  intro i
  exact ⟨⟨.noError, List.mem_singleton_self _, by decide⟩, fun h => absurd h (by decide)⟩

theorem appending_decodes (settings : Settings) :
    Decodes (processor settings appending fun _ => acceptingAnswers) (['t'], firstColumn)
      readAppended := by
  intro id hid record encoded hencode
  obtain ⟨-, rfl⟩ | ⟨h, -⟩ := hid
  · have hencode : (if record = [.string ['x', 'y']] then .ok [4, 120, 121] else .error []) =
        (.ok encoded : Except Str (List UInt8)) := hencode
    split_ifs at hencode with hrecord
    cases hencode
    rw [hrecord]
    rfl
  · exact absurd h (by decide)

end Flycatcher.EndToEnd
