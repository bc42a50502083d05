import Flycatcher.Literals
import Flycatcher.PublishFrames
import Mathlib.Data.List.Basic
import Mathlib.Data.List.Nodup

namespace Flycatcher.SchemaAssembly

open Library.TextStreams Library.Floats CsvRow Datums Literals Publish PublishFrames

/-- The functions of Avro that a schema is assembled with: the constructor of RecordSchema,
addField and the constructor of ValidSchema. In place of an exception there is its text. -/
structure AvroSchemas where
  recordSchema : Str → Except Str RecordSchema
  addField : RecordSchema → Str → AvroType → Except Str RecordSchema
  validSchema : RecordSchema → Except Str RecordSchema

/-- A record schema begins without fields, a field goes behind the others if it has
another name, and a schema that is valid keeps its fields. -/
structure AvroSchemas.Lawful (avro : AvroSchemas) : Prop where
  recordSchema_fields : ∀ {name schema}, avro.recordSchema name = .ok schema → schema.fields = []
  addField_fields : ∀ {schema name type schema'}, avro.addField schema name type = .ok schema' →
    name ∉ schema.fields.map Prod.fst ∧ schema'.fields = schema.fields ++ [(name, type)]
  validSchema_fields : ∀ {schema schema'}, avro.validSchema schema = .ok schema' →
    schema'.fields = schema.fields

/-- A record has a datum for each field, fieldIndex finds the position of a name that is
there once, and setFieldAt sets the datum at a position. -/
structure LawfulRecords (libraries : Libraries) : Prop where
  record_length : ∀ schema, (libraries.record schema).length = schema.fields.length
  fieldIndex_eq : ∀ {schema k name type}, (schema.fields.map Prod.fst).Nodup →
    schema.fields[k]? = some (name, type) → libraries.fieldIndex schema name = .ok k
  setFieldAt_eq : ∀ {record k} datum, k < record.length →
    libraries.setFieldAt record k datum = record.set k datum

def addColumn (avro : AvroSchemas) (config : SchemaConfig) (record : RecordSchema) (field : Str) :
    Except Exception RecordSchema :=
  (avro.addField record (config.fieldName field) (avroTypeFor (config.typeName field))).mapError .avro

def assembleSchema (avro : AvroSchemas) (config : SchemaConfig) : Except Exception RecordSchema := do
  let record ← (avro.recordSchema (config.name ++ "_msg".toList)).mapError .avro
  let record ← config.columns.foldlM (addColumn avro config) record
  (avro.validSchema record).mapError .avro

inductive Literal (type value : Str) : Prop
  | float (htype : type = floatType) {x : ℚ} (hvalue : FloatLiteral binary32 value x)
  | double (htype : type = doubleType) {x : ℚ} (hvalue : FloatLiteral binary64 value x)
  | int (htype : type = intType) {n : Int} (hvalue : IntegerLiteral 32 value n)
  | long (htype : type = longType) {n : Int} (hvalue : IntegerLiteral 64 value n)
  | free (htype : type ∉ [floatType, doubleType, intType, longType])

inductive Underflows (type value : Str) : Prop
  | float (htype : type = floatType) {x : ℚ} (hvalue : FloatLiteral binary32 value x)
      (hunder : binary32.Underflows x)
  | double (htype : type = doubleType) {x : ℚ} (hvalue : FloatLiteral binary64 value x)
      (hunder : binary64.Underflows x)

def datumTypes : List Str := [stringType, floatType, doubleType, intType, longType]

section Loops

variable (libraries : Libraries) (maxAge : Option (Str × Int)) (time : Nat → Int)
  (config : SchemaConfig) (cells : Str → Str)

def AgeAccepted : List Str → Prop
  | [] => True
  | field :: columns =>
      checkAge maxAge (time columns.length) (config.fieldName field) (cells field) = .ok () ∧
        AgeAccepted columns

inductive Reads : List Str → List Datum → Prop
  | nil : Reads [] []
  | cons {field : Str} {columns : List Str} {datum : Datum} {data : List Datum}
      (hread : readCell maxAge (time columns.length) config field (cells field) = .ok datum)
      (hreads : Reads columns data) : Reads (field :: columns) (datum :: data)

/-- Every position of the record is set once, by the column of that position,
to a datum that has the type of the field. -/
def Built (row : CSVRow) : Prop :=
  ∃ record, (fillRecord libraries maxAge time config config.columns
      (libraries.record config.schema) row).1 =
      .ok record ∧
    record.length = config.columns.length ∧
    ∀ k field, config.columns[k]? = some field →
      libraries.fieldIndex config.schema (config.fieldName field) = .ok k ∧
      ∃ datum, createDatumForType (row.value field) (config.typeName field) =
          .ok datum ∧
        record[k]? = some datum ∧
        config.schema.fields[k]? = some (config.fieldName field, datum.avroType)

end Loops

theorem mapError_ok {α : Type} {r : Except Str α} {x : α}
    (h : r.mapError Exception.avro = .ok x) : r = .ok x := by
  cases r with
  | error what => cases h
  | ok y =>
      cases h
      rfl

theorem addColumns_ok {avro : AvroSchemas} (havro : avro.Lawful) {config : SchemaConfig}
    {columns : List Str} {record record' : RecordSchema}
    (hdistinct : (record.fields.map Prod.fst).Nodup)
    (h : columns.foldlM (addColumn avro config) record = .ok record') :
    (record'.fields.map Prod.fst).Nodup ∧ record'.fields = record.fields ++
      columns.map fun field => (config.fieldName field, avroTypeFor (config.typeName field)) := by
  induction columns generalizing record with
  | nil =>
      cases h
      exact ⟨hdistinct, (List.append_nil _).symm⟩
  | cons field columns ih =>
      rw [List.foldlM_cons] at h
      cases hadd : addColumn avro config record field with
      | error e =>
          rw [hadd] at h
          cases h
      | ok added =>
          rw [hadd] at h
          obtain ⟨hnew, hadded⟩ := havro.addField_fields (mapError_ok hadd)
          have hdistinct' : (added.fields.map Prod.fst).Nodup := by
            rw [hadded, List.map_append]
            exact List.Nodup.append hdistinct (List.nodup_singleton _)
              (List.disjoint_singleton.mpr hnew)
          obtain ⟨hnodup, hfields⟩ := ih hdistinct' h
          exact ⟨hnodup, by rw [hfields, hadded, List.map_cons, List.append_assoc]; rfl⟩

theorem assembleSchema_fields {avro : AvroSchemas} (havro : avro.Lawful) {config : SchemaConfig}
    {schema : RecordSchema} (h : assembleSchema avro config = .ok schema) :
    (schema.fields.map Prod.fst).Nodup ∧ schema.fields = config.columns.map fun field =>
      (config.fieldName field, avroTypeFor (config.typeName field)) := by
  rw [assembleSchema] at h
  cases hrecord : (avro.recordSchema (config.name ++ "_msg".toList)).mapError Exception.avro with
  | error e =>
      rw [hrecord] at h
      cases h
  | ok record =>
      rw [hrecord] at h
      cases hcolumns : config.columns.foldlM (addColumn avro config) record with
      | error e =>
          simp only [bind, Except.bind, hcolumns] at h
          cases h
      | ok record' =>
          simp only [bind, Except.bind, hcolumns] at h
          have hnil := havro.recordSchema_fields (mapError_ok hrecord)
          obtain ⟨hnodup, hfields⟩ := addColumns_ok havro (by rw [hnil]; exact List.nodup_nil) hcolumns
          rw [hnil, List.nil_append] at hfields
          rw [havro.validSchema_fields (mapError_ok h)]
          exact ⟨hnodup, hfields⟩

theorem underflows_float {value : Str} {x : ℚ} (h : FloatLiteral binary32 value x) :
    Underflows floatType value ↔ binary32.Underflows x := by
  constructor
  · rintro (⟨-, hvalue, hunder⟩ | ⟨htype, -, -⟩)
    · rwa [floatLiteral_unique h hvalue]
    · exact absurd htype (by decide)
  · exact .float rfl h

theorem underflows_double {value : Str} {x : ℚ} (h : FloatLiteral binary64 value x) :
    Underflows doubleType value ↔ binary64.Underflows x := by
  constructor
  · rintro (⟨htype, -, -⟩ | ⟨-, hvalue, hunder⟩)
    · exact absurd htype (by decide)
    · rwa [floatLiteral_unique h hvalue]
  · exact .double rfl h

theorem not_underflows_other {type value : Str} (hfloat : type ≠ floatType)
    (hdouble : type ≠ doubleType) : ¬Underflows type value := by
  rintro (⟨htype, -, -⟩ | ⟨htype, -, -⟩)
  · exact hfloat htype
  · exact hdouble htype

theorem createDatumForType_literal {type value : Str} (h : Literal type value) :
    (∃ datum, createDatumForType value type = .ok datum) ↔
      type ∈ datumTypes ∧ ¬Underflows type value := by
  have hmap {α : Type} {r : Except StdException α} {f : α → Datum} :
      (∃ datum, r.map f = .ok datum) ↔ ∃ x, r = .ok x := by
    cases r with
    | error e => exact iff_of_false (fun ⟨_, h⟩ => by cases h) (fun ⟨_, h⟩ => by cases h)
    | ok x => exact iff_of_true ⟨_, rfl⟩ ⟨_, rfl⟩
  cases h with
  | float htype hvalue =>
      subst htype
      have hconvert : createDatumForType value floatType = (stof value).map .float := rfl
      rw [hconvert, hmap, underflows_float hvalue, and_iff_right (by decide)]
      exact parseFloat_literal_iff hvalue "stof"
  | double htype hvalue =>
      subst htype
      have hconvert : createDatumForType value doubleType = (stod value).map .double := rfl
      rw [hconvert, hmap, underflows_double hvalue, and_iff_right (by decide)]
      exact parseFloat_literal_iff hvalue "stod"
  | int htype hvalue =>
      subst htype
      have hconvert : createDatumForType value intType = (stoi value).map .int := rfl
      rw [hconvert, hmap, and_iff_left (not_underflows_other (by decide) (by decide))]
      exact iff_of_true ⟨_, parseInteger_literal hvalue "stoi"⟩ (by decide)
  | long htype hvalue =>
      subst htype
      have hconvert : createDatumForType value longType = (stol value).map .long := rfl
      rw [hconvert, hmap, and_iff_left (not_underflows_other (by decide) (by decide))]
      exact iff_of_true ⟨_, parseInteger_literal hvalue "stol"⟩ (by decide)
  | free htype =>
      simp only [List.mem_cons, List.not_mem_nil, or_false, not_or] at htype
      obtain ⟨hf, hd, hi, hl⟩ := htype
      rw [and_iff_left (not_underflows_other hf hd), createDatumForType, if_neg hf, if_neg hd,
        if_neg hi, if_neg hl]
      by_cases hs : type = stringType
      · rw [if_pos hs]
        exact iff_of_true ⟨_, rfl⟩ (hs ▸ List.mem_cons_self)
      · rw [if_neg hs]
        simp [datumTypes, hs, hf, hd, hi, hl]

variable {libraries : Libraries} {maxAge : Option (Str × Int)} {time : Nat → Int}
  {config : SchemaConfig} {cells : Str → Str}

theorem readCell_ok_iff {now : Int} {field cell : Str} {datum : Datum} :
    readCell maxAge now config field cell = .ok datum ↔
      checkAge maxAge now (config.fieldName field) cell = .ok () ∧
        createDatumForType cell (config.typeName field) = .ok datum := by
  rw [readCell]
  cases checkAge maxAge now (config.fieldName field) cell with
  | error stop => exact ⟨fun h => (by cases h), fun h => (by cases h.1)⟩
  | ok _ =>
      cases createDatumForType cell (config.typeName field) with
      | error e => exact ⟨fun h => (by cases h), fun h => (by cases h.2)⟩
      | ok read =>
          constructor
          · intro h
            cases h
            exact ⟨rfl, rfl⟩
          · rintro ⟨-, h⟩
            cases h
            rfl

/-- Where the columns that are left belong to the last positions of the record,
the loop fills these with what it reads. -/
theorem recordFrom_ok_iff (hlibraries : LawfulRecords libraries) {columns : List Str} {k : Nat}
    {record result : Record} (hlength : record.length = k + columns.length)
    (hindex : ∀ i field, columns[i]? = some field →
      libraries.fieldIndex config.schema (config.fieldName field) = .ok (k + i)) :
    recordFrom libraries maxAge time config cells columns record = .ok result ↔
      ∃ data, Reads maxAge time config cells columns data ∧
        result = record.take k ++ data := by
  induction columns generalizing k record with
  | nil =>
      have htake : record.take k = record := List.take_of_length_le (by simp at hlength; omega)
      constructor
      · intro h
        cases h
        exact ⟨[], .nil, by rw [htake, List.append_nil]⟩
      · rintro ⟨data, hreads, rfl⟩
        cases hreads
        rw [htake, List.append_nil]
        rfl
  | cons field columns ih =>
      have hat : libraries.fieldIndex config.schema (config.fieldName field) = .ok k :=
        hindex 0 field rfl
      have hk : k < record.length := by
        rw [hlength, List.length_cons]
        omega
      rw [recordFrom]
      cases hread : readCell maxAge (time columns.length) config field (cells field) with
      | error stop =>
          rw [setColumn, hread]
          constructor
          · intro h
            cases h
          · rintro ⟨data, hreads, -⟩
            cases hreads with
            | cons hread' => cases hread.symm.trans hread'
      | ok datum =>
          have hrest := @ih (k + 1) (record.set k datum) (by simp at hlength ⊢; omega) (by
            intro i other hother
            rw [hindex (i + 1) other hother]
            congr 1
            omega)
          have htake : (record.set k datum).take (k + 1) = record.take k ++ [datum] := by
            rw [List.take_add_one, List.take_set_of_le (Nat.le_refl k), List.getElem?_set_self hk]
            rfl
          have hset : (setColumn libraries maxAge (time columns.length) config field (cells field)
              record).bind (recordFrom libraries maxAge time config cells columns) =
                recordFrom libraries maxAge time config cells columns (record.set k datum) := by
            rw [setColumn, hread, hat]
            simp only [bind, Except.bind, Except.mapError, pure, Except.pure,
              hlibraries.setFieldAt_eq datum hk]
          rw [hset, hrest, htake]
          constructor
          · rintro ⟨data, hreads, rfl⟩
            exact ⟨datum :: data, .cons hread hreads, by rw [List.append_assoc, List.singleton_append]⟩
          · rintro ⟨data, hreads, rfl⟩
            cases hreads with
            | @cons _ _ datum' data hread' hreads =>
                cases hread.symm.trans hread'
                exact ⟨data, hreads, by rw [List.append_assoc, List.singleton_append]⟩

theorem reads_length {columns : List Str} {data : List Datum}
    (h : Reads maxAge time config cells columns data) : data.length = columns.length := by
  induction h with
  | nil => rfl
  | cons hread hreads ih => rw [List.length_cons, List.length_cons, ih]

theorem reads_datum {columns : List Str} {data : List Datum}
    (h : Reads maxAge time config cells columns data) {k : Nat} {field : Str}
    (hk : columns[k]? = some field) :
    ∃ datum, createDatumForType (cells field) (config.typeName field) = .ok datum ∧
      data[k]? = some datum := by
  induction h generalizing k with
  | nil => cases hk
  | @cons head columns datum data hread hreads ih =>
      cases k with
      | zero =>
          cases hk
          exact ⟨datum, (readCell_ok_iff.mp hread).2, rfl⟩
      | succ k => exact ih hk

theorem reads_iff {columns : List Str}
    (hliteral : ∀ field ∈ columns, Literal (config.typeName field) (cells field)) :
    (∃ data, Reads maxAge time config cells columns data) ↔
      (∀ field ∈ columns, config.typeName field ∈ datumTypes ∧
        ¬Underflows (config.typeName field) (cells field)) ∧
        AgeAccepted maxAge time config cells columns := by
  induction columns with
  | nil => exact iff_of_true ⟨[], .nil⟩ ⟨fun _ h => (by cases h), trivial⟩
  | cons field columns ih =>
      have hdatum := createDatumForType_literal (hliteral field List.mem_cons_self)
      have hrest := ih fun other hm => hliteral other (List.mem_cons_of_mem field hm)
      rw [List.forall_mem_cons, AgeAccepted, ← hdatum]
      constructor
      · rintro ⟨data, hreads⟩
        cases hreads with
        | cons hread hreads =>
            obtain ⟨hage, hdatum⟩ := readCell_ok_iff.mp hread
            obtain ⟨htypes, hages⟩ := hrest.mp ⟨_, hreads⟩
            exact ⟨⟨⟨_, hdatum⟩, htypes⟩, hage, hages⟩
      · rintro ⟨⟨⟨datum, hdatum⟩, htypes⟩, hage, hages⟩
        obtain ⟨data, hreads⟩ := hrest.mpr ⟨htypes, hages⟩
        exact ⟨datum :: data, .cons (readCell_ok_iff.mpr ⟨hage, hdatum⟩) hreads⟩

/-- The record of a topic is built as its schema asks for exactly when there is a
datum for every configured type and no cell underflows, unless the age of the row
comes first. -/
theorem assembled_built_iff {avro : AvroSchemas} (havro : avro.Lawful)
    (hlibraries : LawfulRecords libraries) {row : CSVRow}
    (hassembled : assembleSchema avro config = .ok config.schema)
    (hliteral : ∀ field ∈ config.columns, Literal (config.typeName field) (row.value field)) :
    Built libraries maxAge time config row ↔
      (∀ field ∈ config.columns, config.typeName field ∈ datumTypes ∧
        ¬Underflows (config.typeName field) (row.value field)) ∧
      AgeAccepted maxAge time config row.value config.columns := by
  obtain ⟨hnodup, hfields⟩ := assembleSchema_fields havro hassembled
  have hfield {k : Nat} {field : Str} (hk : config.columns[k]? = some field) :
      config.schema.fields[k]? =
        some (config.fieldName field, avroTypeFor (config.typeName field)) := by
    rw [hfields, List.getElem?_map, hk]
    rfl
  have hindex {k : Nat} {field : Str} (hk : config.columns[k]? = some field) :
      libraries.fieldIndex config.schema (config.fieldName field) = .ok k :=
    hlibraries.fieldIndex_eq hnodup (hfield hk)
  have hlength : (libraries.record config.schema).length = 0 + config.columns.length := by
    rw [hlibraries.record_length, hfields, List.length_map, Nat.zero_add]
  have hfill (record : Record) := @recordFrom_ok_iff libraries maxAge time config row.value hlibraries
    config.columns 0 (libraries.record config.schema) record hlength (by
      intro i field hi
      rw [Nat.zero_add]
      exact hindex hi)
  rw [← reads_iff hliteral, Built]
  simp only [fillRecord_fst, hfill]
  constructor
  · rintro ⟨record, ⟨data, hreads, -⟩, -⟩
    exact ⟨data, hreads⟩
  · rintro ⟨data, hreads⟩
    refine ⟨data, ⟨data, hreads, rfl⟩, reads_length hreads, ?_⟩
    intro k field hk
    obtain ⟨datum, hdatum, hget⟩ := reads_datum hreads hk
    refine ⟨hindex hk, datum, hdatum, hget, ?_⟩
    rw [hfield hk, createDatumForType_avroType hdatum]

def plainSchemas : AvroSchemas where
  recordSchema name := .ok ⟨name, []⟩
  addField schema name type :=
    if (schema.fields.map Prod.fst).contains name then
      .error ("Cannot add duplicate name: ".toList ++ name)
    else .ok { schema with fields := schema.fields ++ [(name, type)] }
  validSchema schema := .ok schema

theorem plainSchemas_lawful : plainSchemas.Lawful where
  recordSchema_fields h := by
    cases h
    rfl
  addField_fields {schema name type schema'} h := by
    have h : (if (schema.fields.map Prod.fst).contains name then _ else _) = _ := h
    split_ifs at h with hmem
    cases h
    rw [List.contains_iff_mem] at hmem
    exact ⟨hmem, rfl⟩
  validSchema_fields h := by
    cases h
    rfl

theorem withEncoder_lawful (encode : RecordSchema → Record → Except Str (List UInt8)) :
    LawfulRecords (.withEncoder encode) where
  record_length schema := List.length_map _
  fieldIndex_eq {schema k name type} hdistinct h := by
    obtain ⟨hk, hget⟩ := List.getElem?_eq_some_iff.mp h
    have hfind : schema.fields.findIdx? (fun field => field.1 = name) = some k := by
      rw [List.findIdx?_eq_some_iff_getElem]
      refine ⟨hk, by simp [hget], ?_⟩
      intro j hj hname
      have hname : schema.fields[j].1 = name := of_decide_eq_true hname
      have hj' : j < (schema.fields.map Prod.fst).length := by
        rw [List.length_map]
        omega
      have hsame : (schema.fields.map Prod.fst)[j]? = (schema.fields.map Prod.fst)[k]? := by
        rw [List.getElem?_map, List.getElem?_map, h, List.getElem?_eq_getElem (by omega)]
        simp [hname]
      have hjk := (List.getElem?_inj hj' hdistinct).mp hsame
      omega
    simp only [Libraries.withEncoder, hfind]
  setFieldAt_eq datum h := rfl

def typedTopic (type : Str) : SchemaConfig :=
  ⟨['t'], ['a'], [['a'], ['b']], .ofList [(['a'], ['x'])], .ofList [(['b'], type)],
    ⟨"t_msg".toList, [(['x'], .string), (['b'], avroTypeFor type)]⟩, 5⟩

def numberedRow : CSVRow := (CSVRow.empty.assign ['a'] ['q']).assign ['b'] ['-', '7']

theorem seven_literal : FloatLiteral binary32 ['-', '7'] 7 := by
  have hseven := UnsignedFloat.whole (List.cons_ne_nil '7' []) (List.forall_mem_singleton.mpr rfl)
    Exponent.absent
  have hvalue : (decimal ['7'] * 10 ^ (0 : Int) : ℚ) = 7 := by
    rw [zpow_zero, mul_one]
    rfl
  rw [hvalue] at hseven
  exact .minus hseven (by norm_num [Format.largest, Format.spacing, binary32])

theorem assembled_built_renamed :
    Built recordingLibraries none (fun _ => 0) (typedTopic floatType) numberedRow := by
  have hcell : CSVRow.value numberedRow ['b'] = ['-', '7'] := value_assign_self _ _ _
  apply (@assembled_built_iff recordingLibraries none (fun _ => 0) (typedTopic floatType) plainSchemas
    plainSchemas_lawful (withEncoder_lawful _) numberedRow rfl _).mpr
  · refine ⟨?_, rfl, rfl, trivial⟩
    intro field hm
    rcases List.mem_pair.mp hm with rfl | rfl
    · exact ⟨by decide, not_underflows_other (by decide) (by decide)⟩
    · refine ⟨by decide, ?_⟩
      have hfloat : (typedTopic floatType).typeName ['b'] = floatType := by decide
      rw [hcell, hfloat, underflows_float seven_literal]
      exact not_underflows (by norm_num [binary32])
  · intro field hm
    rcases List.mem_pair.mp hm with rfl | rfl
    · exact .free (by decide)
    · rw [hcell]
      exact .float (by decide) seven_literal

def booleanType : Str := "boolean".toList

/-- A type without a datum is assembled as a string, and no row can be read. -/
theorem assembled_unbuilt :
    ∃ avro config row, AvroSchemas.Lawful avro ∧ LawfulRecords recordingLibraries ∧
      assembleSchema avro config = .ok config.schema ∧
      (∀ field ∈ config.columns, Literal (config.typeName field) (CSVRow.value row field)) ∧
      ¬Built recordingLibraries none (fun _ => 0) config row := by
  refine ⟨plainSchemas, typedTopic booleanType, numberedRow, plainSchemas_lawful,
    withEncoder_lawful _, rfl, ?_, ?_⟩
  · intro field hm
    rcases List.mem_pair.mp hm with rfl | rfl <;> exact .free (by decide)
  · rintro ⟨record, hfill, -⟩
    have hstop : (fillRecord recordingLibraries none (fun _ => 0) (typedTopic booleanType)
        (typedTopic booleanType).columns (recordingLibraries.record (typedTopic booleanType).schema)
        numberedRow).1 = .error (.thrown (.std (.logicError "Unknown datum type"))) := by decide
    rw [hstop] at hfill
    cases hfill

end Flycatcher.SchemaAssembly
