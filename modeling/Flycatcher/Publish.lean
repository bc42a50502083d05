import Flycatcher.CsvRow
import Flycatcher.Datums
import Flycatcher.Library.Bytes
import Mathlib.Data.List.Basic

namespace Flycatcher.Publish

open Library.TextStreams Library.Bytes CsvRow Datums

inductive Exception
  | std (e : StdException)
  | avro (what : Str)
deriving DecidableEq

structure RecordSchema where
  name : Str
  fields : List (Str × AvroType)

structure SchemaConfig where
  name : Str
  keyColumn : Str
  columns : List Str
  columnMap : StringMap
  columnTypeTransforms : StringMap
  schema : RecordSchema
  schemaId : Int32

abbrev SchemaMap := Std.TreeMap Str SchemaConfig compare

abbrev Record := List Datum

def SchemaConfig.fieldName (config : SchemaConfig) (field : Str) : Str :=
  config.columnMap.getD field field

def SchemaConfig.typeName (config : SchemaConfig) (field : Str) : Str :=
  config.columnTypeTransforms.getD field stringType

inductive ErrorCode
  | noError
  | queueFull
  | other (code : Int)
deriving DecidableEq

/-- The functions of Avro that publish calls: the record of a new datum, fieldIndex,
setFieldAt, and for the encoder the validating one over a fresh memory stream. In
place of an exception there is its text. -/
structure Libraries where
  record : RecordSchema → Record
  fieldIndex : RecordSchema → Str → Except Str Nat
  setFieldAt : Record → Nat → Datum → Record
  encode : RecordSchema → Record → Except Str (List UInt8)

def Libraries.withEncoder (encode : RecordSchema → Record → Except Str (List UInt8)) : Libraries where
  record schema := schema.fields.map fun field => field.2.default
  fieldIndex schema name :=
    match schema.fields.findIdx? (fun field => field.1 = name) with
    | some index => .ok index
    | none => .error ("Invalid field name: ".toList ++ name)
  setFieldAt := List.set
  encode := encode

/-- What is answered while one row is published: the time when a topic has so
many columns left, the id of a schema that is added to the registry (no schema
object when there is none), and the codes of successive produce calls. -/
structure Answers where
  time : Str → Nat → Int
  add : Str → Option Int32
  produce : Str → List ErrorCode

structure Message where
  topic : Str
  value : List UInt8
  key : Str
deriving DecidableEq

structure ProduceCall where
  message : Message
  code : ErrorCode
deriving DecidableEq

def wrap (bits : Nat) (n : Int) : Int := n.bmod (2 ^ bits)

def daysSince (now timestamp : Int) : Int := wrap 32 ((wrap 64 (now - timestamp)).tdiv (60 * 60 * 24))

inductive Stop
  | tooOld
  | thrown (e : Exception)
deriving DecidableEq

def checkAge (maxAge : Option (Str × Int)) (now : Int) (fieldName cell : Str) : Except Stop Unit :=
  match maxAge with
  | none => .ok ()
  | some (column, days) =>
      if fieldName ≠ column then .ok ()
      else match stol cell with
        | .error e => .error (.thrown (.std e))
        | .ok timestamp => if daysSince now timestamp > days then .error .tooOld else .ok ()

def readCell (maxAge : Option (Str × Int)) (now : Int) (config : SchemaConfig) (field cell : Str) :
    Except Stop Datum := do
  checkAge maxAge now (config.fieldName field) cell
  (createDatumForType cell (config.typeName field)).mapError fun e => .thrown (.std e)

/-- g++ evaluates the second argument of setFieldAt, the conversion, before the
first one. -/
def setColumn (libraries : Libraries) (maxAge : Option (Str × Int)) (now : Int)
    (config : SchemaConfig) (field cell : Str) (record : Record) : Except Stop Record := do
  let datum ← readCell maxAge now config field cell
  let index ← (libraries.fieldIndex config.schema (config.fieldName field)).mapError
    fun what => .thrown (.avro what)
  return libraries.setFieldAt record index datum

/-- The loop over the columns of a topic. Its first use of row[field] creates
the column in the row. -/
def fillRecord (libraries : Libraries) (maxAge : Option (Str × Int)) (time : Nat → Int)
    (config : SchemaConfig) : List Str → Record → CSVRow → Except Stop Record × CSVRow
  | [], record, row => (.ok record, row)
  | field :: columns, record, row =>
      let row := row.touch field
      match setColumn libraries maxAge (time columns.length) config field (row.value field) record with
      | .ok record => fillRecord libraries maxAge time config columns record row
      | .error stop => (.error stop, row)

structure Serialized where
  result : Int
  out : List UInt8
  errstr : Str

/-- For a buffer whose length an int can hold. -/
def serialize (libraries : Libraries) (schema : RecordSchema) (schemaId : Int32) (datum : Record)
    (out : List UInt8) : Serialized :=
  match libraries.encode schema datum with
  | .error what => ⟨-1, out, what⟩
  | .ok encoded =>
      let framed := out ++ [0] ++ memory (htonl schemaId.toBitVec) ++ encoded
      ⟨framed.length, framed, []⟩

/-- The calls of the retry loop. The loop is not left when the answers run out. -/
def produceLoop (message : Message) : List ErrorCode → List ProduceCall × Bool
  | [] => ([], false)
  | .queueFull :: codes =>
      let (calls, left) := produceLoop message codes
      (⟨message, .queueFull⟩ :: calls, left)
  | code :: _ => ([⟨message, code⟩], true)

inductive Exit
  | returned
  | tooOld
  | thrown (e : Exception)
  /-- Use of the schema object that the registry did not return. -/
  | undefined
  /-- In the retry loop. -/
  | waiting
deriving DecidableEq

structure PublishState where
  row : CSVRow
  oldCount : Nat
  schemas : SchemaMap
  outData : List UInt8
  calls : List ProduceCall
  sigints : Nat

/-- The way out of publish and the state there, or the state in which the loop
goes on. -/
abbrev Outcome := Except (Exit × PublishState) PublishState

def stopped (s : PublishState) : Stop → Exit × PublishState
  | .tooOld => (.tooOld, { s with oldCount := s.oldCount + 1 })
  | .thrown e => (.thrown e, s)

def registerSchema (answers : Answers) (topic : Str) (config : SchemaConfig) (s : PublishState) :
    Except (Exit × PublishState) (Int32 × PublishState) :=
  if config.schemaId = -1 then
    match answers.add topic with
    | some id => .ok (id, { s with schemas := s.schemas.insert topic { config with schemaId := id } })
    | none => .error (.undefined, s)
  else .ok (config.schemaId, s)

def produce (answers : Answers) (topic : Str) (config : SchemaConfig) (s : PublishState) : Outcome :=
  let row := s.row.touch config.keyColumn
  let (calls, left) := produceLoop ⟨topic, s.outData, row.value config.keyColumn⟩ (answers.produce topic)
  let s := { s with row, calls := s.calls ++ calls }
  if left then .ok s else .error (.waiting, s)

def sendRecord (libraries : Libraries) (answers : Answers) (topic : Str) (config : SchemaConfig)
    (record : Record) (s : PublishState) : Outcome := do
  let (id, s) ← registerSchema answers topic config s
  let serialized := serialize libraries config.schema id record s.outData
  let s := { s with outData := serialized.out }
  if serialized.result = -1 then
    return { s with sigints := s.sigints + 1 }
  else
    produce answers topic config s

def publishTopic (libraries : Libraries) (maxAge : Option (Str × Int)) (answers : Answers)
    (topic : Str) (config : SchemaConfig) (s : PublishState) : Outcome :=
  let (filled, row) := fillRecord libraries maxAge (answers.time topic) config config.columns
    (libraries.record config.schema) s.row
  let s := { s with row }
  match filled with
  | .error stop => .error (stopped s stop)
  | .ok record => sendRecord libraries answers topic config record s

def publishTopics (libraries : Libraries) (maxAge : Option (Str × Int)) (answers : Answers) :
    List (Str × SchemaConfig) → PublishState → Exit × PublishState
  | [], s => (.returned, s)
  | (topic, config) :: topics, s =>
      match publishTopic libraries maxAge answers topic config s with
      | .ok s => publishTopics libraries maxAge answers topics s
      | .error exit => exit

def publish (libraries : Libraries) (maxAge : Option (Str × Int)) (answers : Answers)
    (schemas : SchemaMap) (row : CSVRow) (oldCount : Nat) : Exit × PublishState :=
  publishTopics libraries maxAge answers schemas.toList ⟨row, oldCount, schemas, [], [], 0⟩

def recordFrom (libraries : Libraries) (maxAge : Option (Str × Int)) (time : Nat → Int)
    (config : SchemaConfig) (cells : Str → Str) : List Str → Record → Except Stop Record
  | [], record => .ok record
  | field :: columns, record =>
      (setColumn libraries maxAge (time columns.length) config field (cells field) record).bind
        (recordFrom libraries maxAge time config cells columns)

def frame (schemaId : Int32) (encoded : List UInt8) : List UInt8 :=
  0 :: (bigEndian schemaId.toBitVec ++ encoded)

theorem toList_distinct (schemas : SchemaMap) : schemas.toList.Pairwise fun a b => a.1 ≠ b.1 := by
  apply Std.TreeMap.distinct_keys_toList.imp
  intro a b hab he
  exact hab (Std.LawfulEqCmp.compare_eq_iff_eq.mpr he)

theorem row_touch_value (row : CSVRow) (c : Str) : (row.touch c).value = row.value :=
  funext (value_touch row c)

theorem row_touchAll_value (row : CSVRow) (looked : List Str) :
    (row.touchAll looked).value = row.value := by
  funext c
  exact value_touchAll row looked c

theorem fillRecord_fst (libraries : Libraries) (maxAge : Option (Str × Int)) (time : Nat → Int)
    (config : SchemaConfig) (columns : List Str) (record : Record) (row : CSVRow) :
    (fillRecord libraries maxAge time config columns record row).1 =
      recordFrom libraries maxAge time config row.value columns record := by
  induction columns generalizing record row with
  | nil => rfl
  | cons field columns ih =>
      rw [fillRecord, recordFrom]
      simp only [value_touch]
      cases setColumn libraries maxAge (time columns.length) config field (row.value field) record with
      | error stop => rfl
      | ok record' =>
          have h := ih record' (row.touch field)
          rw [row_touch_value] at h
          exact h

theorem fillRecord_snd (libraries : Libraries) (maxAge : Option (Str × Int)) (time : Nat → Int)
    (config : SchemaConfig) (columns : List Str) (record : Record) (row : CSVRow) :
    ∃ looked, (fillRecord libraries maxAge time config columns record row).2 = row.touchAll looked := by
  induction columns generalizing record row with
  | nil => exact ⟨[], rfl⟩
  | cons field columns ih =>
      rw [fillRecord]
      cases setColumn libraries maxAge (time columns.length) config field
        ((row.touch field).value field) record with
      | error stop => exact ⟨[field], rfl⟩
      | ok record' =>
          obtain ⟨looked, hl⟩ := ih record' (row.touch field)
          exact ⟨field :: looked, hl⟩

theorem serialize_ok {libraries : Libraries} {schema : RecordSchema} {datum : Record}
    {encoded : List UInt8} (h : libraries.encode schema datum = .ok encoded) (schemaId : Int32)
    (out : List UInt8) :
    (serialize libraries schema schemaId datum out).out = out ++ frame schemaId encoded ∧
      (serialize libraries schema schemaId datum out).result ≠ -1 := by
  rw [serialize, h]
  constructor
  · simp [memory_htonl, frame]
  · simp only
    omega

theorem serialize_error {libraries : Libraries} {schema : RecordSchema} {datum : Record} {what : Str}
    (h : libraries.encode schema datum = .error what) (schemaId : Int32) (out : List UInt8) :
    serialize libraries schema schemaId datum out = ⟨-1, out, what⟩ := by
  rw [serialize, h]

theorem produceLoop_noError (message : Message) (codes : List ErrorCode) :
    produceLoop message (.noError :: codes) = ([⟨message, .noError⟩], true) := rfl

theorem produceLoop_left (message : Message) (codes : List ErrorCode) :
    (produceLoop message codes).2 = true ↔ ∃ code ∈ codes, code ≠ .queueFull := by
  induction codes with
  | nil => simp [produceLoop]
  | cons code codes ih =>
      cases code with
      | noError => simp [produceLoop]
      | queueFull => simpa [produceLoop] using ih
      | other code => simp [produceLoop]

theorem produceLoop_ne_nil {message : Message} {codes : List ErrorCode}
    (h : (produceLoop message codes).2 = true) : (produceLoop message codes).1 ≠ [] := by
  cases codes with
  | nil => cases h
  | cons code codes => cases code <;> simp [produceLoop]

theorem produceLoop_calls {message : Message} {codes : List ErrorCode} {calls : List ProduceCall}
    {left : Bool} (h : produceLoop message codes = (calls, left)) :
    (∀ call ∈ calls, call.message = message) ∧ (calls = [] ↔ codes = []) := by
  induction codes generalizing calls with
  | nil =>
      cases h
      simp
  | cons code codes ih =>
      cases code with
      | noError | other =>
          cases h
          simp
      | queueFull =>
          rw [produceLoop] at h
          cases hrest : produceLoop message codes with
          | mk rest left' =>
              rw [hrest] at h
              cases h
              obtain ⟨hall, -⟩ := ih hrest
              refine ⟨List.forall_mem_cons.mpr ⟨rfl, hall⟩, by simp⟩

def schemaIdFor (answers : Answers) (topic : Str) (config : SchemaConfig) : Option Int32 :=
  if config.schemaId = -1 then answers.add topic else some config.schemaId

def withSchemaId (schemas : SchemaMap) (topic : Str) (config : SchemaConfig) (id : Int32) : SchemaMap :=
  if config.schemaId = -1 then schemas.insert topic { config with schemaId := id } else schemas

def PublishState.touchAll (s : PublishState) (looked : List Str) : PublishState :=
  { s with row := s.row.touchAll looked }

def PublishState.sent (s : PublishState) (framed : List UInt8) (calls : List ProduceCall) :
    PublishState :=
  { s with outData := s.outData ++ framed, calls := s.calls ++ calls }

inductive Course (libraries : Libraries) (maxAge : Option (Str × Int)) (answers : Answers)
    (topic : Str) (config : SchemaConfig) (s : PublishState) : Outcome → Prop
  | stops (stop : Stop) (looked : List Str)
      (hstop : recordFrom libraries maxAge (answers.time topic) config s.row.value config.columns
        (libraries.record config.schema) = .error stop) :
      Course libraries maxAge answers topic config s (.error (stopped (s.touchAll looked) stop))
  | noSchema (record : Record) (looked : List Str)
      (hrecord : recordFrom libraries maxAge (answers.time topic) config s.row.value config.columns
        (libraries.record config.schema) = .ok record)
      (hid : schemaIdFor answers topic config = none) :
      Course libraries maxAge answers topic config s (.error (.undefined, s.touchAll looked))
  | unserialized (record : Record) (looked : List Str) (id : Int32) (what : Str)
      (hrecord : recordFrom libraries maxAge (answers.time topic) config s.row.value config.columns
        (libraries.record config.schema) = .ok record)
      (hid : schemaIdFor answers topic config = some id)
      (hencode : libraries.encode config.schema record = .error what) :
      Course libraries maxAge answers topic config s
        (.ok { s.touchAll looked with
          schemas := withSchemaId s.schemas topic config id, sigints := s.sigints + 1 })
  | produced (record : Record) (looked : List Str) (id : Int32) (encoded : List UInt8)
      (calls : List ProduceCall) (left : Bool)
      (hrecord : recordFrom libraries maxAge (answers.time topic) config s.row.value config.columns
        (libraries.record config.schema) = .ok record)
      (hid : schemaIdFor answers topic config = some id)
      (hencode : libraries.encode config.schema record = .ok encoded)
      (hcalls : produceLoop ⟨topic, s.outData ++ frame id encoded, s.row.value config.keyColumn⟩
        (answers.produce topic) = (calls, left)) :
      Course libraries maxAge answers topic config s
        (let s := { (s.touchAll looked).sent (frame id encoded) calls with
          schemas := withSchemaId s.schemas topic config id }
        if left then .ok s else .error (.waiting, s))

theorem registerSchema_eq (answers : Answers) (topic : Str) (config : SchemaConfig) (s : PublishState) :
    registerSchema answers topic config s =
      match schemaIdFor answers topic config with
      | some id => .ok (id, { s with schemas := withSchemaId s.schemas topic config id })
      | none => .error (.undefined, s) := by
  by_cases hid : config.schemaId = -1
  · rw [registerSchema, schemaIdFor, if_pos hid, if_pos hid]
    cases answers.add topic with
    | none => rfl
    | some id => simp only [withSchemaId, if_pos hid]
  · rw [registerSchema, schemaIdFor, if_neg hid, if_neg hid]
    simp only [withSchemaId, if_neg hid]

theorem touchAll_concat (row : CSVRow) (looked : List Str) (c : Str) :
    (row.touchAll looked).touch c = row.touchAll (looked ++ [c]) := by
  simp [CSVRow.touchAll]

theorem publishTopic_course (libraries : Libraries) (maxAge : Option (Str × Int)) (answers : Answers)
    (topic : Str) (config : SchemaConfig) (s : PublishState) :
    Course libraries maxAge answers topic config s
      (publishTopic libraries maxAge answers topic config s) := by
  have hfst := fillRecord_fst libraries maxAge (answers.time topic) config config.columns
    (libraries.record config.schema) s.row
  obtain ⟨looked, hsnd⟩ := fillRecord_snd libraries maxAge (answers.time topic) config config.columns
    (libraries.record config.schema) s.row
  rw [publishTopic]
  cases hfill : fillRecord libraries maxAge (answers.time topic) config config.columns
    (libraries.record config.schema) s.row with
  | mk filled row =>
      rw [hfill] at hfst hsnd
      obtain rfl : row = s.row.touchAll looked := hsnd
      cases filled with
      | error stop => exact .stops stop looked hfst.symm
      | ok record =>
          simp only [sendRecord, registerSchema_eq]
          cases hid : schemaIdFor answers topic config with
          | none => exact .noSchema record looked hfst.symm hid
          | some id =>
              cases hencode : libraries.encode config.schema record with
              | error what =>
                  simp only [bind, Except.bind, serialize_error hencode, if_true]
                  exact .unserialized record looked id what hfst.symm hid hencode
              | ok encoded =>
                  obtain ⟨hout, hresult⟩ := serialize_ok hencode id s.outData
                  simp only [bind, Except.bind, hout, if_neg hresult, produce, touchAll_concat,
                    value_touchAll]
                  cases hcalls : produceLoop ⟨topic, s.outData ++ frame id encoded,
                    s.row.value config.keyColumn⟩ (answers.produce topic) with
                  | mk calls left =>
                      exact .produced record (looked ++ [config.keyColumn]) id encoded calls left
                        hfst.symm hid hencode hcalls

theorem publishTopic_ok {libraries : Libraries} {maxAge : Option (Str × Int)} {answers : Answers}
    {topic : Str} {config : SchemaConfig} {s t : PublishState}
    (h : publishTopic libraries maxAge answers topic config s = .ok t) :
    ∃ record id, recordFrom libraries maxAge (answers.time topic) config s.row.value config.columns
        (libraries.record config.schema) = .ok record ∧
      schemaIdFor answers topic config = some id ∧
      ((∃ what, libraries.encode config.schema record = .error what ∧ t.outData = s.outData ∧
          t.calls = s.calls ∧ t.sigints = s.sigints + 1) ∨
        ∃ encoded calls, libraries.encode config.schema record = .ok encoded ∧
          produceLoop ⟨topic, s.outData ++ frame id encoded, s.row.value config.keyColumn⟩
            (answers.produce topic) = (calls, true) ∧
          t.outData = s.outData ++ frame id encoded ∧ t.calls = s.calls ++ calls ∧
          t.sigints = s.sigints) := by
  have hcourse := publishTopic_course libraries maxAge answers topic config s
  rw [h] at hcourse
  generalize ho : Except.ok t = outcome at hcourse
  cases hcourse with
  | stops | noSchema => cases ho
  | unserialized record looked id what hrecord hid hencode =>
      cases ho
      exact ⟨record, id, hrecord, hid, .inl ⟨what, hencode, rfl, rfl, rfl⟩⟩
  | produced record looked id encoded calls left hrecord hid hencode hcalls =>
      cases left with
      | false => cases ho
      | true =>
          cases ho
          exact ⟨record, id, hrecord, hid, .inr ⟨encoded, calls, hencode, hcalls, rfl, rfl, rfl⟩⟩

theorem publishTopics_row (libraries : Libraries) (maxAge : Option (Str × Int)) (answers : Answers)
    (topics : List (Str × SchemaConfig)) (s : PublishState) :
    ∃ looked, (publishTopics libraries maxAge answers topics s).2.row = s.row.touchAll looked := by
  have hjoin (row : CSVRow) (xs ys : List Str) :
      (row.touchAll xs).touchAll ys = row.touchAll (xs ++ ys) := by
    simp [CSVRow.touchAll]
  induction topics generalizing s with
  | nil => exact ⟨[], rfl⟩
  | cons entry topics ih =>
      obtain ⟨topic, config⟩ := entry
      rw [publishTopics]
      have hnext {s' : PublishState} {looked : List Str} (hs : s'.row = s.row.touchAll looked) :
          ∃ looked, (publishTopics libraries maxAge answers topics s').2.row =
            s.row.touchAll looked := by
        obtain ⟨looked', hl⟩ := ih s'
        exact ⟨looked ++ looked', by rw [hl, hs, hjoin]⟩
      have hcourse := publishTopic_course libraries maxAge answers topic config s
      generalize publishTopic libraries maxAge answers topic config s = outcome at hcourse
      cases hcourse with
      | stops stop looked => cases stop <;> exact ⟨looked, rfl⟩
      | noSchema record looked => exact ⟨looked, rfl⟩
      | unserialized record looked => exact hnext rfl
      | produced record looked id encoded calls left =>
          cases left
          · exact ⟨looked, rfl⟩
          · exact hnext rfl

theorem publishTopic_value {libraries : Libraries} {maxAge : Option (Str × Int)} {answers : Answers}
    {topic : Str} {config : SchemaConfig} {s t : PublishState}
    (h : publishTopic libraries maxAge answers topic config s = .ok t) :
    t.row.value = s.row.value := by
  have hrow := publishTopics_row libraries maxAge answers [(topic, config)] s
  rw [publishTopics, h] at hrow
  obtain ⟨looked, hrow⟩ := hrow
  exact (congrArg CSVRow.value hrow).trans (row_touchAll_value s.row looked)

theorem publishTopics_oldCount (libraries : Libraries) (maxAge : Option (Str × Int))
    (answers : Answers) (topics : List (Str × SchemaConfig)) (s : PublishState) :
    (publishTopics libraries maxAge answers topics s).2.oldCount =
      if (publishTopics libraries maxAge answers topics s).1 = .tooOld then s.oldCount + 1
      else s.oldCount := by
  induction topics generalizing s with
  | nil => rfl
  | cons entry topics ih =>
      obtain ⟨topic, config⟩ := entry
      rw [publishTopics]
      have hcourse := publishTopic_course libraries maxAge answers topic config s
      generalize publishTopic libraries maxAge answers topic config s = outcome at hcourse
      cases hcourse with
      | stops stop looked => cases stop <;> rfl
      | noSchema record looked => rfl
      | unserialized record looked => exact ih _
      | produced record looked id encoded calls left =>
          cases left
          · rfl
          · exact ih _

theorem publish_oldCount_lt (libraries : Libraries) (maxAge : Option (Str × Int)) (answers : Answers)
    (schemas : SchemaMap) (row : CSVRow) (oldCount : Nat) :
    oldCount < (publish libraries maxAge answers schemas row oldCount).2.oldCount ↔
      (publish libraries maxAge answers schemas row oldCount).1 = .tooOld := by
  rw [publish, publishTopics_oldCount]
  split_ifs with h
  · simp [h]
  · simp [h]

end Flycatcher.Publish
