import Flycatcher.FileStream
import Flycatcher.SchemaIds

namespace Flycatcher.Consumer

open Library.TextStreams CsvRow CsvRoundTrip Datums Transformers Publish PublishDelivery
open Serialization SchemaAssembly SchemaIds HandleRows FileStream

/-- What a consumer of the topic makes of the messages that the broker took: the
key, and the record that the schema of the id gives. -/
def consume (decode : Int → List UInt8 → Option Record) (topic : Str) (calls : List ProduceCall) :
    List (Option (Str × Record)) :=
  (calls.filter fun call => call.message.topic = topic && call.code = .noError).map fun call => do
    let (id, encoded) ← readFrame call.message.value
    let record ← decode id encoded
    return (call.message.key, record)

section Records

variable {ι : Type} (setup : Setup ι) (entry : Str × SchemaConfig)

def recordAt (i : ι) (row : CSVRow) : Except Stop Record :=
  recordOf setup.libraries setup.maxAge (setup.answers i) (operate setup.chain row).value entry

def throwsAt (i : ι) (row : CSVRow) : Bool :=
  match recordAt setup entry i row with
  | .error (.thrown _) => true
  | _ => false

def oldAt (i : ι) (row : CSVRow) : Bool :=
  match recordAt setup entry i row with
  | .error .tooOld => true
  | _ => false

def takenAt (i : ι) (row : CSVRow) : Option (Str × Record) :=
  match recordAt setup entry i row with
  | .error _ => none
  | .ok record =>
      if (setup.libraries.encode entry.2.schema record).toBool &&
          finalAnswer ((setup.answers i).produce entry.1) = some .noError then
        some ((operate setup.chain row).value entry.2.keyColumn, record)
      else none

def calm (rows : List (CSVRow × ι)) : List (CSVRow × ι) :=
  rows.takeWhile fun row => !throwsAt setup entry row.2 row.1

def Answered : Prop :=
  ∀ i, (∃ code ∈ (setup.answers i).produce entry.1, code ≠ .queueFull) ∧
    (entry.2.schemaId = -1 → (setup.answers i).add entry.1 ≠ none)

def Known (id : Int32) : Prop :=
  (entry.2.schemaId ≠ -1 ∧ id = entry.2.schemaId) ∨
    (entry.2.schemaId = -1 ∧ ∃ i, (setup.answers i).add entry.1 = some id)

def Decodes (decode : Int → List UInt8 → Option Record) : Prop :=
  ∀ id, Known setup entry id → ∀ record encoded,
    setup.libraries.encode entry.2.schema record = .ok encoded → decode id.toInt encoded = some record

def OnlyTopic (schemas : SchemaMap) : Prop :=
  ∃ id, (id = entry.2.schemaId ∨ Known setup entry id) ∧
    schemas.toList = [(entry.1, { entry.2 with schemaId := id })]

end Records

variable {ι : Type} {setup : Setup ι} {entry : Str × SchemaConfig}
  {decode : Int → List UInt8 → Option Record}

theorem consume_append (topic : Str) (calls calls' : List ProduceCall) :
    consume decode topic (calls ++ calls') =
      consume decode topic calls ++ consume decode topic calls' := by
  rw [consume, List.filter_append, List.map_append]
  rfl

theorem recordFrom_withId (libraries : Libraries) (maxAge : Option (Str × Int)) (time : Nat → Int)
    (config : SchemaConfig) (id : Int32) (cells : Str → Str) (columns : List Str) (record : Record) :
    recordFrom libraries maxAge time { config with schemaId := id } cells columns record =
      recordFrom libraries maxAge time config cells columns record := by
  induction columns generalizing record with
  | nil => rfl
  | cons field columns ih =>
      rw [recordFrom, recordFrom]
      congr 1
      funext record'
      exact ih record'

theorem insert_only {schemas : SchemaMap} {topic : Str} {config : SchemaConfig}
    (h : schemas.toList = [(topic, config)]) (config' : SchemaConfig) :
    (schemas.insert topic config').toList = [(topic, config')] := by
  have hentry : (topic, config) ∈ schemas.toList := by
    rw [h]
    exact List.mem_singleton_self _
  have hmem : schemas.contains topic = true := by
    rw [← Std.TreeMap.isSome_getElem?_eq_contains,
      Std.TreeMap.mem_toList_iff_getElem?_eq_some.mp hentry]
    rfl
  have hsize : (schemas.insert topic config').size = 1 := by
    rw [Std.TreeMap.size_insert, if_pos hmem,
      ← Std.TreeMap.length_toList, h]
    rfl
  have hget : (topic, config') ∈ (schemas.insert topic config').toList := by
    rw [Std.TreeMap.mem_toList_iff_getElem?_eq_some, Std.TreeMap.getElem?_insert_self]
  rw [← Std.TreeMap.length_toList] at hsize
  obtain ⟨other, hother⟩ := List.length_eq_one_iff.mp hsize
  rw [hother] at hget ⊢
  rw [List.mem_singleton.mp hget]

theorem known_of_schemaIdFor {id id' : Int32} (hid : id = entry.2.schemaId ∨ Known setup entry id)
    {i : ι} (h : schemaIdFor (setup.answers i) entry.1 { entry.2 with schemaId := id } = some id') :
    Known setup entry id' := by
  rw [schemaIdFor] at h
  by_cases hnone : id = -1
  · rw [if_pos hnone] at h
    have hstart : entry.2.schemaId = -1 := by
      rcases hid with rfl | ⟨hne, rfl⟩ | ⟨hstart, -⟩
      · exact hnone
      · exact hnone
      · exact hstart
    exact .inr ⟨hstart, i, h⟩
  · rw [if_neg hnone] at h
    obtain rfl : id = id' := Option.some.inj h
    rcases hid with rfl | hid
    · exact .inl ⟨hnone, rfl⟩
    · exact hid

theorem withSchemaId_only {schemas : SchemaMap} {id id' : Int32}
    (hid : id = entry.2.schemaId ∨ Known setup entry id)
    (h : schemas.toList = [(entry.1, { entry.2 with schemaId := id })])
    (hid' : Known setup entry id') :
    OnlyTopic setup entry
      (withSchemaId schemas entry.1 { entry.2 with schemaId := id } id') := by
  rw [withSchemaId]
  split_ifs
  · exact ⟨id', .inr hid', insert_only h _⟩
  · exact ⟨id, hid, h⟩

/-- The calls for one message are worth one message to the consumer when the
broker takes it in the end, and nothing otherwise. -/
theorem consume_produced {topic key : Str} {id : Int32} {encoded : List UInt8} {record : Record}
    (hdecode : decode id.toInt encoded = some record) {codes : List ErrorCode}
    {calls : List ProduceCall}
    (h : produceLoop ⟨topic, frame id encoded, key⟩ codes = (calls, true)) :
    consume decode topic calls =
      if finalAnswer codes = some .noError then [some (key, record)] else [] := by
  obtain ⟨n, code, hcode, rfl⟩ := produceLoop_finalAnswer h
  have hframe : readFrame (frame id encoded) = some (id.toInt, encoded) := readFrame_header id encoded
  have hretries (message : Message) :
      consume decode topic (List.replicate n ⟨message, .queueFull⟩) = [] := by
    rw [consume, List.filter_eq_nil_iff.mpr]
    · rfl
    · intro call hm
      simp [List.eq_of_mem_replicate hm]
  rw [consume_append, hretries, List.nil_append, hcode]
  by_cases hc : code = .noError
  · simp [consume, hc, hframe, hdecode]
  · simp [consume, hc]

theorem throwsAt_iff (i : ι) (row : CSVRow) :
    throwsAt setup entry i row = true ↔ ∃ e, recordAt setup entry i row = .error (.thrown e) := by
  rw [throwsAt]
  cases recordAt setup entry i row with
  | ok record => simp
  | error stop => cases stop <;> simp

theorem oldAt_iff (i : ι) (row : CSVRow) :
    oldAt setup entry i row = true ↔ recordAt setup entry i row = .error .tooOld := by
  rw [oldAt]
  cases recordAt setup entry i row with
  | ok record => simp
  | error stop => cases stop <;> simp

theorem takenAt_error {i : ι} {row : CSVRow} {stop : Stop}
    (h : recordAt setup entry i row = .error stop) : takenAt setup entry i row = none := by
  rw [takenAt, h]

theorem takenAt_throws {i : ι} {row : CSVRow} (h : throwsAt setup entry i row = true) :
    takenAt setup entry i row = none := by
  obtain ⟨e, he⟩ := (throwsAt_iff i row).mp h
  exact takenAt_error he

theorem oldAt_throws {i : ι} {row : CSVRow} (h : throwsAt setup entry i row = true) :
    oldAt setup entry i row = false := by
  obtain ⟨e, he⟩ := (throwsAt_iff i row).mp h
  rw [oldAt, he]

theorem takenAt_unserialized {i : ι} {row : CSVRow} {record : Record} {what : Str}
    (h : recordAt setup entry i row = .ok record)
    (hencode : setup.libraries.encode entry.2.schema record = .error what) :
    takenAt setup entry i row = none := by
  rw [takenAt, h]
  simp [hencode, Except.toBool]

theorem takenAt_encoded {i : ι} {row : CSVRow} {record : Record} {encoded : List UInt8}
    (h : recordAt setup entry i row = .ok record)
    (hencode : setup.libraries.encode entry.2.schema record = .ok encoded) :
    takenAt setup entry i row =
      if finalAnswer ((setup.answers i).produce entry.1) = some .noError then
        some ((operate setup.chain row).value entry.2.keyColumn, record)
      else none := by
  rw [takenAt, h]
  simp [hencode, Except.toBool]

theorem publishRow_only (hanswered : Answered setup entry) (hdecodes : Decodes setup entry decode)
    {schemas : SchemaMap} (h : OnlyTopic setup entry schemas) (i : ι) (row : CSVRow)
    (oldCount : Nat) :
    ∃ exit t outcome, setup.publishRow i schemas row oldCount = (exit, t) ∧
      OnlyTopic setup entry t.schemas ∧
      consume decode entry.1 t.calls = (takenAt setup entry i row).toList.map some ∧
      outcomeOf exit = some outcome ∧
      (throwsAt setup entry i row = true ↔ ∃ e, outcome = .threw e) ∧
      (oldAt setup entry i row = true ↔ outcome = .ignored) := by
  obtain ⟨id, hid, hschemas⟩ := h
  obtain ⟨hleft, hadd⟩ := hanswered i
  let s : PublishState := ⟨operate setup.chain row, oldCount, schemas, [], [], 0⟩
  let config : SchemaConfig := { entry.2 with schemaId := id }
  have hpublish : setup.publishRow i schemas row oldCount =
      after (publishTopic setup.libraries setup.maxAge (setup.answers i) entry.1 config s) := by
    rw [Setup.publishRow, publish, hschemas, publishTopics]
    cases publishTopic setup.libraries setup.maxAge (setup.answers i) entry.1 config s <;> rfl
  have hrecordAt : recordFrom setup.libraries setup.maxAge ((setup.answers i).time entry.1) config
      s.row.value config.columns (setup.libraries.record config.schema) = recordAt setup entry i row :=
    recordFrom_withId ..
  have hcourse := publishTopic_course setup.libraries setup.maxAge (setup.answers i) entry.1 config s
  rw [hpublish, throwsAt_iff, oldAt_iff]
  generalize publishTopic setup.libraries setup.maxAge (setup.answers i) entry.1 config s = result
    at hcourse
  cases hcourse with
  | stops stop looked hstop =>
      rw [hrecordAt] at hstop
      rw [takenAt_error hstop, hstop]
      cases stop with
      | tooOld => exact ⟨_, _, .ignored, rfl, ⟨id, hid, hschemas⟩, rfl, rfl, by simp, by simp⟩
      | thrown e =>
          cases e <;> exact ⟨_, _, .threw _, rfl, ⟨id, hid, hschemas⟩, rfl, rfl, by simp, by simp⟩
  | noSchema record looked hrecord hnone =>
      -- the registry answers when the topic has no id
      rw [schemaIdFor] at hnone
      split_ifs at hnone with hstart
      rcases hid with rfl | ⟨hne, rfl⟩ | ⟨hstart', -⟩
      · exact absurd hnone (hadd hstart)
      · exact absurd hstart hne
      · exact absurd hnone (hadd hstart')
  | unserialized record looked id' what hrecord hid' hencode =>
      rw [hrecordAt] at hrecord
      rw [takenAt_unserialized hrecord hencode, hrecord]
      refine ⟨_, _, .published, rfl, ?_, rfl, rfl, by simp, by simp⟩
      exact withSchemaId_only hid hschemas (known_of_schemaIdFor hid hid')
  | produced record looked id' encoded calls left hrecord hid' hencode hcalls =>
      rw [hrecordAt] at hrecord
      have hknown := known_of_schemaIdFor hid hid'
      obtain rfl : left = true :=
        (congrArg Prod.snd hcalls).symm.trans ((produceLoop_left _ _).mpr hleft)
      rw [takenAt_encoded hrecord hencode, hrecord]
      refine ⟨_, _, .published, rfl, withSchemaId_only hid hschemas hknown, ?_, rfl, by simp,
        by simp⟩
      refine (consume_produced (hdecodes id' hknown record encoded hencode) hcalls).trans ?_
      split_ifs <;> rfl

section OneFile

variable {setup : Setup Nat}

theorem enterRow_only (hanswered : Answered setup entry) (hdecodes : Decodes setup entry decode)
    (row : CSVRow) {g : Ledger} (h : OnlyTopic setup entry g.schemas) (hg : g.halted = false) :
    OnlyTopic setup entry (setup.enterRow row g).schemas ∧
      (setup.enterRow row g).calls.length = g.calls.length + 1 ∧
      consume decode entry.1 (setup.enterRow row g).calls.flatten =
        consume decode entry.1 g.calls.flatten ++
          (takenAt setup entry g.calls.length row).toList.map some ∧
      (setup.enterRow row g).oldCount =
        g.oldCount + (if oldAt setup entry g.calls.length row then 1 else 0) ∧
      (setup.enterRow row g).halted = throwsAt setup entry g.calls.length row := by
  obtain ⟨exit, t, outcome, hpublish, hschemas, hconsume, houtcome, hthrows, hold⟩ :=
    publishRow_only hanswered hdecodes h g.calls.length row g.oldCount
  have hcalls : consume decode entry.1 (g.calls ++ [t.calls]).flatten =
      consume decode entry.1 g.calls.flatten ++
        (takenAt setup entry g.calls.length row).toList.map some := by
    rw [List.flatten_append, consume_append, List.flatten_singleton, hconsume]
  have hlength : (g.calls ++ [t.calls]).length = g.calls.length + 1 := List.length_append
  rw [Setup.enterRow, hpublish]
  simp only [houtcome]
  cases outcome with
  | published =>
      have hthrows : throwsAt setup entry g.calls.length row = false := by simpa using hthrows
      have hold : oldAt setup entry g.calls.length row = false := by simpa using hold
      rw [hthrows, hold]
      exact ⟨hschemas, hlength, hcalls, rfl, hg⟩
  | ignored =>
      have hthrows : throwsAt setup entry g.calls.length row = false := by simpa using hthrows
      have hold : oldAt setup entry g.calls.length row = true := by simpa using hold
      rw [hthrows, hold]
      exact ⟨hschemas, hlength, hcalls, rfl, hg⟩
  | threw e =>
      have hthrows : throwsAt setup entry g.calls.length row = true := by simpa using hthrows
      have hold : oldAt setup entry g.calls.length row = false := by simpa using hold
      rw [hthrows, hold]
      exact ⟨hschemas, hlength, hcalls, rfl, rfl⟩

def numbered (names : List Str) (records : List (List Str)) (i : Nat) : List (CSVRow × Nat) :=
  (records.map (recordRow names)).zipIdx i

theorem map_some_filterMap_cons {α β : Type} (f : α → Option β) (x : α) (xs : List α) :
    ((x :: xs).filterMap f).map some = (f x).toList.map some ++ (xs.filterMap f).map some := by
  rw [List.filterMap_cons]
  cases f x <;> rfl

/-- By induction on the records, up to the one that halts the ledger. -/
theorem enterAll_only (hanswered : Answered setup entry) (hdecodes : Decodes setup entry decode)
    (names : List Str) (records : List (List Str)) {g : Ledger}
    (h : OnlyTopic setup entry g.schemas) (hg : g.halted = false) :
    consume decode entry.1 (setup.enterAll names records g).calls.flatten =
        consume decode entry.1 g.calls.flatten ++
          ((calm setup entry (numbered names records g.calls.length)).filterMap
            fun row => takenAt setup entry row.2 row.1).map some ∧
      (setup.enterAll names records g).oldCount =
        g.oldCount + (calm setup entry (numbered names records g.calls.length)).countP
          (fun row => oldAt setup entry row.2 row.1) ∧
      (setup.enterAll names records g).halted =
        (numbered names records g.calls.length).any fun row => throwsAt setup entry row.2 row.1 := by
  induction records generalizing g with
  | nil => exact ⟨(List.append_nil _).symm, rfl, hg⟩
  | cons record records ih =>
      obtain ⟨hschemas, hlength, hconsume, hold, hhalted⟩ :=
        enterRow_only hanswered hdecodes (recordRow names record) h hg
      have hrows : numbered names (record :: records) g.calls.length =
          (recordRow names record, g.calls.length) ::
            numbered names records (g.calls.length + 1) := rfl
      rw [hrows, calm, List.takeWhile_cons, List.any_cons, Setup.enterAll]
      cases hthrows : throwsAt setup entry g.calls.length (recordRow names record) with
      | true =>
          rw [hthrows] at hhalted
          rw [takenAt_throws hthrows] at hconsume
          rw [oldAt_throws hthrows] at hold
          simp only [hhalted, if_true]
          exact ⟨hconsume, hold, (Bool.true_or _).symm⟩
      | false =>
          rw [hthrows] at hhalted
          obtain ⟨hc, ho, hh⟩ := ih hschemas hhalted
          simp only [hhalted, Bool.false_eq_true, if_false, Bool.not_false, if_true, Bool.false_or]
          rw [hc, ho, hh, hconsume, hold, hlength, map_some_filterMap_cons, List.append_assoc,
            List.countP_cons]
          refine ⟨rfl, ?_, rfl⟩
          rw [calm, Nat.add_assoc, Nat.add_comm (List.countP _ _)]

/-- With one topic a consumer reads, in the order of the file, the records of the
rows before the first one that throws, each with its key and once, but for the rows
that are too old and the messages that the encoder or the broker declines. If none
throws, the file is gone through to its end. -/
theorem consumed_in_order {d : Str} {names : List Str} {records : List (List Cell)} {text : Str}
    (h : Written names records text)
    (hshields : Shields names (setup.chain.flatMap Transformer.steps)) {schemas : SchemaMap}
    (hone : schemas.toList = [entry]) (hanswered : Answered setup entry)
    (hdecodes : Decodes setup entry decode) :
    let rows := numbered names (records.map fun record => record.map Cell.text) 0
    ∃ s, streamFile setup d schemas text = some s ∧
      consume decode entry.1 s.calls.flatten =
        ((calm setup entry rows).filterMap fun row => takenAt setup entry row.2 row.1).map some ∧
      s.locals.oldCount = (calm setup entry rows).countP
        (fun row => oldAt setup entry row.2 row.1) ∧
      s.halted = rows.any fun row => throwsAt setup entry row.2 row.1 := by
  obtain ⟨s, hs, hkept⟩ := streamFile_kept (d := d) h hshields schemas
  have honly : OnlyTopic setup entry (Ledger.opened schemas).schemas :=
    ⟨entry.2.schemaId, .inl rfl, hone⟩
  obtain ⟨hconsume, hold, hhalted⟩ := @enterAll_only entry decode setup hanswered hdecodes names
    (records.map fun record => record.map Cell.text) _ honly rfl
  refine ⟨s, hs, ?_, ?_, hkept.halted.trans hhalted⟩
  · rw [hkept.calls, hconsume]
    rfl
  · rw [hkept.oldCount, hold]
    exact Nat.zero_add _

end OneFile

/-- A topic of numbers, which gets its id with the first row, a broker that takes
the messages at the second attempt, and an encoder for one number. -/
def numbers (ι : Type) : Setup ι :=
  ⟨[], .withEncoder fun _ record => if record = [.int 7] then .ok [14] else .error [], none,
    fun _ => ⟨fun _ _ => 0, fun _ => some 9, fun _ => [.queueFull, .noError]⟩⟩

def numberColumn : Str × SchemaConfig :=
  (['t'], ⟨['t'], ['a'], [['a']], ∅, .ofList [(['a'], intType)],
    ⟨"t_msg".toList, [(['a'], .int)]⟩, -1⟩)

def readNumber (id : Int) (encoded : List UInt8) : Option Record :=
  if id = 9 ∧ encoded = [14] then some [.int 7] else none

theorem numbers_answered : Answered (numbers ι) numberColumn := by
  intro i
  refine ⟨⟨.noError, List.mem_cons_of_mem _ (List.mem_singleton_self _), by decide⟩, fun _ h => ?_⟩
  cases h

theorem numbers_decodes : Decodes (numbers ι) numberColumn readNumber := by
  intro id hid record encoded hencode
  obtain ⟨h, -⟩ | ⟨-, i, hadd⟩ := hid
  · exact absurd rfl h
  · cases hadd
    have hencode : (if record = [.int 7] then .ok [14] else .error []) =
        (.ok encoded : Except Str (List UInt8)) := hencode
    split_ifs at hencode with hrecord
    cases hencode
    rw [hrecord]
    rfl

theorem consumed_in_order_malformed :
    ∃ s, streamFile (numbers Nat) ['f'] (.ofList [numberColumn])
        (joinLines [(['a'], .lf), (['7'], .lf), (['8'], .lf), (['x'], .lf), (['7'], .lf)] none) =
          some s ∧
      consume readNumber ['t'] s.calls.flatten = [some (['7'], [.int 7])] ∧
      s.locals.oldCount = 0 ∧ s.halted = true :=
  @consumed_in_order numberColumn readNumber (numbers Nat) ['f'] [['a']]
    [[⟨['7'], true, by decide, by decide⟩], [⟨['8'], true, by decide, by decide⟩],
      [⟨['x'], true, by decide, by decide⟩], [⟨['7'], true, by decide, by decide⟩]] _
    ⟨by decide, by decide, by decide,
      [(['a'], .lf), (['7'], .lf), (['8'], .lf), (['x'], .lf), (['7'], .lf)], none, rfl, by decide,
      by simp⟩
    (by decide) (.ofList [numberColumn]) rfl numbers_answered numbers_decodes

structure Texts (setup : Setup ι) (avro : AvroSchemas) (config : SchemaConfig) : Prop where
  schemas : avro.Lawful
  records : LawfulRecords setup.libraries
  assembled : assembleSchema avro config = .ok config.schema
  types : ∀ field ∈ config.columns, config.typeName field = stringType
  maxAge : setup.maxAge = none

theorem reads_texts {config : SchemaConfig} {time : Nat → Int}
    {cells : Str → Str} {columns : List Str}
    (htypes : ∀ field ∈ columns, config.typeName field = stringType) :
    Reads none time config cells columns
      (columns.map fun field => .string (cells field)) := by
  induction columns with
  | nil => exact .nil
  | cons field columns ih =>
      obtain ⟨htype, htypes⟩ := List.forall_mem_cons.mp htypes
      refine .cons ?_ (ih htypes)
      rw [readCell_ok_iff, createDatumForType, htype, if_pos rfl]
      exact ⟨rfl, rfl⟩

theorem recordAt_texts {avro : AvroSchemas} (h : Texts setup avro entry.2) (i : ι)
    (row : CSVRow) :
    recordAt setup entry i row =
      .ok (entry.2.columns.map fun field => .string ((operate setup.chain row).value field)) := by
  obtain ⟨hnodup, hfields⟩ := assembleSchema_fields h.schemas h.assembled
  have hlength : (setup.libraries.record entry.2.schema).length = 0 + entry.2.columns.length := by
    rw [h.records.record_length, hfields, List.length_map, Nat.zero_add]
  have hindex : ∀ k field, entry.2.columns[k]? = some field →
      setup.libraries.fieldIndex entry.2.schema (entry.2.fieldName field) = .ok (0 + k) := by
    intro k field hk
    rw [Nat.zero_add]
    have hfield : entry.2.schema.fields[k]? =
        some (entry.2.fieldName field, avroTypeFor (entry.2.typeName field)) := by
      rw [hfields, List.getElem?_map, hk]
      rfl
    exact h.records.fieldIndex_eq hnodup hfield
  rw [recordAt, recordOf, h.maxAge]
  exact (recordFrom_ok_iff h.records hlength hindex).mpr ⟨_, reads_texts h.types, rfl⟩

theorem filterMap_zipIdx {α β : Type} {f : Nat → α → Option β} {g : α → β} {xs : List α}
    (h : ∀ x ∈ xs, ∀ i, f i x = some (g x)) (i : Nat) :
    (xs.zipIdx i).filterMap (fun x => f x.2 x.1) = xs.map g := by
  induction xs generalizing i with
  | nil => rfl
  | cons x xs ih =>
      obtain ⟨hx, hxs⟩ := List.forall_mem_cons.mp h
      rw [List.zipIdx_cons, List.map_cons, ← ih hxs (i + 1)]
      exact List.filterMap_cons_some (hx i)

def textsOf (setup : Setup ι) (names : List Str) (config : SchemaConfig) (record : List Cell) :
    Str × Record :=
  let cells := (operate setup.chain (recordRow names (record.map Cell.text))).value
  (cells config.keyColumn, config.columns.map fun field => .string (cells field))

/-- A topic of texts whose messages are all encoded and taken gets every record
of the file, as the transformers leave it. -/
theorem texts_arrive {setup : Setup Nat} {d : Str} {names : List Str} {records : List (List Cell)}
    {text : Str} (h : Written names records text)
    (hshields : Shields names (setup.chain.flatMap Transformer.steps)) {schemas : SchemaMap}
    (hone : schemas.toList = [entry]) (hanswered : Answered setup entry)
    (hdecodes : Decodes setup entry decode) {avro : AvroSchemas}
    (htexts : Texts setup avro entry.2)
    (hencodes : ∀ record ∈ records, ∃ encoded, setup.libraries.encode entry.2.schema
      (textsOf setup names entry.2 record).2 = .ok encoded)
    (htaken : ∀ i, finalAnswer ((setup.answers i).produce entry.1) = some .noError) :
    ∃ s, streamFile setup d schemas text = some s ∧
      consume decode entry.1 s.calls.flatten =
        records.map (fun record => some (textsOf setup names entry.2 record)) ∧
      s.halted = false := by
  obtain ⟨s, hs, hkept⟩ := streamFile_kept (d := d) h hshields schemas
  have honly : OnlyTopic setup entry (Ledger.opened schemas).schemas :=
    ⟨entry.2.schemaId, .inl rfl, hone⟩
  obtain ⟨hconsume, -, hhalted⟩ := @enterAll_only entry decode setup hanswered hdecodes names
    (records.map fun record => record.map Cell.text) _ honly rfl
  have hcalm : ∀ i row, throwsAt setup entry i row = false := by
    intro i row
    rw [throwsAt, recordAt_texts htexts]
  have hall : ∀ rows, calm setup entry rows = rows := by
    intro rows
    apply List.takeWhile_eq_self_iff.mpr
    intro row _
    rw [hcalm]
    rfl
  have htakenAt : ∀ record ∈ records, ∀ i,
      takenAt setup entry i (recordRow names (record.map Cell.text)) =
        some (textsOf setup names entry.2 record) := by
    intro record hm i
    obtain ⟨encoded, hencoded⟩ := hencodes record hm
    rw [takenAt_encoded (recordAt_texts htexts i _) hencoded, if_pos (htaken i)]
    rfl
  refine ⟨s, hs, ?_, ?_⟩
  · rw [hkept.calls, hconsume, hall, numbered, List.map_map, List.zipIdx_map, List.filterMap_map]
    refine (congrArg (List.map some) (filterMap_zipIdx htakenAt 0)).trans ?_
    rw [List.map_map]
    rfl
  · rw [hkept.halted, hhalted, List.any_eq_false]
    intro row _
    rw [hcalm]
    exact Bool.false_ne_true

end Flycatcher.Consumer
