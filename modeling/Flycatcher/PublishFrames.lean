import Flycatcher.Publish
import Mathlib.Data.List.Basic

namespace Flycatcher.PublishFrames

open Library.TextStreams Library.Bytes CsvRow Datums Publish

abbrev Payload := Str × List UInt8

def payloads (calls : List ProduceCall) : List Payload :=
  calls.map fun call => (call.message.topic, call.message.value)

/-- The value of a message of the topic, from its own configuration and the
cells of the row. Neither the age rule nor the time has a part in it. -/
def ownPayload (libraries : Libraries) (cells : Str → Str) (topic : Str) (config : SchemaConfig) :
    Option Payload := do
  let record ← (recordFrom libraries none (fun _ => 0) config cells config.columns
    (libraries.record config.schema)).toOption
  let encoded ← (libraries.encode config.schema record).toOption
  return (topic, frame config.schemaId encoded)

structure Publishable (libraries : Libraries) (maxAge : Option (Str × Int)) (answers : Answers)
    (cells : Str → Str) (topic : Str) (config : SchemaConfig) : Prop where
  schemaId_ne : config.schemaId ≠ -1
  encodes : ∃ record encoded,
    recordFrom libraries maxAge (answers.time topic) config cells config.columns
      (libraries.record config.schema) = .ok record ∧
    libraries.encode config.schema record = .ok encoded
  produces : ∃ codes, answers.produce topic = .noError :: codes

def accumulate : List UInt8 → List Payload → List Payload
  | _, [] => []
  | buffer, (topic, own) :: payloads => (topic, buffer ++ own) :: accumulate (buffer ++ own) payloads

theorem readCell_noAge {maxAge : Option (Str × Int)} {now now' : Int}
    {config : SchemaConfig} {field cell : Str} {datum : Datum}
    (h : readCell maxAge now config field cell = .ok datum) :
    readCell none now' config field cell = .ok datum := by
  rw [readCell] at h ⊢
  cases hage : checkAge maxAge now (config.fieldName field) cell with
  | error stop =>
      rw [hage] at h
      cases h
  | ok u =>
      rw [hage] at h
      exact h

theorem recordFrom_noAge {libraries : Libraries} {maxAge : Option (Str × Int)} {time time' : Nat → Int}
    {config : SchemaConfig} {cells : Str → Str} {columns : List Str} {record filled : Record}
    (h : recordFrom libraries maxAge time config cells columns record = .ok filled) :
    recordFrom libraries none time' config cells columns record = .ok filled := by
  induction columns generalizing record with
  | nil => exact h
  | cons field columns ih =>
      rw [recordFrom, setColumn] at h ⊢
      cases hcell : readCell maxAge (time columns.length) config field (cells field) with
      | error stop =>
          rw [hcell] at h
          cases h
      | ok datum =>
          rw [hcell] at h
          rw [readCell_noAge hcell]
          cases hindex : libraries.fieldIndex config.schema (config.fieldName field) with
          | error e =>
              rw [hindex] at h
              cases h
          | ok index =>
              rw [hindex] at h
              exact ih h

theorem publishTopic_publishable {libraries : Libraries} {maxAge : Option (Str × Int)}
    {answers : Answers} {topic : Str} {config : SchemaConfig} {s : PublishState}
    (h : Publishable libraries maxAge answers s.row.value topic config) :
    ∃ own s', ownPayload libraries s.row.value topic config = some (topic, own) ∧
      publishTopic libraries maxAge answers topic config s = .ok s' ∧
      s'.row.value = s.row.value ∧ s'.outData = s.outData ++ own ∧
      payloads s'.calls = payloads s.calls ++ [(topic, s.outData ++ own)] := by
  obtain ⟨record, encoded, hrecord, hencode⟩ := h.encodes
  obtain ⟨codes, hcodes⟩ := h.produces
  have hid : schemaIdFor answers topic config = some config.schemaId := if_neg h.schemaId_ne
  have hown : ownPayload libraries s.row.value topic config =
      some (topic, frame config.schemaId encoded) := by
    rw [ownPayload, recordFrom_noAge hrecord]
    simp only [Except.toOption, Option.bind_eq_bind, Option.bind_some, hencode, Option.pure_def]
  refine ⟨frame config.schemaId encoded, ?_⟩
  have hcourse := publishTopic_course libraries maxAge answers topic config s
  generalize publishTopic libraries maxAge answers topic config s = outcome at hcourse ⊢
  cases hcourse with
  | stops stop looked hstop => rw [hrecord] at hstop; cases hstop
  | noSchema record' looked hrecord' hid' => rw [hid] at hid'; cases hid'
  | unserialized record' looked id what hrecord' hid' hencode' =>
      obtain rfl : record = record' := Except.ok.inj (hrecord.symm.trans hrecord')
      rw [hencode] at hencode'
      cases hencode'
  | produced record' looked id encoded' calls left hrecord' hid' hencode' hcalls =>
      obtain rfl : record = record' := Except.ok.inj (hrecord.symm.trans hrecord')
      obtain rfl : encoded = encoded' := Except.ok.inj (hencode.symm.trans hencode')
      obtain rfl : config.schemaId = id := Option.some.inj (hid.symm.trans hid')
      rw [hcodes, produceLoop_noError] at hcalls
      cases hcalls
      refine ⟨_, hown, rfl, ?_, rfl, ?_⟩
      · funext c
        exact value_touchAll s.row looked c
      · simp [payloads, PublishState.sent, PublishState.touchAll]

theorem publishTopics_accumulate {libraries : Libraries} {maxAge : Option (Str × Int)}
    {answers : Answers} {cells : Str → Str} {topics : List (Str × SchemaConfig)}
    (h : ∀ entry ∈ topics, Publishable libraries maxAge answers cells entry.1 entry.2)
    {s : PublishState} (hs : s.row.value = cells) :
    ∃ own, topics.map (fun entry => ownPayload libraries cells entry.1 entry.2) = own.map some ∧
      payloads (publishTopics libraries maxAge answers topics s).2.calls =
        payloads s.calls ++ accumulate s.outData own := by
  induction topics generalizing s with
  | nil => exact ⟨[], rfl, by simp [publishTopics, accumulate]⟩
  | cons entry topics ih =>
      obtain ⟨topic, config⟩ := entry
      obtain ⟨own, s', hown, hpub, hrow, hout, hcalls⟩ :=
        publishTopic_publishable (hs ▸ h (topic, config) (by simp))
      obtain ⟨owns, howns, hrest⟩ := ih (fun e he => h e (List.mem_cons_of_mem _ he)) (hrow.trans hs)
      refine ⟨(topic, own) :: owns, ?_, ?_⟩
      · rw [List.map_cons, List.map_cons, howns, ← hs, hown]
      · rw [publishTopics, hpub]
        simp only [hrest, hcalls, hout, accumulate, List.append_assoc, List.singleton_append]

theorem ownPayload_value_ne_nil {libraries : Libraries} {cells : Str → Str} {topic : Str}
    {config : SchemaConfig} {own : Payload}
    (h : ownPayload libraries cells topic config = some own) : own.2 ≠ [] := by
  rw [ownPayload] at h
  obtain ⟨record, -, h⟩ := Option.bind_eq_some_iff.mp h
  obtain ⟨encoded, -, h⟩ := Option.bind_eq_some_iff.mp h
  obtain rfl := Option.some.inj h
  exact List.cons_ne_nil _ _

theorem accumulate_eq_iff {own : List Payload} (h : ∀ payload ∈ own, payload.2 ≠ []) :
    accumulate [] own = own ↔ own.length ≤ 1 := by
  cases own with
  | nil => simp [accumulate]
  | cons first own =>
      cases own with
      | nil => simp [accumulate]
      | cons second own =>
          constructor
          · intro he
            -- the second payload starts with the first one
            have hv : first.2 ++ second.2 = second.2 := by
              have hs := congrArg (fun payloads => payloads[1]?.map Prod.snd) he
              simpa [accumulate] using hs
            exact absurd (by simpa using hv) (h first (by simp))
          · intro hl
            simp at hl

/-- A message holds its own frame and nothing else exactly when no more than one
topic is configured. -/
theorem publish_own_payloads_iff {libraries : Libraries} {maxAge : Option (Str × Int)}
    {answers : Answers} {schemas : SchemaMap} {row : CSVRow}
    (h : ∀ entry ∈ schemas.toList,
      Publishable libraries maxAge answers row.value entry.1 entry.2) (oldCount : Nat) :
    (payloads (publish libraries maxAge answers schemas row oldCount).2.calls).map some =
        schemas.toList.map (fun entry => ownPayload libraries row.value entry.1 entry.2) ↔
      schemas.size ≤ 1 := by
  obtain ⟨own, hown, hcalls⟩ := @publishTopics_accumulate _ _ _ _ _ h
    ⟨row, oldCount, schemas, [], [], 0⟩ rfl
  have hlen : own.length = schemas.size := by
    rw [← Std.TreeMap.length_toList, ← List.length_map (f := some), ← hown, List.length_map]
  have hne : ∀ payload ∈ own, payload.2 ≠ [] := by
    intro payload hp
    have hm := List.mem_map_of_mem (f := some) hp
    rw [← hown] at hm
    obtain ⟨entry, -, he⟩ := List.mem_map.mp hm
    exact ownPayload_value_ne_nil he
  rw [publish, hcalls, hown, ← hlen, ← accumulate_eq_iff hne]
  simp only [payloads, List.map_nil, List.nil_append]
  exact List.map_inj_right fun _ _ => Option.some.inj

def stringTopic (name column : Str) (schemaId : Int32) : SchemaConfig :=
  ⟨name, column, [column], ∅, ∅, ⟨name, [(column, .string)]⟩, schemaId⟩

def recordingLibraries : Libraries := .withEncoder fun _ record => .ok [.ofNat record.length]

def acceptingAnswers : Answers := ⟨fun _ _ => 0, fun _ => none, fun _ => [.noError]⟩

theorem stringTopic_publishable (cells : Str → Str) (topic : Str) :
    Publishable recordingLibraries none acceptingAnswers cells topic
      (stringTopic ['t'] ['c'] 5) :=
  ⟨by decide, ⟨[.string (cells ['c'])], [1], rfl, rfl⟩, [], rfl⟩

theorem publish_own_payloads_single :
    (payloads (publish recordingLibraries none acceptingAnswers
        (.ofList [(['t'], stringTopic ['t'] ['c'] 5)]) .empty 0).2.calls).map some =
      [ownPayload recordingLibraries CSVRow.empty.value ['t'] (stringTopic ['t'] ['c'] 5)] :=
  (publish_own_payloads_iff (fun entry he => by
    have h : entry = (['t'], stringTopic ['t'] ['c'] 5) := List.mem_singleton.mp he
    rw [h]
    exact stringTopic_publishable _ _) 0).mpr (by decide)

/-- The message of the second topic starts with the message of the first one. -/
theorem publish_foreign_payload :
    ∃ schemas : SchemaMap,
      (∀ entry ∈ schemas.toList, Publishable recordingLibraries none acceptingAnswers
        CSVRow.empty.value entry.1 entry.2) ∧
      (payloads (publish recordingLibraries none acceptingAnswers schemas .empty 0).2.calls).map some ≠
        schemas.toList.map fun entry => ownPayload recordingLibraries CSVRow.empty.value entry.1 entry.2 := by
  refine ⟨.ofList [(['t'], stringTopic ['t'] ['c'] 5), (['u'], stringTopic ['t'] ['c'] 5)], ?_, ?_⟩
  · intro entry he
    have h : entry ∈ [(['t'], stringTopic ['t'] ['c'] 5), (['u'], stringTopic ['t'] ['c'] 5)] := he
    rcases List.mem_pair.mp h with rfl | rfl <;> exact stringTopic_publishable _ _
  · decide

end Flycatcher.PublishFrames
