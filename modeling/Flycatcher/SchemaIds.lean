import Flycatcher.SchemaAssembly
import Flycatcher.Library.Runs

namespace Flycatcher.SchemaIds

open Library.TextStreams Library.Bytes Library.Runs CsvRow Publish PublishFrames SchemaAssembly

def valueSubject (schemaName : Str) : Str := schemaName ++ "-value".toList

def fetchValueSchemaId (get : Str → Option Int32) (schemaName : Str) : Int32 :=
  if schemaName ≠ [] then (get (valueSubject schemaName)).getD (-1) else -1

def addSchema (avro : AvroSchemas) (get : Str → Option Int32) (schemas : SchemaMap)
    (entry : Str × SchemaConfig) : Except Exception SchemaMap := do
  let schemaId := fetchValueSchemaId get entry.1
  let schema ← assembleSchema avro entry.2
  return schemas.insert entry.1 { entry.2 with schema, schemaId }

def schemas (avro : AvroSchemas) (get : Str → Option Int32) (configs : SchemaMap) :
    Except Exception SchemaMap :=
  configs.toList.foldlM (addSchema avro get) ∅

def fetched (get : Str → Option Int32) (configs : SchemaMap) : List (Str × Int32) :=
  configs.toList.filterMap fun entry =>
    if entry.1 ≠ [] then (get (valueSubject entry.1)).map fun id => (entry.1, id) else none

def Framed (id : Int32) (value : List UInt8) : Prop := ∃ payload, value = frame id payload

def Registered (returned : List (Str × Int32)) (call : ProduceCall) : Prop :=
  ∃ id, (call.message.topic, id) ∈ returned ∧ id ≠ -1 ∧ Framed id call.message.value

section Topics

variable (libraries : Libraries) (maxAge : Option (Str × Int)) (answers : Answers) (cells : Str → Str)

def recordOf (entry : Str × SchemaConfig) : Except Stop Record :=
  recordFrom libraries maxAge (answers.time entry.1) entry.2 cells entry.2.columns
    (libraries.record entry.2.schema)

def returnedFor (entry : Str × SchemaConfig) : List (Str × Int32) :=
  match recordOf libraries maxAge answers cells entry with
  | .error _ => []
  | .ok _ =>
      if entry.2.schemaId = -1 then (answers.add entry.1).toList.map fun id => (entry.1, id) else []

def returnedBy : List (Str × SchemaConfig) → PublishState → List (Str × Int32) → List (Str × Int32)
  | [], _, returned => returned
  | entry :: topics, s, returned =>
      match publishTopic libraries maxAge answers entry.1 entry.2 s with
      | .ok t => returnedBy topics t (returned ++ returnedFor libraries maxAge answers cells entry)
      | .error _ => returned ++ returnedFor libraries maxAge answers cells entry

/-- The registry has a schema for the topic when its record is built, and where
the message has the frame of an earlier topic in front, the registry returned
the id of that frame for this topic too. -/
def TopicMeets (returned : List (Str × Int32)) (entry : Str × SchemaConfig) (first : Option Int32) :
    Prop :=
  ∀ record, recordOf libraries maxAge answers cells entry = .ok record →
    schemaIdFor answers entry.1 entry.2 ≠ none ∧
    ∀ encoded, libraries.encode entry.2.schema record = .ok encoded → answers.produce entry.1 ≠ [] →
      ∀ id ∈ first, (entry.1, id) ∈ returned ++ returnedFor libraries maxAge answers cells entry

inductive Passes (entry : Str × SchemaConfig) (first : Option Int32) : Option Int32 → Prop
  | unserialized {record : Record} {id : Int32} {what : Str}
      (hrecord : recordOf libraries maxAge answers cells entry = .ok record)
      (hid : schemaIdFor answers entry.1 entry.2 = some id)
      (hencode : libraries.encode entry.2.schema record = .error what) : Passes entry first first
  | serialized {record : Record} {id : Int32} {encoded : List UInt8}
      (hrecord : recordOf libraries maxAge answers cells entry = .ok record)
      (hid : schemaIdFor answers entry.1 entry.2 = some id)
      (hencode : libraries.encode entry.2.schema record = .ok encoded)
      (hanswered : ∃ code ∈ answers.produce entry.1, code ≠ .queueFull) :
      Passes entry first (first.or (some id))

def TopicsMeet : List (Str × SchemaConfig) → Option Int32 → List (Str × Int32) → Prop
  | [], _, _ => True
  | entry :: topics, first, returned =>
      TopicMeets libraries maxAge answers cells returned entry first ∧
        ∀ first', Passes libraries maxAge answers cells entry first first' →
          TopicsMeet topics first' (returned ++ returnedFor libraries maxAge answers cells entry)

end Topics

structure Row where
  answers : Answers
  row : CSVRow
  oldCount : Nat

structure Service where
  schemas : SchemaMap
  returned : List (Str × Int32)
  calls : List ProduceCall
  exit : Exit

def startUp (avro : AvroSchemas) (get : Str → Option Int32) (configs : SchemaMap) :
    Except Exception Service := do
  let schemas ← schemas avro get configs
  return ⟨schemas, fetched get configs, [], .returned⟩

section Service

variable (libraries : Libraries) (maxAge : Option (Str × Int))

/-- No row follows the use of a schema object that is not there, or a retry loop
that is not left. -/
def publishRow : Step Service Row := fun s r =>
  if s.exit = .undefined ∨ s.exit = .waiting then none
  else
    let (exit, t) := publish libraries maxAge r.answers s.schemas r.row r.oldCount
    let returned := returnedBy libraries maxAge r.answers r.row.value s.schemas.toList
      ⟨r.row, r.oldCount, s.schemas, [], [], 0⟩ s.returned
    some ⟨t.schemas, returned, s.calls ++ t.calls, exit⟩

def RowMeets (s : Service) (r : Row) : Prop :=
  TopicsMeet libraries maxAge r.answers r.row.value s.schemas.toList none s.returned

end Service

def OnlyRegistered (s : Service) : Prop :=
  (∀ call ∈ s.calls, Registered s.returned call) ∧ s.exit ≠ .undefined

def Headed (first : Option Int32) (buffer : List UInt8) : Prop :=
  match first with
  | none => buffer = []
  | some id => id ≠ -1 ∧ Framed id buffer

theorem framed_append {id : Int32} {value : List UInt8} (h : Framed id value) (rest : List UInt8) :
    Framed id (value ++ rest) := by
  obtain ⟨payload, rfl⟩ := h
  exact ⟨payload ++ rest, by simp [frame]⟩

theorem framed_unique {id id' : Int32} {value : List UInt8} (h : Framed id value)
    (h' : Framed id' value) : id = id' := by
  obtain ⟨payload, rfl⟩ := h
  obtain ⟨payload', he⟩ := h'
  simp only [frame, List.cons.injEq, true_and] at he
  obtain ⟨hid, -⟩ := List.append_inj he (by simp [bigEndian])
  exact Int32.toBitVec_inj.mp (bigEndian_injective hid)

theorem headed_frame {first : Option Int32} {buffer : List UInt8} (h : Headed first buffer)
    {id : Int32} (hne : id ≠ -1) (encoded : List UInt8) :
    Headed (first.or (some id)) (buffer ++ frame id encoded) := by
  cases first with
  | none =>
      obtain rfl : buffer = [] := h
      exact ⟨hne, encoded, rfl⟩
  | some other => exact ⟨h.1, framed_append h.2 _⟩

theorem registered_mono {returned : List (Str × Int32)} {call : ProduceCall}
    (h : Registered returned call) (more : List (Str × Int32)) :
    Registered (returned ++ more) call := by
  obtain ⟨id, hid, hne, hframed⟩ := h
  exact ⟨id, List.mem_append_left more hid, hne, hframed⟩

theorem registered_append_iff {returned more : List (Str × Int32)} {call : ProduceCall}
    (h : ∀ id, (call.message.topic, id) ∉ more) :
    Registered (returned ++ more) call ↔ Registered returned call := by
  constructor
  · rintro ⟨id, hid, hne, hframed⟩
    exact ⟨id, (List.mem_append.mp hid).resolve_right (h id), hne, hframed⟩
  · intro hr
    exact registered_mono hr more

def after : Outcome → Exit × PublishState
  | .ok s => (.returned, s)
  | .error exit => exit

variable {libraries : Libraries} {maxAge : Option (Str × Int)} {answers : Answers} {cells : Str → Str}

theorem schemaIdFor_returned {entry : Str × SchemaConfig} {returned : List (Str × Int32)}
    {record : Record} {id : Int32}
    (hrecord : recordOf libraries maxAge answers cells entry = .ok record)
    (hentry : entry.2.schemaId = -1 ∨ (entry.1, entry.2.schemaId) ∈ returned)
    (hadd : ∀ id, answers.add entry.1 = some id → id ≠ -1)
    (hid : schemaIdFor answers entry.1 entry.2 = some id) :
    (entry.1, id) ∈ returned ++ returnedFor libraries maxAge answers cells entry ∧ id ≠ -1 := by
  rw [schemaIdFor] at hid
  by_cases hnone : entry.2.schemaId = -1
  · rw [if_pos hnone] at hid
    refine ⟨List.mem_append_right returned ?_, hadd id hid⟩
    simp [returnedFor, hrecord, hnone, hid]
  · rw [if_neg hnone] at hid
    cases hid
    exact ⟨List.mem_append_left _ (hentry.resolve_left hnone), hnone⟩

theorem produced_registered {entry : Str × SchemaConfig} {returned : List (Str × Int32)}
    {first : Option Int32} {buffer encoded : List UInt8} {record : Record} {id : Int32} {key : Str}
    {calls : List ProduceCall} (hbuffer : Headed first buffer)
    (hrecord : recordOf libraries maxAge answers cells entry = .ok record)
    (hid : schemaIdFor answers entry.1 entry.2 = some id)
    (hencode : libraries.encode entry.2.schema record = .ok encoded)
    (hreturned : (entry.1, id) ∈ returned ++ returnedFor libraries maxAge answers cells entry)
    (hne : id ≠ -1)
    (hmessage : ∀ call ∈ calls, call.message = ⟨entry.1, buffer ++ frame id encoded, key⟩)
    (hnil : calls = [] ↔ answers.produce entry.1 = []) :
    (∀ call ∈ calls,
        Registered (returned ++ returnedFor libraries maxAge answers cells entry) call) ↔
      TopicMeets libraries maxAge answers cells returned entry first := by
  constructor
  · intro hall record' hrecord'
    cases hrecord.symm.trans hrecord'
    refine ⟨by rw [hid]; exact Option.some_ne_none id, ?_⟩
    intro _ _ hcodes other hother
    obtain rfl : first = some other := hother
    obtain ⟨call, hm⟩ := List.exists_mem_of_ne_nil calls (hcodes ∘ hnil.mp)
    obtain ⟨id', hid', -, hframed⟩ := hall call hm
    rw [hmessage call hm] at hid' hframed
    obtain rfl := framed_unique (framed_append hbuffer.2 (frame id encoded)) hframed
    exact hid'
  · intro hmeets call hm
    rw [Registered, hmessage call hm]
    cases first with
    | none =>
        obtain rfl : buffer = [] := hbuffer
        exact ⟨id, hreturned, hne, encoded, rfl⟩
    | some other =>
        have hcodes : answers.produce entry.1 ≠ [] := by
          intro h
          rw [hnil.mpr h] at hm
          cases hm
        have hother := (hmeets record hrecord).2 encoded hencode hcodes other rfl
        exact ⟨other, hother, hbuffer.1, framed_append hbuffer.2 _⟩

theorem publishTopic_registered {s : PublishState} {entry : Str × SchemaConfig}
    {returned : List (Str × Int32)} {first : Option Int32} (hs : s.row.value = cells)
    (hbuffer : Headed first s.outData)
    (hentry : entry.2.schemaId = -1 ∨ (entry.1, entry.2.schemaId) ∈ returned)
    (hadd : ∀ id, answers.add entry.1 = some id → id ≠ -1) :
    ∃ exit t calls, after (publishTopic libraries maxAge answers entry.1 entry.2 s) = (exit, t) ∧
      t.calls = s.calls ++ calls ∧ (∀ call ∈ calls, call.message.topic = entry.1) ∧
      ((∀ call ∈ calls, Registered
          (returned ++ returnedFor libraries maxAge answers cells entry) call) ∧ exit ≠ .undefined ↔
        TopicMeets libraries maxAge answers cells returned entry first) := by
  subst hs
  have hcourse := publishTopic_course libraries maxAge answers entry.1 entry.2 s
  generalize publishTopic libraries maxAge answers entry.1 entry.2 s = outcome at hcourse
  cases hcourse with
  | stops stop looked hstop =>
      have hmeets : TopicMeets libraries maxAge answers s.row.value returned entry first := by
        intro record hrecord
        cases hstop.symm.trans hrecord
      cases stop with
      | tooOld | thrown =>
          refine ⟨_, _, [], rfl, (List.append_nil _).symm, by simp, ?_⟩
          exact iff_of_true ⟨by simp, by simp⟩ hmeets
  | noSchema record looked hrecord hid =>
      refine ⟨_, _, [], rfl, (List.append_nil _).symm, by simp, ?_⟩
      exact iff_of_false (fun h => h.2 rfl) (fun h => (h record hrecord).1 hid)
  | unserialized record looked id what hrecord hid hencode =>
      refine ⟨_, _, [], rfl, (List.append_nil _).symm, by simp, ?_⟩
      apply iff_of_true ⟨by simp, by simp⟩
      intro record' hrecord'
      cases hrecord.symm.trans hrecord'
      refine ⟨by rw [hid]; simp, ?_⟩
      intro encoded hencode'
      cases hencode.symm.trans hencode'
  | produced record looked id encoded calls left hrecord hid hencode hcalls =>
      obtain ⟨hmessage, hnil⟩ := produceLoop_calls hcalls
      obtain ⟨hreturned, hne⟩ := schemaIdFor_returned hrecord hentry hadd hid
      have hiff := produced_registered hbuffer hrecord hid hencode hreturned hne hmessage hnil
      have htopic : ∀ call ∈ calls, call.message.topic = entry.1 := by
        intro call hm
        rw [hmessage call hm]
      cases left with
      | false | true =>
          refine ⟨_, _, calls, rfl, rfl, htopic, ?_⟩
          rw [hiff]
          exact and_iff_left (by simp)

theorem passes_unique {entry : Str × SchemaConfig} {first first' first'' : Option Int32}
    (h : Passes libraries maxAge answers cells entry first first')
    (h' : Passes libraries maxAge answers cells entry first first'') : first' = first'' := by
  cases h with
  | unserialized hrecord hid hencode =>
      cases h' with
      | unserialized => rfl
      | serialized hrecord' hid' hencode' =>
          cases hrecord.symm.trans hrecord'
          cases hencode.symm.trans hencode'
  | serialized hrecord hid hencode =>
      cases h' with
      | unserialized hrecord' hid' hencode' =>
          cases hrecord.symm.trans hrecord'
          cases hencode.symm.trans hencode'
      | serialized hrecord' hid' =>
          cases hid.symm.trans hid'
          rfl

theorem forall_passes_iff {entry : Str × SchemaConfig} {first first' : Option Int32}
    {P : Option Int32 → Prop} (h : Passes libraries maxAge answers cells entry first first') :
    (∀ other, Passes libraries maxAge answers cells entry first other → P other) ↔ P first' := by
  constructor
  · intro hall
    exact hall first' h
  · intro hfirst other hother
    exact passes_unique h hother ▸ hfirst

theorem publishTopic_passes {s t : PublishState} {entry : Str × SchemaConfig}
    {returned : List (Str × Int32)} {first : Option Int32} (hs : s.row.value = cells)
    (hbuffer : Headed first s.outData)
    (hentry : entry.2.schemaId = -1 ∨ (entry.1, entry.2.schemaId) ∈ returned)
    (hadd : ∀ id, answers.add entry.1 = some id → id ≠ -1)
    (h : publishTopic libraries maxAge answers entry.1 entry.2 s = .ok t) :
    ∃ first', Passes libraries maxAge answers cells entry first first' ∧
      Headed first' t.outData := by
  subst hs
  obtain ⟨record, id, hrecord, hid, hcourse⟩ := publishTopic_ok h
  rcases hcourse with ⟨what, hencode, hout, -⟩ | ⟨encoded, calls, hencode, hloop, hout, -⟩
  · rw [hout]
    exact ⟨first, .unserialized hrecord hid hencode, hbuffer⟩
  · obtain ⟨-, hne⟩ := schemaIdFor_returned hrecord hentry hadd hid
    have hanswered := (produceLoop_left _ _).mp (congrArg Prod.snd hloop)
    rw [hout]
    exact ⟨_, .serialized hrecord hid hencode hanswered, headed_frame hbuffer hne encoded⟩

theorem publishTopic_halts {s : PublishState} {entry : Str × SchemaConfig}
    {exit : Exit × PublishState} (hs : s.row.value = cells)
    (h : publishTopic libraries maxAge answers entry.1 entry.2 s = .error exit)
    {first first' : Option Int32} : ¬Passes libraries maxAge answers cells entry first first' := by
  subst hs
  intro hpasses
  have hpassed : ∃ record id, recordOf libraries maxAge answers s.row.value entry = .ok record ∧
      schemaIdFor answers entry.1 entry.2 = some id ∧
      ∀ encoded, libraries.encode entry.2.schema record = .ok encoded →
        ∃ code ∈ answers.produce entry.1, code ≠ .queueFull := by
    cases hpasses with
    | unserialized hrecord hid hencode =>
        refine ⟨_, _, hrecord, hid, ?_⟩
        intro encoded hencode'
        cases hencode.symm.trans hencode'
    | serialized hrecord hid hencode hanswered => exact ⟨_, _, hrecord, hid, fun _ _ => hanswered⟩
  obtain ⟨record, id, hrecord, hid, hanswered⟩ := hpassed
  have hcourse := publishTopic_course libraries maxAge answers entry.1 entry.2 s
  rw [h] at hcourse
  generalize ho : Except.error exit = outcome at hcourse
  cases hcourse with
  | stops stop looked hstop => cases hstop.symm.trans hrecord
  | noSchema record looked hrecord hnone => cases hnone.symm.trans hid
  | unserialized => cases ho
  | produced record' looked id encoded calls left hrecord' hid hencode hcalls =>
      cases left with
      | true => cases ho
      | false =>
          cases hrecord.symm.trans hrecord'
          have hleft := (produceLoop_left
            ⟨entry.1, s.outData ++ frame id encoded, s.row.value entry.2.keyColumn⟩
            (answers.produce entry.1)).mpr (hanswered encoded hencode)
          rw [hcalls] at hleft
          cases hleft

theorem returnedFor_topic {entry : Str × SchemaConfig} {p : Str × Int32}
    (h : p ∈ returnedFor libraries maxAge answers cells entry) : p.1 = entry.1 := by
  rw [returnedFor] at h
  split at h
  · cases h
  · split_ifs at h
    · obtain ⟨id, -, rfl⟩ := List.mem_map.mp h
      rfl
    · cases h

theorem returnedBy_split (topics : List (Str × SchemaConfig)) (s : PublishState)
    (returned : List (Str × Int32)) :
    ∃ more, returnedBy libraries maxAge answers cells topics s returned = returned ++ more ∧
      ∀ p ∈ more, ∃ entry ∈ topics, p.1 = entry.1 := by
  induction topics generalizing s returned with
  | nil => exact ⟨[], (List.append_nil _).symm, by simp⟩
  | cons entry topics ih =>
      have hfor : ∀ p ∈ returnedFor libraries maxAge answers cells entry,
          ∃ other ∈ entry :: topics, p.1 = other.1 :=
        fun p hp => ⟨entry, List.mem_cons_self, returnedFor_topic hp⟩
      rw [returnedBy]
      cases publishTopic libraries maxAge answers entry.1 entry.2 s with
      | error exit => exact ⟨_, rfl, hfor⟩
      | ok t =>
          obtain ⟨more, hmore, htopics⟩ :=
            ih t (returned ++ returnedFor libraries maxAge answers cells entry)
          refine ⟨returnedFor libraries maxAge answers cells entry ++ more, ?_, ?_⟩
          · rw [← List.append_assoc]
            exact hmore
          · intro p hp
            rcases List.mem_append.mp hp with hp | hp
            · exact hfor p hp
            · obtain ⟨other, hother, he⟩ := htopics p hp
              exact ⟨other, List.mem_cons_of_mem entry hother, he⟩

theorem publishTopics_registered {topics : List (Str × SchemaConfig)} {s : PublishState}
    {returned : List (Str × Int32)} {first : Option Int32}
    (hdistinct : topics.Pairwise fun a b => a.1 ≠ b.1) (hs : s.row.value = cells)
    (hbuffer : Headed first s.outData)
    (hentries : ∀ entry ∈ topics, entry.2.schemaId = -1 ∨ (entry.1, entry.2.schemaId) ∈ returned)
    (hadd : ∀ topic id, answers.add topic = some id → id ≠ -1) :
    ∃ exit t calls, publishTopics libraries maxAge answers topics s = (exit, t) ∧
      t.calls = s.calls ++ calls ∧
      ((∀ call ∈ calls, Registered
          (returnedBy libraries maxAge answers cells topics s returned) call) ∧ exit ≠ .undefined ↔
        TopicsMeet libraries maxAge answers cells topics first returned) := by
  induction topics generalizing s returned first with
  | nil => exact ⟨_, _, [], rfl, (List.append_nil _).symm, iff_of_true ⟨by simp, by simp⟩ trivial⟩
  | cons entry topics ih =>
      obtain ⟨hentry, hdistinct⟩ := List.pairwise_cons.mp hdistinct
      have hfirst := hentries entry List.mem_cons_self
      obtain ⟨exit, t, calls, hafter, hcalls, htopic, hiff⟩ :=
        publishTopic_registered hs hbuffer hfirst (hadd entry.1)
      rw [publishTopics, returnedBy, TopicsMeet, ← hiff]
      cases hout : publishTopic libraries maxAge answers entry.1 entry.2 s with
      | error out =>
          rw [hout] at hafter
          obtain rfl : out = (exit, t) := hafter
          refine ⟨exit, t, calls, rfl, hcalls, ?_⟩
          have hhalts {first' : Option Int32} :
              ¬Passes libraries maxAge answers cells entry first first' := publishTopic_halts hs hout
          simp [hhalts]
      | ok t' =>
          rw [hout] at hafter
          obtain ⟨rfl, rfl⟩ := Prod.mk.inj hafter
          have hentries' : ∀ other ∈ topics, other.2.schemaId = -1 ∨ (other.1, other.2.schemaId) ∈
              returned ++ returnedFor libraries maxAge answers cells entry := by
            intro other hm
            exact (hentries other (List.mem_cons_of_mem entry hm)).imp id (List.mem_append_left _)
          obtain ⟨first', hpasses, hbuffer'⟩ :=
            publishTopic_passes hs hbuffer hfirst (hadd entry.1) hout
          obtain ⟨exit, u, rest, hrest, hu, hiff'⟩ :=
            ih hdistinct ((publishTopic_value hout).trans hs) hbuffer' hentries'
          obtain ⟨more, hmore, hothers⟩ := @returnedBy_split libraries maxAge answers cells topics t'
            (returned ++ returnedFor libraries maxAge answers cells entry)
          refine ⟨exit, u, calls ++ rest, hrest, by rw [hu, hcalls, List.append_assoc], ?_⟩
          have hnext : (∀ other, Passes libraries maxAge answers cells entry first other →
              TopicsMeet libraries maxAge answers cells topics other
                (returned ++ returnedFor libraries maxAge answers cells entry)) ↔
              TopicsMeet libraries maxAge answers cells topics first'
                (returned ++ returnedFor libraries maxAge answers cells entry) :=
            forall_passes_iff hpasses
          have hsame : ∀ call ∈ calls,
              Registered (returnedBy libraries maxAge answers cells topics t'
                (returned ++ returnedFor libraries maxAge answers cells entry)) call ↔
              Registered (returned ++ returnedFor libraries maxAge answers cells entry) call := by
            intro call hm
            rw [hmore]
            apply registered_append_iff
            -- no later topic of the row adds to the ids of this one
            intro id hlater
            obtain ⟨other, hother, he⟩ := hothers _ hlater
            exact hentry other hother ((htopic call hm).symm.trans he)
          rw [hnext, List.forall_mem_append, and_assoc, hiff', forall₂_congr hsame]
          simp

def IdsReturned (schemas : SchemaMap) (returned : List (Str × Int32)) : Prop :=
  ∀ topic config, schemas[topic]? = some config →
    config.schemaId = -1 ∨ (topic, config.schemaId) ∈ returned

theorem idsReturned_mono {schemas : SchemaMap} {returned : List (Str × Int32)}
    (h : IdsReturned schemas returned) (more : List (Str × Int32)) :
    IdsReturned schemas (returned ++ more) :=
  fun topic config hc => (h topic config hc).imp id (List.mem_append_left more)

theorem idsReturned_insert {schemas : SchemaMap} {returned : List (Str × Int32)} {topic : Str}
    {config : SchemaConfig} (h : IdsReturned schemas returned)
    (hconfig : config.schemaId = -1 ∨ (topic, config.schemaId) ∈ returned) :
    IdsReturned (schemas.insert topic config) returned := by
  intro other config' hc
  rw [Std.TreeMap.getElem?_insert] at hc
  split_ifs at hc with he
  · cases hc
    rw [← Std.LawfulEqCmp.compare_eq_iff_eq.mp he]
    exact hconfig
  · exact h other config' hc

theorem publishTopic_ids {s : PublishState} {entry : Str × SchemaConfig}
    {returned : List (Str × Int32)} (hs : s.row.value = cells)
    (hids : IdsReturned s.schemas returned) :
    IdsReturned (after (publishTopic libraries maxAge answers entry.1 entry.2 s)).2.schemas
      (returned ++ returnedFor libraries maxAge answers cells entry) := by
  subst hs
  have hsame := idsReturned_mono hids (returnedFor libraries maxAge answers s.row.value entry)
  have hregistered {record : Record} {id : Int32}
      (hrecord : recordOf libraries maxAge answers s.row.value entry = .ok record)
      (hid : schemaIdFor answers entry.1 entry.2 = some id) :
      IdsReturned (withSchemaId s.schemas entry.1 entry.2 id)
        (returned ++ returnedFor libraries maxAge answers s.row.value entry) := by
    rw [withSchemaId]
    split_ifs with hnone
    · apply idsReturned_insert hsame
      rw [schemaIdFor, if_pos hnone] at hid
      right
      apply List.mem_append_right
      simp [returnedFor, hrecord, hnone, hid]
    · exact hsame
  have hcourse := publishTopic_course libraries maxAge answers entry.1 entry.2 s
  generalize publishTopic libraries maxAge answers entry.1 entry.2 s = outcome at hcourse
  cases hcourse with
  | stops stop =>
      cases stop with
      | tooOld | thrown => exact hsame
  | noSchema => exact hsame
  | unserialized record looked id what hrecord hid hencode => exact hregistered hrecord hid
  | produced record looked id encoded calls left hrecord hid =>
      cases left with
      | false | true => exact hregistered hrecord hid

theorem publishTopics_ids {topics : List (Str × SchemaConfig)} {s : PublishState}
    {returned : List (Str × Int32)} (hs : s.row.value = cells)
    (hids : IdsReturned s.schemas returned) :
    IdsReturned (publishTopics libraries maxAge answers topics s).2.schemas
      (returnedBy libraries maxAge answers cells topics s returned) := by
  induction topics generalizing s returned with
  | nil => exact hids
  | cons entry topics ih =>
      have hids' := @publishTopic_ids libraries maxAge answers cells s entry returned hs hids
      rw [publishTopics, returnedBy]
      cases hout : publishTopic libraries maxAge answers entry.1 entry.2 s with
      | error exit =>
          rw [hout] at hids'
          exact hids'
      | ok t =>
          rw [hout] at hids'
          exact ih ((publishTopic_value hout).trans hs) hids'

theorem fetchValueSchemaId_fetched {get : Str → Option Int32} {configs : SchemaMap}
    {entry : Str × SchemaConfig} (h : entry ∈ configs.toList) :
    fetchValueSchemaId get entry.1 = -1 ∨
      (entry.1, fetchValueSchemaId get entry.1) ∈ fetched get configs := by
  rw [fetchValueSchemaId, fetched]
  split_ifs with hname
  · cases hget : get (valueSubject entry.1) with
    | none => exact .inl rfl
    | some id =>
        right
        rw [List.mem_filterMap]
        exact ⟨entry, h, by simp [hname, hget]⟩
  · exact .inl rfl

theorem addSchemas_ids {avro : AvroSchemas} {get : Str → Option Int32} {configs m m' : SchemaMap}
    {entries : List (Str × SchemaConfig)} (hentries : ∀ entry ∈ entries, entry ∈ configs.toList)
    (hm : IdsReturned m (fetched get configs))
    (h : entries.foldlM (addSchema avro get) m = .ok m') :
    IdsReturned m' (fetched get configs) := by
  induction entries generalizing m with
  | nil =>
      cases h
      exact hm
  | cons entry entries ih =>
      rw [List.foldlM_cons, addSchema] at h
      cases hschema : assembleSchema avro entry.2 with
      | error e =>
          rw [hschema] at h
          cases h
      | ok schema =>
          rw [hschema] at h
          refine ih (fun other ho => hentries other (List.mem_cons_of_mem entry ho)) ?_ h
          exact idsReturned_insert hm (fetchValueSchemaId_fetched (hentries entry List.mem_cons_self))

theorem startUp_start {avro : AvroSchemas} {get : Str → Option Int32} {configs : SchemaMap}
    {s : Service} (h : startUp avro get configs = .ok s) :
    IdsReturned s.schemas s.returned ∧ OnlyRegistered s := by
  rw [startUp] at h
  cases hschemas : schemas avro get configs with
  | error e =>
      rw [hschemas] at h
      cases h
  | ok m =>
      rw [hschemas] at h
      cases h
      have hempty : IdsReturned ∅ (fetched get configs) := by
        intro topic config hc
        simp at hc
      exact ⟨addSchemas_ids (fun _ h => h) hempty hschemas, by simp, by simp⟩

theorem publishRow_registered {s t : Service} {r : Row}
    (hadd : ∀ topic id, r.answers.add topic = some id → 0 ≤ id)
    (h : publishRow libraries maxAge s r = some t) (hids : IdsReturned s.schemas s.returned)
    (hs : OnlyRegistered s) :
    (OnlyRegistered t ↔ RowMeets libraries maxAge s r) ∧ IdsReturned t.schemas t.returned := by
  have hadd' : ∀ topic id, r.answers.add topic = some id → id ≠ -1 := by
    rintro topic id hid rfl
    exact absurd (hadd topic (-1) hid) (by decide)
  have hentries : ∀ entry ∈ s.schemas.toList,
      entry.2.schemaId = -1 ∨ (entry.1, entry.2.schemaId) ∈ s.returned := by
    intro entry hm
    exact hids entry.1 entry.2 (Std.TreeMap.mem_toList_iff_getElem?_eq_some.mp hm)
  rw [publishRow] at h
  split_ifs at h
  obtain ⟨exit, u, calls, hpublish, hcalls, hiff⟩ := @publishTopics_registered libraries maxAge
    r.answers r.row.value s.schemas.toList ⟨r.row, r.oldCount, s.schemas, [], [], 0⟩ s.returned
    none (toList_distinct s.schemas) rfl rfl hentries hadd'
  have hids' := @publishTopics_ids libraries maxAge r.answers r.row.value s.schemas.toList
    ⟨r.row, r.oldCount, s.schemas, [], [], 0⟩ s.returned rfl hids
  obtain ⟨more, hmore, -⟩ := @returnedBy_split libraries maxAge r.answers r.row.value
    s.schemas.toList ⟨r.row, r.oldCount, s.schemas, [], [], 0⟩ s.returned
  rw [hpublish] at hids'
  rw [publish, hpublish] at h
  cases h
  refine ⟨?_, hids'⟩
  have hold : ∀ call ∈ s.calls, Registered (returnedBy libraries maxAge r.answers r.row.value
      s.schemas.toList ⟨r.row, r.oldCount, s.schemas, [], [], 0⟩ s.returned) call := by
    intro call hm
    rw [hmore]
    exact registered_mono (hs.1 call hm) more
  rw [OnlyRegistered, RowMeets, ← hiff, hcalls, List.nil_append, List.forall_mem_append,
    and_iff_right hold]

/-- Over every run, what is published has ids that the registry returned for its
topic exactly when the registry has a schema for every topic that asks it to
register one, and no message has the frame of a topic with other ids in front. -/
theorem only_registered_iff {avro : AvroSchemas} {get : Str → Option Int32} {configs : SchemaMap}
    {s t : Service} {tr : List Row} (hstart : startUp avro get configs = .ok s)
    (hadd : ∀ r ∈ tr, ∀ topic id, r.answers.add topic = some id → 0 ≤ id)
    (hr : run (publishRow libraries maxAge) s tr = some t) :
    (∀ xs ys u, tr = xs ++ ys → run (publishRow libraries maxAge) s xs = some u →
        OnlyRegistered u) ↔
      Along (publishRow libraries maxAge) (RowMeets libraries maxAge) s tr := by
  obtain ⟨hids, hs⟩ := startUp_start hstart
  apply @prefixes_iff_along Service Row _ _ _ (fun s => IdsReturned s.schemas s.returned) _ ?_
    s t tr hr hadd hids hs
  intro s r t h hadd hids hs
  exact publishRow_registered hadd h hids hs

def unregisteredTopic : SchemaConfig := ⟨['t'], ['c'], [['c']], ∅, ∅, ⟨[], []⟩, -1⟩

def unregisteredTopics : SchemaMap := .ofList [(['t'], unregisteredTopic)]

def registeringAnswers (id : Option Int32) : Answers :=
  ⟨fun _ _ => 0, fun _ => id, fun _ => [.noError]⟩

def noSubjects (_ : Str) : Option Int32 := none

theorem only_registered_once : ∃ s t,
    startUp plainSchemas noSubjects unregisteredTopics = .ok s ∧
    run (publishRow recordingLibraries none) s [⟨registeringAnswers (some 7), .empty, 0⟩] = some t ∧
    ((∀ xs ys u, [⟨registeringAnswers (some 7), .empty, 0⟩] = xs ++ ys →
        run (publishRow recordingLibraries none) s xs = some u → OnlyRegistered u) ↔
      Along (publishRow recordingLibraries none) (RowMeets recordingLibraries none) s
        [⟨registeringAnswers (some 7), .empty, 0⟩]) := by
  have hs : ∃ s, startUp plainSchemas noSubjects unregisteredTopics = .ok s := ⟨_, rfl⟩
  obtain ⟨s, hs⟩ := hs
  have ht : ∃ t, run (publishRow recordingLibraries none) s
      [⟨registeringAnswers (some 7), .empty, 0⟩] = some t := by
    cases hs
    exact ⟨_, rfl⟩
  obtain ⟨t, ht⟩ := ht
  refine ⟨s, t, hs, ht, only_registered_iff hs ?_ ht⟩
  intro r hr topic id hid
  rw [List.mem_singleton.mp hr] at hid
  cases hid
  decide

/-- The registry rejects the schema of the topic. -/
theorem rejected_schema_used : ∃ s t r,
    startUp plainSchemas noSubjects unregisteredTopics = .ok s ∧
    (∀ topic id, Answers.add (Row.answers r) topic = some id → 0 ≤ id) ∧
    run (publishRow recordingLibraries none) s [r] = some t ∧ ¬OnlyRegistered t := by
  have hs : ∃ s, startUp plainSchemas noSubjects unregisteredTopics = .ok s := ⟨_, rfl⟩
  obtain ⟨s, hs⟩ := hs
  have ht : ∃ t, run (publishRow recordingLibraries none) s [⟨registeringAnswers none, .empty, 0⟩] =
      some t ∧ t.exit = .undefined := by
    cases hs
    exact ⟨_, rfl, rfl⟩
  obtain ⟨t, ht, hexit⟩ := ht
  refine ⟨s, t, _, hs, ?_, ht, fun h => h.2 hexit⟩
  intro topic id hid
  cases hid

end Flycatcher.SchemaIds
