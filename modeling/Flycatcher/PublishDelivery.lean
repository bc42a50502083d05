import Flycatcher.PublishAtomicity
import Flycatcher.PublishFrames
import Mathlib.Data.List.Forall2

namespace Flycatcher.PublishDelivery

open Library.TextStreams CsvRow Publish PublishAtomicity PublishFrames

def callsFor (topic : Str) (calls : List ProduceCall) : List ProduceCall :=
  calls.filter fun call => call.message.topic = topic

def accepted (calls : List ProduceCall) : Nat := calls.countP fun call => call.code = .noError

def topicCalls (libraries : Libraries) (maxAge : Option (Str × Int)) (answers : Answers)
    (schemas : SchemaMap) (row : CSVRow) (oldCount : Nat) (topic : Str) : List ProduceCall :=
  callsFor topic (publish libraries maxAge answers schemas row oldCount).2.calls

def finalAnswer (codes : List ErrorCode) : Option ErrorCode := codes.find? (· ≠ .queueFull)

section Deliveries

variable (libraries : Libraries) (maxAge : Option (Str × Int)) (answers : Answers) (cells : Str → Str)

inductive Delivery (entry : Str × SchemaConfig) : List ProduceCall → Prop
  | unserialized {what : Str}
      (hencodes : Encodes libraries maxAge answers cells entry (.error what)) : Delivery entry []
  | handedOver {encoded : List UInt8} {message : Message} {code : ErrorCode} (n : Nat)
      (hencodes : Encodes libraries maxAge answers cells entry (.ok encoded))
      (htopic : message.topic = entry.1)
      (hcode : finalAnswer (answers.produce entry.1) = some code) :
      Delivery entry (List.replicate n ⟨message, .queueFull⟩ ++ [⟨message, code⟩])

end Deliveries

variable {libraries : Libraries} {maxAge : Option (Str × Int)} {answers : Answers} {cells : Str → Str}

theorem produceLoop_finalAnswer {message : Message} {codes : List ErrorCode}
    {calls : List ProduceCall} (h : produceLoop message codes = (calls, true)) :
    ∃ n code, finalAnswer codes = some code ∧
      calls = List.replicate n ⟨message, .queueFull⟩ ++ [⟨message, code⟩] := by
  induction codes generalizing calls with
  | nil => cases h
  | cons code codes ih =>
      cases code with
      | queueFull =>
          rw [produceLoop] at h
          cases hrest : produceLoop message codes with
          | mk rest left =>
              rw [hrest] at h
              obtain ⟨rfl, rfl⟩ := Prod.mk.inj h
              obtain ⟨n, code, hcode, rfl⟩ := ih hrest
              exact ⟨n + 1, code, hcode, rfl⟩
      | noError =>
          cases h
          exact ⟨0, .noError, rfl, rfl⟩
      | other code =>
          cases h
          exact ⟨0, .other code, rfl, rfl⟩

theorem publishTopic_delivery {s t : PublishState} (hs : s.row.value = cells) {topic : Str}
    {config : SchemaConfig} (h : publishTopic libraries maxAge answers topic config s = .ok t) :
    ∃ block, Delivery libraries maxAge answers cells (topic, config) block ∧
      t.calls = s.calls ++ block ∧ t.sigints = s.sigints + if block = [] then 1 else 0 := by
  subst hs
  obtain ⟨record, id, hrecord, hid, hcourse⟩ := publishTopic_ok h
  rcases hcourse with ⟨what, hencode, -, hcalls, hsigints⟩ |
    ⟨encoded, calls, hencode, hloop, -, hcalls, hsigints⟩
  · refine ⟨[], .unserialized ⟨record, id, hrecord, hid, hencode⟩, ?_, hsigints⟩
    rw [hcalls, List.append_nil]
  · obtain ⟨n, code, hcode, rfl⟩ := produceLoop_finalAnswer hloop
    refine ⟨_, .handedOver n ⟨record, id, hrecord, hid, hencode⟩ rfl hcode, hcalls, ?_⟩
    rw [hsigints, if_neg (List.append_ne_nil_of_right_ne_nil _ (List.cons_ne_nil _ _)), Nat.add_zero]

theorem publishTopic_error {s t : PublishState} {topic : Str} {config : SchemaConfig} {exit : Exit}
    (h : publishTopic libraries maxAge answers topic config s = .error (exit, t)) :
    exit ≠ .returned := by
  have hcourse := publishTopic_course libraries maxAge answers topic config s
  rw [h] at hcourse
  generalize ho : Except.error (exit, t) = outcome at hcourse
  cases hcourse with
  | stops stop =>
      cases stop with
      | tooOld | thrown =>
          cases ho
          simp
  | noSchema =>
      cases ho
      simp
  | unserialized => cases ho
  | produced record looked id encoded calls left =>
      cases left with
      | true => cases ho
      | false =>
          cases ho
          simp

theorem publishTopics_deliveries {topics : List (Str × SchemaConfig)} {s t : PublishState}
    (hs : s.row.value = cells)
    (h : publishTopics libraries maxAge answers topics s = (.returned, t)) :
    ∃ blocks, List.Forall₂ (Delivery libraries maxAge answers cells) topics blocks ∧
      t.calls = s.calls ++ blocks.flatten ∧ t.sigints = s.sigints + blocks.countP (· = []) := by
  induction topics generalizing s with
  | nil =>
      cases h
      exact ⟨[], .nil, (List.append_nil _).symm, rfl⟩
  | cons entry topics ih =>
      obtain ⟨topic, config⟩ := entry
      rw [publishTopics] at h
      cases hout : publishTopic libraries maxAge answers topic config s with
      | error exit =>
          rw [hout] at h
          cases h
          exact absurd rfl (publishTopic_error hout)
      | ok u =>
          rw [hout] at h
          obtain ⟨block, hblock, hcalls, hsigints⟩ := publishTopic_delivery hs hout
          obtain ⟨blocks, hblocks, hcalls', hsigints'⟩ := ih ((publishTopic_value hout).trans hs) h
          refine ⟨block :: blocks, .cons hblock hblocks, ?_, ?_⟩
          · rw [hcalls', hcalls, List.flatten_cons, List.append_assoc]
          · rw [hsigints', hsigints, List.countP_cons]
            simp only [decide_eq_true_eq]
            omega

theorem delivery_topic {entry : Str × SchemaConfig} {block : List ProduceCall}
    (h : Delivery libraries maxAge answers cells entry block) :
    ∀ call ∈ block, call.message.topic = entry.1 := by
  cases h with
  | unserialized =>
      intro call hm
      cases hm
  | handedOver n hencodes htopic hcode =>
      intro call hm
      rcases List.mem_append.mp hm with hm | hm
      · rw [List.eq_of_mem_replicate hm, htopic]
      · rw [List.mem_singleton.mp hm, htopic]

theorem callsFor_own {topic : Str} {calls : List ProduceCall}
    (h : ∀ call ∈ calls, call.message.topic = topic) : callsFor topic calls = calls := by
  rw [callsFor, List.filter_eq_self]
  intro call hm
  exact decide_eq_true (h call hm)

theorem callsFor_foreign {topic : Str} {calls : List ProduceCall}
    (h : ∀ call ∈ calls, call.message.topic ≠ topic) : callsFor topic calls = [] := by
  rw [callsFor, List.filter_eq_nil_iff]
  intro call hm
  simpa using h call hm

/-- Where each block holds the calls of its own topic, the topics tell the
blocks apart. -/
theorem blocks_eq {topics : List (Str × SchemaConfig)} {blocks : List (List ProduceCall)}
    (hdistinct : topics.Pairwise fun a b => a.1 ≠ b.1)
    (h : List.Forall₂ (fun entry block => ∀ call ∈ block, call.message.topic = entry.1)
      topics blocks) :
    blocks = topics.map fun entry => callsFor entry.1 blocks.flatten := by
  induction h with
  | nil => rfl
  | @cons entry block topics blocks hblock hblocks ih =>
      obtain ⟨hentry, hdistinct⟩ := List.pairwise_cons.mp hdistinct
      have hin : ∀ call ∈ blocks.flatten, ∃ other ∈ topics, call.message.topic = other.1 := by
        intro call hm
        obtain ⟨other, hother, hm⟩ := List.mem_flatten.mp hm
        obtain ⟨i, hi, rfl⟩ := List.getElem_of_mem hother
        have hi' : i < topics.length := hblocks.length_eq ▸ hi
        exact ⟨topics[i], List.getElem_mem hi', hblocks.get hi' hi call hm⟩
      have hself : callsFor entry.1 (block ++ blocks.flatten) = block := by
        have hrest : callsFor entry.1 blocks.flatten = [] := by
          apply callsFor_foreign
          intro call hm
          obtain ⟨other, hother, he⟩ := hin call hm
          exact he ▸ (hentry other hother).symm
        have hblock := callsFor_own hblock
        rw [callsFor] at hblock hrest ⊢
        rw [List.filter_append, hblock, hrest, List.append_nil]
      rw [List.map_cons, List.flatten_cons, hself]
      congr 1
      refine (ih hdistinct).trans (List.map_congr_left ?_)
      intro other hother
      have hnone : callsFor other.1 block = [] := by
        apply callsFor_foreign
        intro call hm
        exact hblock call hm ▸ hentry other hother
      rw [callsFor] at hnone ⊢
      rw [callsFor, List.filter_append, hnone, List.nil_append]

theorem delivery_accepted {entry : Str × SchemaConfig} {block : List ProduceCall}
    (h : Delivery libraries maxAge answers cells entry block) :
    accepted block ≤ 1 ∧ (accepted block = 1 ↔
      (∃ encoded, Encodes libraries maxAge answers cells entry (.ok encoded)) ∧
        finalAnswer (answers.produce entry.1) = some .noError) := by
  cases h with
  | unserialized hencodes =>
      refine ⟨Nat.zero_le _, fun h => (by cases h), ?_⟩
      rintro ⟨⟨encoded, hencodes'⟩, -⟩
      cases encodes_unique hencodes hencodes'
  | @handedOver encoded message code n hencodes htopic hcode =>
      have hretries : accepted (List.replicate n ⟨message, .queueFull⟩) = 0 := by
        rw [accepted, List.countP_eq_zero]
        intro call hm
        simp [List.eq_of_mem_replicate hm]
      have hcount : accepted (List.replicate n ⟨message, .queueFull⟩ ++ [⟨message, code⟩]) =
          if code = .noError then 1 else 0 := by
        rw [accepted] at hretries
        rw [accepted, List.countP_append, hretries]
        simp [List.countP_cons]
      rw [hcount, hcode]
      split_ifs with hc
      · have hencoded : ∃ encoded, Encodes libraries maxAge answers cells entry (.ok encoded) :=
          ⟨encoded, hencodes⟩
        simp [hc, hencoded]
      · simp [hc]

/-- When publish returns without dropping the row, every topic has been tried
until the broker took its message or gave another answer than a full queue,
unless its record could not be serialized, and no message was taken twice. -/
theorem publish_delivers {schemas : SchemaMap} {row : CSVRow} {oldCount : Nat}
    (h : (publish libraries maxAge answers schemas row oldCount).1 = .returned) :
    (∀ entry ∈ schemas.toList,
      Delivery libraries maxAge answers row.value entry
        (topicCalls libraries maxAge answers schemas row oldCount entry.1) ∧
      accepted (topicCalls libraries maxAge answers schemas row oldCount entry.1) ≤ 1 ∧
      (accepted (topicCalls libraries maxAge answers schemas row oldCount entry.1) = 1 ↔
        (∃ encoded, Encodes libraries maxAge answers row.value entry (.ok encoded)) ∧
          finalAnswer (answers.produce entry.1) = some .noError)) ∧
    (publish libraries maxAge answers schemas row oldCount).2.sigints =
      schemas.toList.countP fun entry =>
        topicCalls libraries maxAge answers schemas row oldCount entry.1 = [] := by
  have hrun : publish libraries maxAge answers schemas row oldCount =
      (.returned, (publish libraries maxAge answers schemas row oldCount).2) := Prod.ext h rfl
  obtain ⟨blocks, hblocks, hcalls, hsigints⟩ := publishTopics_deliveries rfl hrun
  rw [List.nil_append] at hcalls
  rw [Nat.zero_add] at hsigints
  have heq := blocks_eq (toList_distinct schemas) (hblocks.imp fun _ _ => delivery_topic)
  rw [← hcalls] at heq
  simp only [topicCalls]
  constructor
  · intro entry he
    rw [heq, List.forall₂_map_right_iff, List.forall₂_same] at hblocks
    exact ⟨hblocks entry he, delivery_accepted (hblocks entry he)⟩
  · rw [hsigints, heq, List.countP_map]
    rfl

def decliningAnswers : Answers := ⟨fun _ _ => 0, fun _ => none, fun _ => [.queueFull, .other 10]⟩

def oneTopic : SchemaMap := .ofList [(['t'], stringTopic ['t'] ['c'] 5)]

theorem publish_delivers_retried :
    (∀ entry ∈ oneTopic.toList,
      Delivery recordingLibraries none decliningAnswers CSVRow.empty.value entry
        (topicCalls recordingLibraries none decliningAnswers oneTopic .empty 0 entry.1) ∧
      accepted (topicCalls recordingLibraries none decliningAnswers oneTopic .empty 0 entry.1) ≤ 1 ∧
      (accepted (topicCalls recordingLibraries none decliningAnswers oneTopic .empty 0 entry.1) = 1 ↔
        (∃ encoded, Encodes recordingLibraries none decliningAnswers CSVRow.empty.value entry
            (.ok encoded)) ∧
          finalAnswer (decliningAnswers.produce entry.1) = some .noError)) ∧
    (publish recordingLibraries none decliningAnswers oneTopic .empty 0).2.sigints =
      oneTopic.toList.countP fun entry =>
        topicCalls recordingLibraries none decliningAnswers oneTopic .empty 0 entry.1 = [] :=
  publish_delivers (by decide)

/-- The broker declines the message after a retry, and publish returns. -/
theorem publish_returns_undelivered :
    (publish recordingLibraries none decliningAnswers oneTopic .empty 0).1 = .returned ∧
      (publish recordingLibraries none decliningAnswers oneTopic .empty 0).2.oldCount = 0 ∧
      ∃ entry ∈ oneTopic.toList,
        accepted (topicCalls recordingLibraries none decliningAnswers oneTopic .empty 0 entry.1) = 0 :=
  ⟨by decide, by decide, _, List.mem_singleton_self _, by decide⟩

end Flycatcher.PublishDelivery
