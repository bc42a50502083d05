import Flycatcher.Library.Runs
import Flycatcher.Publish
import Mathlib.Data.List.Basic

namespace Flycatcher.PublishAtomicity

open Library.TextStreams Library.Runs CsvRow Datums Publish

section Topics

variable (libraries : Libraries) (maxAge : Option (Str × Int)) (answers : Answers) (cells : Str → Str)

def offendingColumn (time : Nat → Int) (config : SchemaConfig) : List Str → Bool
  | [] => false
  | field :: columns =>
      match readCell maxAge (time columns.length) config field (cells field) with
      | .error _ => true
      | .ok _ =>
          (libraries.fieldIndex config.schema (config.fieldName field)).toBool &&
            offendingColumn time config columns

def Offends (entry : Str × SchemaConfig) : Prop :=
  offendingColumn libraries maxAge cells (answers.time entry.1) entry.2 entry.2.columns = true

def Encodes (entry : Str × SchemaConfig) (encoded : Except Str (List UInt8)) : Prop :=
  ∃ record id, recordFrom libraries maxAge (answers.time entry.1) entry.2 cells entry.2.columns
      (libraries.record entry.2.schema) = .ok record ∧
    schemaIdFor answers entry.1 entry.2 = some id ∧ libraries.encode entry.2.schema record = encoded

def Skipped (entry : Str × SchemaConfig) : Prop :=
  ∃ what, Encodes libraries maxAge answers cells entry (.error what)

def Sent (entry : Str × SchemaConfig) : Prop :=
  (∃ encoded, Encodes libraries maxAge answers cells entry (.ok encoded)) ∧
    ∃ code ∈ answers.produce entry.1, code ≠ .queueFull

end Topics

def Stop.byCell : Stop → Bool
  | .tooOld => true
  | .thrown (.std _) => true
  | .thrown (.avro _) => false

variable {libraries : Libraries} {maxAge : Option (Str × Int)} {answers : Answers} {cells : Str → Str}

theorem checkAge_byCell {now : Int} {name cell : Str} {stop : Stop}
    (h : checkAge maxAge now name cell = .error stop) : Stop.byCell stop = true := by
  cases maxAge with
  | none => cases h
  | some rule =>
      obtain ⟨column, days⟩ := rule
      rw [checkAge] at h
      split_ifs at h
      · cases hparse : stol cell with
        | error e =>
            rw [hparse] at h
            cases h
            rfl
        | ok timestamp =>
            rw [hparse] at h
            simp only at h
            split_ifs at h
            cases h
            rfl

theorem readCell_byCell {now : Int} {config : SchemaConfig} {field cell : Str} {stop : Stop}
    (h : readCell maxAge now config field cell = .error stop) :
    Stop.byCell stop = true := by
  rw [readCell] at h
  cases hage : checkAge maxAge now (config.fieldName field) cell with
  | error stop' =>
      rw [hage] at h
      cases h
      exact checkAge_byCell hage
  | ok u =>
      rw [hage] at h
      cases hd : createDatumForType cell (config.typeName field) with
      | error e =>
          simp only [hd, bind, Except.bind, Except.mapError] at h
          cases h
          rfl
      | ok datum =>
          simp only [hd, bind, Except.bind, Except.mapError] at h
          cases h

theorem offendingColumn_eq (time : Nat → Int) (config : SchemaConfig) (columns : List Str)
    (record : Record) :
    offendingColumn libraries maxAge cells time config columns =
      match recordFrom libraries maxAge time config cells columns record with
      | .ok _ => false
      | .error stop => Stop.byCell stop := by
  induction columns generalizing record with
  | nil => rfl
  | cons field columns ih =>
      rw [offendingColumn, recordFrom, setColumn]
      cases hcell : readCell maxAge (time columns.length) config field (cells field) with
      | error stop => exact (readCell_byCell hcell).symm
      | ok datum =>
          cases libraries.fieldIndex config.schema (config.fieldName field) with
          | error what => rfl
          | ok index => exact ih (libraries.setFieldAt record index datum)

def LeftEarly (exit : Exit) : Prop := exit = .tooOld ∨ ∃ e, exit = .thrown (.std e)

theorem leftEarly_stopped (s : PublishState) (stop : Stop) :
    LeftEarly (stopped s stop).1 ↔ Stop.byCell stop = true := by
  cases stop with
  | tooOld => simp [stopped, LeftEarly, Stop.byCell]
  | thrown e => cases e <;> simp [stopped, LeftEarly, Stop.byCell]

theorem stopped_calls (s : PublishState) (stop : Stop) : (stopped s stop).2.calls = s.calls := by
  cases stop <;> rfl

theorem encodes_unique {entry : Str × SchemaConfig} {encoded encoded' : Except Str (List UInt8)}
    (h : Encodes libraries maxAge answers cells entry encoded)
    (h' : Encodes libraries maxAge answers cells entry encoded') : encoded = encoded' := by
  obtain ⟨record, id, hrecord, -, hencode⟩ := h
  obtain ⟨record', id', hrecord', -, hencode'⟩ := h'
  obtain rfl : record = record' := Except.ok.inj (hrecord.symm.trans hrecord')
  exact hencode.symm.trans hencode'

section Verdict

variable (libraries maxAge answers cells)

inductive Verdict (entry : Str × SchemaConfig) (s : PublishState) : Outcome → Prop
  | early {exit : Exit} {t : PublishState} (ho : Offends libraries maxAge answers cells entry)
      (hn : ∀ encoded, ¬ Encodes libraries maxAge answers cells entry encoded)
      (he : LeftEarly exit) (hc : t.calls = s.calls) : Verdict entry s (.error (exit, t))
  | halts {exit : Exit} {t : PublishState} (ho : ¬ Offends libraries maxAge answers cells entry)
      (hn : ¬ Skipped libraries maxAge answers cells entry)
      (hn' : ¬ Sent libraries maxAge answers cells entry)
      (he : ¬ LeftEarly exit) : Verdict entry s (.error (exit, t))
  | skipped {t : PublishState} (ho : ¬ Offends libraries maxAge answers cells entry)
      (hk : Skipped libraries maxAge answers cells entry)
      (hn : ¬ Sent libraries maxAge answers cells entry)
      (hr : t.row.value = cells) (hc : t.calls = s.calls) : Verdict entry s (.ok t)
  | sent {t : PublishState} (ho : ¬ Offends libraries maxAge answers cells entry)
      (hk : Sent libraries maxAge answers cells entry)
      (hr : t.row.value = cells) (hc : t.calls ≠ []) : Verdict entry s (.ok t)

end Verdict

theorem publishTopic_verdict {s : PublishState} (hs : s.row.value = cells) (topic : Str)
    (config : SchemaConfig) :
    Verdict libraries maxAge answers cells (topic, config) s
      (publishTopic libraries maxAge answers topic config s) := by
  subst hs
  have hoffends := @offendingColumn_eq libraries maxAge s.row.value (answers.time topic) config
    config.columns (libraries.record config.schema)
  have hcourse := publishTopic_course libraries maxAge answers topic config s
  generalize publishTopic libraries maxAge answers topic config s = outcome at hcourse
  cases hcourse with
  | stops stop looked hstop =>
      rw [hstop] at hoffends
      have hn : ∀ encoded, ¬ Encodes libraries maxAge answers s.row.value (topic, config) encoded := by
        rintro encoded ⟨record, id, hrecord, -⟩
        cases hstop.symm.trans hrecord
      by_cases hb : Stop.byCell stop = true
      · exact .early (hoffends.trans hb) hn ((leftEarly_stopped _ stop).mpr hb) (stopped_calls _ stop)
      · refine .halts (fun ho => hb (hoffends.symm.trans ho)) ?_ ?_
          fun he => hb ((leftEarly_stopped _ stop).mp he)
        · rintro ⟨what, he⟩
          exact hn _ he
        · rintro ⟨⟨encoded, he⟩, -⟩
          exact hn _ he
  | noSchema record looked hrecord hid =>
      rw [hrecord] at hoffends
      have hn : ∀ encoded, ¬ Encodes libraries maxAge answers s.row.value (topic, config) encoded := by
        rintro encoded ⟨record', id, -, hid', -⟩
        cases hid.symm.trans hid'
      refine .halts (fun ho => by cases hoffends.symm.trans ho) ?_ ?_ (by simp [LeftEarly])
      · rintro ⟨what, he⟩
        exact hn _ he
      · rintro ⟨⟨encoded, he⟩, -⟩
        exact hn _ he
  | unserialized record looked id what hrecord hid hencode =>
      rw [hrecord] at hoffends
      refine .skipped (fun ho => by cases hoffends.symm.trans ho)
        ⟨what, record, id, hrecord, hid, hencode⟩ ?_ (row_touchAll_value s.row looked) rfl
      rintro ⟨⟨encoded, he⟩, -⟩
      cases encodes_unique he ⟨record, id, hrecord, hid, hencode⟩
  | produced record looked id encoded calls left hrecord hid hencode hcalls =>
      rw [hrecord] at hoffends
      have hleft := produceLoop_left
        ⟨topic, s.outData ++ frame id encoded, s.row.value config.keyColumn⟩ (answers.produce topic)
      have hne := @produceLoop_ne_nil
        ⟨topic, s.outData ++ frame id encoded, s.row.value config.keyColumn⟩ (answers.produce topic)
      rw [hcalls] at hleft hne
      have hn : ¬ Offends libraries maxAge answers s.row.value (topic, config) :=
        fun ho => by cases hoffends.symm.trans ho
      cases left with
      | false =>
          refine .halts hn ?_ (fun hk => by simpa using hleft.mpr hk.2) (by simp [LeftEarly])
          rintro ⟨what, he⟩
          cases encodes_unique he ⟨record, id, hrecord, hid, hencode⟩
      | true =>
          refine .sent hn ⟨⟨encoded, record, id, hrecord, hid, hencode⟩, hleft.mp rfl⟩
            (row_touchAll_value s.row looked) ?_
          simp [PublishState.sent, hne rfl]

/-- Whether publish leaves a row early with messages handed over is decided by
the topics up to the first one that offends. -/
theorem publishTopics_leftEarly_iff {topics : List (Str × SchemaConfig)} {s : PublishState}
    (hs : s.row.value = cells) :
    LeftEarly (publishTopics libraries maxAge answers topics s).1 ∧
        (publishTopics libraries maxAge answers topics s).2.calls ≠ [] ↔
      ∃ before entry after, topics = before ++ entry :: after ∧
        (Offends libraries maxAge answers cells entry ∧
          (∀ t ∈ before, Skipped libraries maxAge answers cells t ∨
            Sent libraries maxAge answers cells t) ∧
          (s.calls ≠ [] ∨ ∃ t ∈ before, Sent libraries maxAge answers cells t)) := by
  induction topics generalizing s with
  | nil => simp [publishTopics, LeftEarly]
  | cons entry topics ih =>
      rw [publishTopics, exists_split_cons]
      have hverdict := @publishTopic_verdict libraries maxAge answers cells s hs entry.1 entry.2
      generalize publishTopic libraries maxAge answers entry.1 entry.2 s = outcome at hverdict
      cases hverdict with
      | early ho hn he hc =>
          have hk : ¬ Skipped libraries maxAge answers cells entry := by
            rintro ⟨what, h⟩
            exact hn _ h
          have hk' : ¬ Sent libraries maxAge answers cells entry := by
            rintro ⟨⟨encoded, h⟩, -⟩
            exact hn _ h
          simp [ho, hk, hk', he, hc]
      | halts ho hn hn' he => simp [ho, hn, hn', he]
      | skipped ho hk hn hr hc => simp [ih hr, ho, hk, hn, hc]
      | sent ho hk hr hc => simp [ih hr, ho, hk, hc]

/-- A row that is too old or malformed reaches no topic exactly when no topic
that offends comes after topics that let publish go on, one of which has been
sent. -/
theorem publish_all_or_none_iff (libraries : Libraries) (maxAge : Option (Str × Int))
    (answers : Answers) (schemas : SchemaMap) (row : CSVRow) (oldCount : Nat) :
    ((oldCount < (publish libraries maxAge answers schemas row oldCount).2.oldCount ∨
        ∃ e, (publish libraries maxAge answers schemas row oldCount).1 = .thrown (.std e)) →
      (publish libraries maxAge answers schemas row oldCount).2.calls = []) ↔
    ¬ ∃ before entry after, schemas.toList = before ++ entry :: after ∧
      (Offends libraries maxAge answers row.value entry ∧
        (∀ t ∈ before, Skipped libraries maxAge answers row.value t ∨
          Sent libraries maxAge answers row.value t) ∧
        ∃ t ∈ before, Sent libraries maxAge answers row.value t) := by
  have h := @publishTopics_leftEarly_iff libraries maxAge answers row.value schemas.toList
    ⟨row, oldCount, schemas, [], [], 0⟩ rfl
  simp only [ne_eq, not_true_eq_false, false_or] at h
  rw [publish_oldCount_lt, ← h, not_and_not_right]
  rfl

/-- The first topic has the row when the conversion for the second one throws. -/
theorem publish_some_before_error :
    ∃ (libraries : Libraries) (answers : Answers) (schemas : SchemaMap) (row : CSVRow),
      (publish libraries none answers schemas row 0).1 =
        .thrown (.std (.invalidArgument "stoi")) ∧
      (publish libraries none answers schemas row 0).2.calls ≠ [] := by
  refine ⟨.withEncoder fun _ _ => .ok [],
    ⟨fun _ _ => 0, fun _ => none, fun _ => [.noError]⟩,
    .ofList [(['t'], SchemaConfig.mk ['t'] ['c'] [['c']] ∅ ∅ ⟨['t'], [(['c'], .string)]⟩ 5),
      (['u'], SchemaConfig.mk ['u'] ['c'] [['c']] ∅ (.ofList [(['c'], intType)]) ⟨['u'], [(['c'], .int)]⟩ 6)],
    CSVRow.empty.assign ['c'] ['x'], ?_, ?_⟩
  · decide
  · decide

end Flycatcher.PublishAtomicity
