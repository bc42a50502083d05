import Flycatcher.PublishFrames
import Mathlib.Algebra.Ring.Int.Defs
import Mathlib.Algebra.Ring.Nat
import Mathlib.Data.List.Basic

namespace Flycatcher.AgeFilter

open Library.TextStreams CsvRow Datums Publish PublishFrames

structure Visit where
  now : Int
  config : SchemaConfig
  field : Str
  record : Record

section Visits

variable (libraries : Libraries) (maxAge : Option (Str × Int)) (answers : Answers)

def Visit.outcome (cells : Str → Str) (v : Visit) : Except Stop Record :=
  setColumn libraries maxAge v.now v.config v.field (cells v.field) v.record

def columnVisits (time : Nat → Int) (config : SchemaConfig) (cells : Str → Str) :
    List Str → Record → List Visit
  | [], _ => []
  | field :: columns, record =>
      let v : Visit := ⟨time columns.length, config, field, record⟩
      v :: match v.outcome libraries maxAge cells with
        | .ok record => columnVisits time config cells columns record
        | .error _ => []

def topicVisits : List (Str × SchemaConfig) → PublishState → List Visit
  | [], _ => []
  | (topic, config) :: topics, s =>
      columnVisits libraries maxAge (answers.time topic) config s.row.value config.columns
          (libraries.record config.schema) ++
        match publishTopic libraries maxAge answers topic config s with
        | .ok s => topicVisits topics s
        | .error _ => []

def visits (schemas : SchemaMap) (row : CSVRow) (oldCount : Nat) : List Visit :=
  topicVisits libraries maxAge answers schemas.toList ⟨row, oldCount, schemas, [], [], 0⟩

def DropsAt (schemas : SchemaMap) (row : CSVRow) (oldCount : Nat) (v : Visit) : Prop :=
  v ∈ visits libraries maxAge answers schemas row oldCount ∧
    v.outcome libraries maxAge row.value = .error .tooOld

end Visits

variable {libraries : Libraries} {maxAge : Option (Str × Int)} {answers : Answers}

theorem columnVisits_tooOld {time : Nat → Int} {config : SchemaConfig} {cells : Str → Str}
    (columns : List Str) (record : Record) :
    recordFrom libraries maxAge time config cells columns record = .error .tooOld ↔
      ∃ v ∈ columnVisits libraries maxAge time config cells columns record,
        v.outcome libraries maxAge cells = .error .tooOld := by
  induction columns generalizing record with
  | nil => simp [recordFrom, columnVisits]
  | cons field columns ih =>
      rw [recordFrom, columnVisits]
      cases hset : setColumn libraries maxAge (time columns.length) config field (cells field)
        record with
      | error stop => simp [Visit.outcome, hset, Except.bind]
      | ok record' => simp [Visit.outcome, hset, Except.bind, ih record']

theorem topicVisits_tooOld (topics : List (Str × SchemaConfig)) (s : PublishState) :
    (publishTopics libraries maxAge answers topics s).1 = .tooOld ↔
      ∃ v ∈ topicVisits libraries maxAge answers topics s,
        v.outcome libraries maxAge s.row.value = .error .tooOld := by
  induction topics generalizing s with
  | nil => simp [publishTopics, topicVisits]
  | cons entry topics ih =>
      obtain ⟨topic, config⟩ := entry
      have hcolumns := @columnVisits_tooOld libraries maxAge (answers.time topic) config s.row.value
        config.columns (libraries.record config.schema)
      have hcourse := publishTopic_course libraries maxAge answers topic config s
      rw [publishTopics, topicVisits]
      simp only [List.mem_append, or_and_right, exists_or, ← hcolumns]
      cases houtcome : publishTopic libraries maxAge answers topic config s with
      | ok t =>
          obtain ⟨record, id, hrecord, -⟩ := publishTopic_ok houtcome
          simp [hrecord, ih t, publishTopic_value houtcome]
      | error exit =>
          rw [houtcome] at hcourse
          generalize ho : Except.error exit = outcome at hcourse
          cases hcourse with
          | stops stop looked hstop =>
              cases ho
              cases stop <;> simp [hstop, stopped]
          | noSchema record looked hrecord =>
              cases ho
              simp [hrecord]
          | unserialized => cases ho
          | produced record looked id encoded calls left hrecord =>
              cases left with
              | false =>
                  cases ho
                  simp [hrecord]
              | true => cases ho

theorem publish_tooOld_iff (schemas : SchemaMap) (row : CSVRow) (oldCount : Nat) :
    (publish libraries maxAge answers schemas row oldCount).1 = .tooOld ↔
      ∃ v, DropsAt libraries maxAge answers schemas row oldCount v :=
  topicVisits_tooOld schemas.toList ⟨row, oldCount, schemas, [], [], 0⟩

theorem outcome_tooOld_iff {column : Str} {days timestamp : Int} {cells : Str → Str} {v : Visit}
    (hcolumn : v.config.fieldName v.field = column) (hcell : stol (cells v.field) = .ok timestamp) :
    v.outcome libraries (some (column, days)) cells = .error .tooOld ↔
      days < daysSince v.now timestamp := by
  rw [Visit.outcome, setColumn, readCell, checkAge]
  simp only [hcolumn, hcell, ne_eq, not_true_eq_false, if_false]
  split_ifs with h
  · simp [bind, Except.bind, h]
  · simp only [bind, Except.bind, h, iff_false]
    cases createDatumForType (cells v.field) (v.config.typeName v.field) with
    | error e => simp [Except.mapError]
    | ok datum =>
        cases libraries.fieldIndex v.config.schema column <;> simp [Except.mapError, pure, Except.pure]

def Lands (days n : Int) : Prop := days < n % 2 ^ 32 ∧ n % 2 ^ 32 < 2 ^ 31

/-- The days fit an int; or there are too many of them, below or above, and
their low 32 bits decide for the right side. A difference that overflows counts
as the negative number it wraps to. -/
def Undisturbed (now timestamp days : Int) : Prop :=
  if now - timestamp < 2 ^ 63 then
    let age := (now - timestamp).tdiv (60 * 60 * 24)
    (-2 ^ 31 ≤ age ∧ age < 2 ^ 31) ∨ (age < -2 ^ 31 ∧ ¬Lands days age) ∨
      (2 ^ 31 ≤ age ∧ Lands days age)
  else Lands days ((now - timestamp - 2 ^ 64).tdiv (60 * 60 * 24))

theorem lt_wrap_iff {days : Int} (h : 0 ≤ days) (n : Int) : days < wrap 32 n ↔ Lands days n := by
  rw [wrap, Lands, Int.bmod_def]
  split_ifs <;> omega

theorem wrap_difference {now timestamp : Int} (hnow : 0 ≤ now ∧ now < 2 ^ 63)
    (ht : -2 ^ 63 ≤ timestamp ∧ timestamp < 2 ^ 63) :
    wrap 64 (now - timestamp) =
      if now - timestamp < 2 ^ 63 then now - timestamp else now - timestamp - 2 ^ 64 := by
  rw [wrap, Int.bmod_def]
  split_ifs <;> omega

theorem lt_daysSince_iff {now timestamp days : Int} (hnow : 0 ≤ now ∧ now < 2 ^ 63)
    (ht : -2 ^ 63 ≤ timestamp ∧ timestamp < 2 ^ 63) (hdays : 0 ≤ days ∧ days < 2 ^ 31) :
    (days < daysSince now timestamp ↔ days < (now - timestamp).tdiv (60 * 60 * 24)) ↔
      Undisturbed now timestamp days := by
  rw [daysSince, lt_wrap_iff hdays.1, wrap_difference hnow ht, Undisturbed]
  split_ifs with hd
  · simp only [Lands]
    generalize (now - timestamp).tdiv (60 * 60 * 24) = age
    omega
  · have hage : days < (now - timestamp).tdiv (60 * 60 * 24) := by
      rw [Int.tdiv_eq_ediv_of_nonneg (by omega)]
      omega
    simp only [hage, iff_true]

theorem stol_range {cell : Str} {n : Int} (h : stol cell = .ok n) : -2 ^ 63 ≤ n ∧ n < 2 ^ 63 := by
  rw [stol, parseInteger] at h
  split at h
  · cases h
  · split_ifs at h with hn
    cases h
    exact hn

/-- Publish drops the row on a column with a timestamp exactly when the time
since then is more days than the rule allows, unless there are so many days
that an int does not hold them. -/
theorem publish_drops_exactly_iff {column : Str} {days timestamp : Int} {schemas : SchemaMap}
    {row : CSVRow} {oldCount : Nat} {v : Visit}
    (hv : v ∈ visits libraries (some (column, days)) answers schemas row oldCount)
    (hcolumn : v.config.fieldName v.field = column)
    (hcell : stol (row.value v.field) = .ok timestamp)
    (hnow : 0 ≤ v.now ∧ v.now < 2 ^ 63) (hdays : 0 ≤ days ∧ days < 2 ^ 31) :
    (DropsAt libraries (some (column, days)) answers schemas row oldCount v ↔
        days < (v.now - timestamp).tdiv (60 * 60 * 24)) ↔
      Undisturbed v.now timestamp days := by
  rw [← lt_daysSince_iff hnow (stol_range hcell) hdays, DropsAt, outcome_tooOld_iff hcolumn hcell,
    and_iff_right hv]

def timedAnswers (now : Int) : Answers := { acceptingAnswers with time := fun _ _ => now }

def agedRow (cell : Str) : CSVRow := CSVRow.empty.assign ['c'] cell

def agedTopic : SchemaMap := .ofList [(['t'], stringTopic ['t'] ['c'] 5)]

def agedVisit (now : Int) : Visit :=
  ⟨now, stringTopic ['t'] ['c'] 5, ['c'], recordingLibraries.record (stringTopic ['t'] ['c'] 5).schema⟩

theorem agedVisit_mem (maxAge : Option (Str × Int)) (now : Int) (cell : Str) :
    agedVisit now ∈ visits recordingLibraries maxAge (timedAnswers now) agedTopic (agedRow cell) 0 :=
  List.mem_append_left _ List.mem_cons_self

theorem publish_drops_exactly_days :
    DropsAt recordingLibraries (some (['c'], 30)) (timedAnswers 1690438510) agedTopic
        (agedRow ['8', '6', '4', '0', '0']) 0 (agedVisit 1690438510) ↔
      30 < (1690438510 - 86400 : Int).tdiv (60 * 60 * 24) :=
  (publish_drops_exactly_iff (agedVisit_mem _ _ _) (by decide) (by decide) (by decide)
    (by decide)).mpr (by simp [Undisturbed, agedVisit])

theorem agedVisit_drops (days now : Int) {cell : Str} {timestamp : Int}
    (h : stol cell = .ok timestamp) :
    DropsAt recordingLibraries (some (['c'], days)) (timedAnswers now) agedTopic (agedRow cell) 0
        (agedVisit now) ↔ days < daysSince now timestamp := by
  have hcell : stol ((agedRow cell).value (agedVisit now).field) = .ok timestamp := by
    rw [agedRow, agedVisit, value_assign_self, h]
  have hname : (agedVisit now).config.fieldName (agedVisit now).field = ['c'] := rfl
  rw [DropsAt, outcome_tooOld_iff hname hcell, and_iff_right (agedVisit_mem _ _ _)]
  rfl

/-- A timestamp in microseconds, when rows of the last month are to be kept. -/
theorem publish_drops_recent :
    DropsAt recordingLibraries (some (['c'], 30)) (timedAnswers 1690438510) agedTopic
        (agedRow "1690438510000000".toList) 0 (agedVisit 1690438510) ∧
      stol "1690438510000000".toList = .ok 1690438510000000 ∧
      ¬30 < (1690438510 - 1690438510000000 : Int).tdiv (60 * 60 * 24) := by
  have hcell : stol "1690438510000000".toList = .ok 1690438510000000 := by decide
  exact ⟨(agedVisit_drops 30 1690438510 hcell).mpr (by decide), hcell, by decide⟩

end Flycatcher.AgeFilter
