import Flycatcher.HandleCall
import Flycatcher.Publish
import Flycatcher.RowIsolation
import Mathlib.Data.List.Basic

namespace Flycatcher.HandleRows

open Library.TextStreams Library.Statements CsvRow CsvIterator Datums Transformers RowIsolation
open HandleCall

def whatOf : StdException → Str
  | .invalidArgument what => what.toList
  | .outOfRange what => what.toList
  | .logicError what => what.toList

def outcomeOf : Publish.Exit → Option Outcome
  | .returned => some .published
  | .tooOld => some .ignored
  | .thrown (.std e) => some (.threw (.exception (whatOf e)))
  | .thrown (.avro what) => some (.threw (.exception what))
  | .undefined => none
  | .waiting => none

abbrev Process := Nat → CSVRow → CSVRow × Outcome

def Process.Keeps (process : Process) : Prop :=
  ∀ i row, (process i row).1.line = row.line ∧ (process i row).1.columns = row.columns

def rowTurn (pastEnd : Code) (d : Str) (process : Process) (s : Locals) (row : CSVRow) :
    Turn Locals :=
  let (after, outcome) := process (attempts s.events).length row
  let (completion, s) := handleRow pastEnd d ⟨row.line, after, outcome⟩ s
  ⟨s, after, completion ≠ .normally⟩

theorem publish_oldCount (libraries : Publish.Libraries) (maxAge : Option (Str × Int))
    (answers : Publish.Answers) (schemas : Publish.SchemaMap) (row : CSVRow) (oldCount : Nat)
    {outcome : Outcome}
    (h : outcomeOf (Publish.publish libraries maxAge answers schemas row oldCount).1 = some outcome) :
    (Publish.publish libraries maxAge answers schemas row oldCount).2.oldCount =
      if outcome = .ignored then oldCount + 1 else oldCount := by
  have hold := Publish.publishTopics_oldCount libraries maxAge answers schemas.toList
    ⟨row, oldCount, schemas, [], [], 0⟩
  rw [← Publish.publish] at hold
  rw [hold]
  generalize (Publish.publish libraries maxAge answers schemas row oldCount).1 = exit at h
  cases exit with
  | returned | tooOld =>
      cases h
      rfl
  | thrown e =>
      cases e <;> cases h <;> rfl
  | undefined | waiting => cases h

theorem publish_keeps (chain : List Transformer) (libraries : Publish.Libraries)
    (maxAge : Option (Str × Int)) (answers : Publish.Answers) (schemas : Publish.SchemaMap)
    (row : CSVRow) (oldCount : Nat) :
    (Publish.publish libraries maxAge answers schemas (operate chain row) oldCount).2.row.line =
        row.line ∧
      (Publish.publish libraries maxAge answers schemas (operate chain row) oldCount).2.row.columns =
        row.columns := by
  obtain ⟨looked, hrow⟩ := Publish.publishTopics_row libraries maxAge answers schemas.toList
    ⟨operate chain row, oldCount, schemas, [], [], 0⟩
  rw [← Publish.publish] at hrow
  obtain ⟨hline, hcolumns⟩ := touchAll_keeps (operate chain row) looked
  obtain ⟨hl, hc⟩ := runSteps_keeps (chain.flatMap Transformer.steps) row
  rw [← operate_eq_runSteps] at hl hc
  rw [hrow]
  exact ⟨hline.trans hl, hcolumns.trans hc⟩

/-- For every row, what the process gives is what some answers of the registry and
of Kafka make of the transformers and publish. -/
def Process.Publishes (process : Process) (chain : List Transformer)
    (libraries : Publish.Libraries) (maxAge : Option (Str × Int)) : Prop :=
  ∀ i row, ∃ answers schemas oldCount,
    outcomeOf (Publish.publish libraries maxAge answers schemas (operate chain row) oldCount).1 =
        some (process i row).2 ∧
      (Publish.publish libraries maxAge answers schemas (operate chain row) oldCount).2.row =
        (process i row).1

theorem Process.Publishes.keeps {process : Process} {chain : List Transformer}
    {libraries : Publish.Libraries} {maxAge : Option (Str × Int)}
    (h : process.Publishes chain libraries maxAge) : process.Keeps := by
  intro i row
  obtain ⟨answers, schemas, oldCount, -, hrow⟩ := h i row
  rw [← hrow]
  exact publish_keeps chain libraries maxAge answers schemas row oldCount

theorem processRow_oldCount (libraries : Publish.Libraries) (maxAge : Option (Str × Int))
    (answers : Publish.Answers) (schemas : Publish.SchemaMap) (row : CSVRow) (a : Attempt) (s : Locals)
    (h : outcomeOf (Publish.publish libraries maxAge answers schemas row s.oldCount).1 =
      some a.outcome) :
    (processRow a s).2.oldCount =
      (Publish.publish libraries maxAge answers schemas row s.oldCount).2.oldCount := by
  rw [publish_oldCount libraries maxAge answers schemas row s.oldCount h]
  obtain ⟨line, left, outcome⟩ := a
  cases outcome with
  | published => rfl
  | ignored => rfl
  | threw e => rfl

theorem feedLines_handleRows {process : Process} (hkeeps : process.Keeps) (pastEnd : Code) (d : Str)
    (lines : List Str) (row : CSVRow)
    (hfits : ∀ line ∈ lines, (lineFields (stripLine line)).length ≤ row.columns.length) (s : Locals) :
    ∃ rows, rows.map Attempt.line = lines.map stripLine ∧
      feedLines (rowTurn pastEnd d process) lines row s =
        some (handleRows pastEnd d ⟨rows, none⟩ s).2 := by
  induction lines generalizing row s with
  | nil => exact ⟨[], rfl, rfl⟩
  | cons line lines ih =>
      obtain ⟨hfit, hfits⟩ := List.forall_mem_cons.mp hfits
      obtain ⟨row', hp⟩ := Option.isSome_iff_exists.mp ((parse_isSome row (stripLine line)).mpr hfit)
      obtain ⟨hcolumns, hline⟩ := parse_columns hp
      generalize hprocess : process (attempts s.events).length row' = processed
      obtain ⟨after, outcome⟩ := processed
      have hafter := hkeeps (attempts s.events).length row'
      rw [hprocess] at hafter
      rw [feedLines, hp, Option.bind_eq_bind, Option.bind_some, rowTurn, hprocess]
      simp only
      generalize hhandle : handleRow pastEnd d ⟨row'.line, after, outcome⟩ s = left
      obtain ⟨completion, t⟩ := left
      have hturn (rows : List Attempt) :
          handleRows pastEnd d ⟨⟨row'.line, after, outcome⟩ :: rows, none⟩ s =
            turn (fun _ => (completion, t)) (handleRows pastEnd d ⟨rows, none⟩) s := by
        rw [handleRows, forEach, turn, hhandle]
        rfl
      cases completion with
      | normally =>
          obtain ⟨rows, hlines, hrest⟩ := ih after
            (by rw [hafter.2, hcolumns]; exact hfits) t
          refine ⟨⟨row'.line, after, outcome⟩ :: rows, ?_, ?_⟩
          · rw [List.map_cons, List.map_cons, hlines, hline]
          · rw [hturn, if_neg (by simp), hrest]
            rfl
      | byBreak | byThrow e | ended =>
          refine ⟨⟨row'.line, after, outcome⟩ ::
            lines.map fun line => ⟨stripLine line, .empty, .published⟩, ?_, ?_⟩
          · rw [List.map_cons, List.map_cons, List.map_map, hline]
            rfl
          · rw [hturn, if_pos (by simp)]
            rfl

/-- The loop over a file through the iterator attempts the lines behind the
header. -/
theorem forRows_handleRows {process : Process} (hkeeps : process.Keeps) (pastEnd : Code) (d : Str)
    {header text : Str}
    (hheader : '\n' ∉ header) (hfits : ∀ line ∈ textLines text,
      (lineFields (stripLine line)).length ≤ (headerColumns header).length) (s : Locals) :
    ∃ rows, rows.map Attempt.line = (textLines text).map stripLine ∧
      forRows (rowTurn pastEnd d process) (header ++ '\n' :: text) s =
        some (handleRows pastEnd d ⟨rows, none⟩ s).2 := by
  have hbody : KeepsLine (rowTurn pastEnd d process) := by
    intro s row
    exact hkeeps (attempts s.events).length row
  rw [forRows_eq hbody hheader]
  exact feedLines_handleRows hkeeps pastEnd d (textLines text) _ hfits s

end Flycatcher.HandleRows
