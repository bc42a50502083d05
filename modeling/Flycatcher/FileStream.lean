import Flycatcher.HandleRows
import Flycatcher.PublishDelivery
import Flycatcher.Serialization
import Mathlib.Data.List.Basic

namespace Flycatcher.FileStream

open Library.TextStreams Library.Statements CsvRow CsvIterator CsvRoundTrip Transformers
open RowIsolation Logging Publish PublishFrames PublishDelivery HandleRows
open HandleCall (Attempt Event Locals handleRow entered processing doneWith)
open FileNames (inprogress done)

structure Setup (ι : Type) where
  chain : List Transformer
  libraries : Libraries
  maxAge : Option (Str × Int)
  answers : ι → Answers

/-- The locals of handle, the schemas, which the processors share, and the calls
of produce for each row so far. The run has halted when publish does not return, or
when operator<< is left past its end: what the program does from there on is
undefined. -/
structure Streamed where
  locals : Locals
  schemas : SchemaMap
  calls : List (List ProduceCall)
  halted : Bool

def Setup.publishRow {ι : Type} (setup : Setup ι) (i : ι) (schemas : SchemaMap) (row : CSVRow)
    (oldCount : Nat) : Exit × PublishState :=
  publish setup.libraries setup.maxAge (setup.answers i) schemas (operate setup.chain row) oldCount

def streamRow (setup : Setup Nat) (d : Str) (s : Streamed) (row : CSVRow) : Turn Streamed :=
  let (exit, t) := setup.publishRow s.calls.length s.schemas row s.locals.oldCount
  let s := { s with schemas := t.schemas, calls := s.calls ++ [t.calls] }
  match outcomeOf exit with
  | none => ⟨{ s with halted := true }, t.row, true⟩
  | some outcome =>
      let (completion, locals) := handleRow endProgram d ⟨row.line, t.row, outcome⟩ s.locals
      ⟨{ s with locals, halted := completion = .ended }, t.row, completion ≠ .normally⟩

/-- handle from the first rename on, when that has succeeded. -/
def streamFile (setup : Setup Nat) (d : Str) (schemas : SchemaMap) (text : Str) : Option Streamed := do
  let s ← forRows (streamRow setup d) text ⟨(entered d).setExcCount 0, schemas, [], false⟩
  return if s.halted then s else
    { s with
      locals := HandleCall.left d ((setup.maxAge.map Prod.snd).getD 0)
        (s.locals.emit (.rename (inprogress d) (done d))) }

/-- What the records of a file come to: no stream, no iterator and no row that
is used again. -/
structure Ledger where
  schemas : SchemaMap
  calls : List (List ProduceCall)
  oldCount : Nat
  halted : Bool

def Ledger.enter (g : Ledger) : HandleCall.Outcome → Ledger
  | .published => g
  | .ignored => { g with oldCount := g.oldCount + 1 }
  | .threw _ => { g with halted := true }

def Setup.enterRow (setup : Setup Nat) (row : CSVRow) (g : Ledger) : Ledger :=
  let (exit, t) := setup.publishRow g.calls.length g.schemas row g.oldCount
  let g := { g with schemas := t.schemas, calls := g.calls ++ [t.calls] }
  match outcomeOf exit with
  | none => { g with halted := true }
  | some outcome => g.enter outcome

def recordRow (names record : List Str) : CSVRow := ⟨[], record, names, assignFields ∅ names record⟩

def Setup.enterAll (setup : Setup Nat) (names : List Str) : List (List Str) → Ledger → Ledger
  | [], g => g
  | record :: records, g =>
      let g := setup.enterRow (recordRow names record) g
      if g.halted then g else setup.enterAll names records g

def lineRecord (line : Str) : List Str := lineFields (stripLine line)

def Event.logged : Event → Option (Level × Str)
  | .log level message => some (level, message)
  | _ => none

def logs (events : List Event) : List (Level × Str) := events.filterMap Event.logged

structure Entered (d : Str) (s : Streamed) (g : Ledger) : Prop where
  schemas : s.schemas = g.schemas
  calls : s.calls = g.calls
  oldCount : s.locals.oldCount = g.oldCount
  halted : s.halted = g.halted
  lines : logs s.locals.events = [(.info, processing d)]

def Ledger.opened (schemas : SchemaMap) : Ledger := ⟨schemas, [], 0, false⟩

structure Kept (setup : Setup Nat) (d : Str) (s : Streamed) (g : Ledger) : Prop where
  schemas : s.schemas = g.schemas
  calls : s.calls = g.calls
  oldCount : s.locals.oldCount = g.oldCount
  halted : s.halted = g.halted
  lines : logs s.locals.events = (.info, processing d) ::
    if g.halted then [] else [(.info, doneWith d g.oldCount ((setup.maxAge.map Prod.snd).getD 0))]

def Shields (names : List Str) (steps : List Step) : Prop :=
  ∀ step ∈ steps, step.overwrites step.column = true →
    step.column ∈ names ∨ shielded step.column steps = true

instance (names : List Str) (steps : List Step) : Decidable (Shields names steps) :=
  inferInstanceAs (Decidable (∀ _ ∈ _, _))

structure Alike (s t : PublishState) : Prop where
  cells : s.row.value = t.row.value
  columns : s.row.columns = t.row.columns
  oldCount : s.oldCount = t.oldCount
  schemas : s.schemas = t.schemas
  outData : s.outData = t.outData
  calls : s.calls = t.calls
  sigints : s.sigints = t.sigints

def AlikeOutcomes : Publish.Outcome → Publish.Outcome → Prop
  | .ok s, .ok t => Alike s t
  | .error (exit, s), .error (exit', t) => exit = exit' ∧ Alike s t
  | _, _ => False

section Cells

variable {libraries : Libraries} {maxAge : Option (Str × Int)} {answers : Answers}

theorem Alike.touchAll {s t : PublishState} (h : Alike s t) (looked looked' : List Str) :
    Alike (s.touchAll looked) (t.touchAll looked') := by
  refine ⟨?_, ?_, h.oldCount, h.schemas, h.outData, h.calls, h.sigints⟩
  · exact (row_touchAll_value s.row looked).trans
      (h.cells.trans (row_touchAll_value t.row looked').symm)
  · exact (touchAll_keeps s.row looked).2.trans
      (h.columns.trans (touchAll_keeps t.row looked').2.symm)

theorem alike_stopped {s t : PublishState} (h : Alike s t) (stop : Stop) :
    (stopped s stop).1 = (stopped t stop).1 ∧ Alike (stopped s stop).2 (stopped t stop).2 := by
  cases stop with
  | tooOld =>
      exact ⟨rfl, h.cells, h.columns, congrArg (· + 1) h.oldCount, h.schemas, h.outData, h.calls,
        h.sigints⟩
  | thrown e => exact ⟨rfl, h⟩

theorem publishTopic_alike {s t : PublishState} (h : Alike s t) (topic : Str)
    (config : SchemaConfig) :
    AlikeOutcomes (publishTopic libraries maxAge answers topic config s)
      (publishTopic libraries maxAge answers topic config t) := by
  have hs := publishTopic_course libraries maxAge answers topic config s
  have ht := publishTopic_course libraries maxAge answers topic config t
  generalize publishTopic libraries maxAge answers topic config s = outcome at hs ⊢
  generalize publishTopic libraries maxAge answers topic config t = outcome' at ht ⊢
  have hcells := h.cells
  cases hs with
  | stops stop looked hstop =>
      rw [hcells] at hstop
      cases ht with
      | stops stop' looked' hstop' =>
          cases hstop.symm.trans hstop'
          exact alike_stopped (h.touchAll looked looked') stop
      | noSchema _ _ hrecord | unserialized _ _ _ _ hrecord | produced _ _ _ _ _ _ hrecord =>
          cases hstop.symm.trans hrecord
  | noSchema record looked hrecord hid =>
      rw [hcells] at hrecord
      cases ht with
      | stops stop' looked' hstop' => cases hrecord.symm.trans hstop'
      | noSchema record' looked' => exact ⟨rfl, h.touchAll looked looked'⟩
      | unserialized _ _ _ _ _ hid' | produced _ _ _ _ _ _ _ hid' => cases hid.symm.trans hid'
  | unserialized record looked id what hrecord hid hencode =>
      rw [hcells] at hrecord
      cases ht with
      | stops stop' looked' hstop' => cases hrecord.symm.trans hstop'
      | noSchema _ _ _ hid' => cases hid.symm.trans hid'
      | unserialized record' looked' id' what' hrecord' hid' hencode' =>
          cases hid.symm.trans hid'
          have hl := h.touchAll looked looked'
          refine ⟨hl.cells, hl.columns, h.oldCount, ?_, h.outData, h.calls, ?_⟩
          · exact congrArg (withSchemaId · topic config id) h.schemas
          · exact congrArg (· + 1) h.sigints
      | produced _ _ _ _ _ _ hrecord' _ hencode' =>
          cases hrecord.symm.trans hrecord'
          cases hencode.symm.trans hencode'
  | produced record looked id encoded calls left hrecord hid hencode hcalls =>
      rw [hcells] at hrecord
      rw [hcells, h.outData] at hcalls
      cases ht with
      | stops stop' looked' hstop' => cases hrecord.symm.trans hstop'
      | noSchema _ _ _ hid' => cases hid.symm.trans hid'
      | unserialized _ _ _ _ hrecord' _ hencode' =>
          cases hrecord.symm.trans hrecord'
          cases hencode.symm.trans hencode'
      | produced record' looked' id' encoded' calls' left' hrecord' hid' hencode' hcalls' =>
          cases hrecord.symm.trans hrecord'
          cases hid.symm.trans hid'
          cases hencode.symm.trans hencode'
          cases hcalls.symm.trans hcalls'
          have hl := h.touchAll looked looked'
          have hsent : Alike
              { (s.touchAll looked).sent (frame id encoded) calls with
                schemas := withSchemaId s.schemas topic config id }
              { (t.touchAll looked').sent (frame id encoded) calls with
                schemas := withSchemaId t.schemas topic config id } := by
            refine ⟨hl.cells, hl.columns, h.oldCount, ?_, ?_, ?_, h.sigints⟩
            · exact congrArg (withSchemaId · topic config id) h.schemas
            · exact congrArg (· ++ frame id encoded) h.outData
            · exact congrArg (· ++ calls) h.calls
          cases left with
          | false => exact ⟨rfl, hsent⟩
          | true => exact hsent

theorem publishTopics_alike {s t : PublishState} (h : Alike s t)
    (topics : List (Str × SchemaConfig)) :
    (publishTopics libraries maxAge answers topics s).1 =
        (publishTopics libraries maxAge answers topics t).1 ∧
      Alike (publishTopics libraries maxAge answers topics s).2
        (publishTopics libraries maxAge answers topics t).2 := by
  induction topics generalizing s t with
  | nil => exact ⟨rfl, h⟩
  | cons entry topics ih =>
      obtain ⟨topic, config⟩ := entry
      have hstep := @publishTopic_alike libraries maxAge answers s t h topic config
      rw [publishTopics, publishTopics]
      generalize publishTopic libraries maxAge answers topic config s = outcome at hstep ⊢
      generalize publishTopic libraries maxAge answers topic config t = outcome' at hstep ⊢
      cases outcome with
      | ok s' =>
          cases outcome' with
          | ok t' => exact ih hstep
          | error left => exact hstep.elim
      | error left =>
          cases outcome' with
          | ok t' => exact hstep.elim
          | error left' => exact hstep

theorem publish_alike (schemas : SchemaMap) {row row' : CSVRow} (hcells : row.value = row'.value)
    (hcolumns : row.columns = row'.columns) (oldCount : Nat) :
    (publish libraries maxAge answers schemas row oldCount).1 =
        (publish libraries maxAge answers schemas row' oldCount).1 ∧
      Alike (publish libraries maxAge answers schemas row oldCount).2
        (publish libraries maxAge answers schemas row' oldCount).2 := by
  have hstart : Alike ⟨row, oldCount, schemas, [], [], 0⟩ ⟨row', oldCount, schemas, [], [], 0⟩ :=
    ⟨hcells, hcolumns, rfl, rfl, rfl, rfl, rfl⟩
  exact publishTopics_alike hstart schemas.toList

end Cells

theorem logs_append (xs ys : List Event) : logs (xs ++ ys) = logs xs ++ logs ys :=
  List.filterMap_append

theorem publishRow_touchAll {ι : Type} (setup : Setup ι) (i : ι) (schemas : SchemaMap)
    (row : CSVRow) (oldCount : Nat) :
    ∃ looked, (setup.publishRow i schemas row oldCount).2.row =
      (operate setup.chain row).touchAll looked :=
  publishTopics_row setup.libraries setup.maxAge (setup.answers i) schemas.toList
    ⟨operate setup.chain row, oldCount, schemas, [], [], 0⟩

theorem streamRow_row (setup : Setup Nat) (d : Str) (s : Streamed) (row : CSVRow) :
    (streamRow setup d s row).row =
      (setup.publishRow s.calls.length s.schemas row s.locals.oldCount).2.row := by
  rw [streamRow]
  simp only
  cases outcomeOf (setup.publishRow s.calls.length s.schemas row s.locals.oldCount).1 with
  | none => rfl
  | some outcome => rfl

theorem streamRow_keepsLine (setup : Setup Nat) (d : Str) : KeepsLine (streamRow setup d) := by
  intro s row
  obtain ⟨looked, hrow⟩ :=
    publishRow_touchAll setup s.calls.length s.schemas row s.locals.oldCount
  obtain ⟨hline, hcolumns⟩ := touchAll_keeps (operate setup.chain row) looked
  obtain ⟨hl, hc⟩ := runSteps_keeps (setup.chain.flatMap Transformer.steps) row
  rw [← operate_eq_runSteps] at hl hc
  rw [streamRow_row, hrow]
  exact ⟨hline.trans hl, hcolumns.trans hc⟩

/-- An exception ends the run, and so it goes on exactly if the ledger has not halted. -/
theorem handleRow_entered {d : Str} {s : Streamed} {g : Ledger} (hs : Entered d s g)
    (hg : g.halted = false) (line : Str) (row : CSVRow) (outcome : HandleCall.Outcome) :
    ∃ completion locals,
      handleRow endProgram d ⟨line, row, outcome⟩ s.locals = (completion, locals) ∧
      Entered d { s with locals, halted := completion = .ended } (g.enter outcome) ∧
      decide (completion ≠ .normally) = (g.enter outcome).halted := by
  have hlogs (events : List Event) (h : logs events = []) :
      logs (s.locals.events ++ events) = [(.info, processing d)] := by
    rw [logs_append, h, List.append_nil, hs.lines]
  cases outcome with
  | published =>
      exact ⟨_, _, rfl, ⟨hs.schemas, hs.calls, hs.oldCount, hg.symm, hlogs [_] rfl⟩, hg.symm⟩
  | ignored =>
      refine ⟨_, _, rfl,
        ⟨hs.schemas, hs.calls, congrArg (· + 1) hs.oldCount, hg.symm, ?_⟩, hg.symm⟩
      rw [← hlogs [.attempt ⟨line, row, .ignored⟩, .ignore ⟨line, row, .ignored⟩] rfl]
      exact congrArg logs (List.append_assoc s.locals.events _ _)
  | threw e => exact ⟨_, _, rfl, ⟨hs.schemas, hs.calls, hs.oldCount, rfl, hlogs [_] rfl⟩, rfl⟩

/-- A turn of the loop enters what the ledger enters for any row that has the
same cells when the transformers are through. -/
theorem streamRow_entered {setup : Setup Nat} {d : Str} {s : Streamed} {g : Ledger}
    (hs : Entered d s g) (hg : g.halted = false) {row row' : CSVRow}
    (hcells : (operate setup.chain row).value = (operate setup.chain row').value)
    (hcolumns : (operate setup.chain row).columns = (operate setup.chain row').columns) :
    Entered d (streamRow setup d s row).state (setup.enterRow row' g) ∧
      (streamRow setup d s row).stop = (setup.enterRow row' g).halted := by
  obtain ⟨hexit, halike⟩ := @publish_alike setup.libraries setup.maxAge
    (setup.answers g.calls.length) g.schemas _ _ hcells hcolumns g.oldCount
  rw [← Setup.publishRow, ← Setup.publishRow] at hexit halike
  rw [streamRow, Setup.enterRow, hs.calls, hs.schemas, hs.oldCount]
  generalize setup.publishRow g.calls.length g.schemas row g.oldCount = published at hexit halike ⊢
  generalize setup.publishRow g.calls.length g.schemas row' g.oldCount = published' at hexit halike ⊢
  obtain ⟨exit, t⟩ := published
  obtain ⟨exit', t'⟩ := published'
  obtain rfl : exit = exit' := hexit
  simp only at halike ⊢
  have hs' : Entered d { s with schemas := t.schemas, calls := g.calls ++ [t.calls] }
      { g with schemas := t'.schemas, calls := g.calls ++ [t'.calls] } :=
    ⟨halike.schemas, by rw [halike.calls], hs.oldCount, hs.halted, hs.lines⟩
  cases outcomeOf exit with
  | none => exact ⟨⟨hs'.schemas, hs'.calls, hs.oldCount, rfl, hs.lines⟩, rfl⟩
  | some outcome =>
      obtain ⟨completion, locals, hhandle, hrest⟩ :=
        handleRow_entered hs' hg row.line t.row outcome
      simp only at hhandle ⊢
      rw [hhandle]
      exact hrest

/-- On its own a record makes the row that the line makes of whatever row is
used again, once the transformers are through. -/
theorem operate_recordRow {header line : Str} {chain : List Transformer} {row row' : CSVRow}
    (hshields : Shields (headerColumns header) (chain.flatMap Transformer.steps))
    (hfull : (lineRecord line).length = (headerColumns header).length)
    (hrow : Leftover header (chain.flatMap Transformer.steps) row)
    (hparse : row.parse (stripLine line) = some row') :
    (operate chain row').value =
        (operate chain (recordRow (headerColumns header) (lineRecord line))).value ∧
      (operate chain row').columns =
        (operate chain (recordRow (headerColumns header) (lineRecord line))).columns := by
  have hfit : Fits header line := hfull.le
  obtain ⟨_, hp, hcolumns, hkeep, hassign⟩ := parse_leftover hfit hrow.columns_eq
  obtain rfl := Option.some.inj (hparse.symm.trans hp)
  rw [← lineRecord, hfull, List.take_length] at hkeep hassign
  rw [operate_eq_runSteps, operate_eq_runSteps]
  constructor
  · funext c
    apply runSteps_agree
    intro c
    by_cases hc : c ∈ headerColumns header
    · exact .inr (hassign c hc)
    · by_cases hstale : c ∈ staleColumns header (chain.flatMap Transformer.steps)
      · obtain ⟨step, hstep, rfl⟩ := List.mem_map.mp ((List.mem_append.mp hstale).resolve_left hc)
        obtain ⟨hm, hset⟩ := List.mem_filter.mp hstep
        exact .inl ((hshields step hm hset).resolve_left hc)
      · have hnot : c ∉ (headerColumns header).take (lineRecord line).length := by
          rwa [hfull, List.take_length]
        rw [hkeep c hc, hrow.value_nil c hstale]
        exact .inr (getD_assignFields_of_not_mem ∅ hnot).symm
  · rw [(runSteps_keeps _ row').2, (runSteps_keeps _ _).2, hcolumns]
    rfl

theorem parse_keeps_leftover {header line : Str} {steps : List Step} {row row' : CSVRow}
    (hfit : Fits header line) (hrow : Leftover header steps row)
    (hparse : row.parse (stripLine line) = some row') : Leftover header steps row' := by
  obtain ⟨_, hp, hcolumns, hkeep, -⟩ := parse_leftover hfit hrow.columns_eq
  obtain rfl := Option.some.inj (hparse.symm.trans hp)
  refine ⟨hcolumns, fun c hc => ?_⟩
  rw [hkeep c fun hm => hc (List.mem_append_left _ (List.mem_of_mem_take hm))]
  exact hrow.value_nil c hc

theorem feedLines_entered {setup : Setup Nat} {d header : Str} {lines : List Str}
    (hshields : Shields (headerColumns header) (setup.chain.flatMap Transformer.steps))
    (hfull : ∀ line ∈ lines, (lineRecord line).length = (headerColumns header).length) {row : CSVRow}
    (hrow : Leftover header (setup.chain.flatMap Transformer.steps) row) {s : Streamed} {g : Ledger}
    (hs : Entered d s g) (hg : g.halted = false) :
    ∃ t, feedLines (streamRow setup d) lines row s = some t ∧
      Entered d t (setup.enterAll (headerColumns header) (lines.map lineRecord) g) := by
  induction lines generalizing row s g with
  | nil => exact ⟨s, rfl, hs⟩
  | cons line lines ih =>
      obtain ⟨hline, hfull⟩ := List.forall_mem_cons.mp hfull
      have hfit : Fits header line := hline.le
      obtain ⟨row', hp, -⟩ := parse_leftover hfit hrow.columns_eq
      have hrow' := parse_keeps_leftover hfit hrow hp
      obtain ⟨hcells, hcols⟩ := operate_recordRow hshields hline hrow hp
      obtain ⟨hentered, hstop⟩ := @streamRow_entered setup d s g hs hg row' _ hcells hcols
      obtain ⟨looked, hleft⟩ :=
        publishRow_touchAll setup s.calls.length s.schemas row' s.locals.oldCount
      rw [← streamRow_row setup d] at hleft
      rw [feedLines, hp, Option.bind_eq_bind, Option.bind_some, List.map_cons, Setup.enterAll]
      simp only [hstop]
      cases hlast : (setup.enterRow (recordRow (headerColumns header) (lineRecord line)) g).halted with
      | true => exact ⟨_, rfl, hentered⟩
      | false => exact ih hfull (hleft ▸ operate_leftover hrow' looked) hentered hlast

/-- The text of a file below whose header the records are written, each field quoted or
bare and each line terminated in whichever way. -/
structure Written (names : List Str) (records : List (List Cell)) (text : Str) : Prop where
  names_ne_nil : names ≠ []
  names_plain : ∀ name ∈ names, ',' ∉ name ∧ NoBreak name
  length_eq : ∀ record ∈ records, record.length = names.length
  lines : ∃ (closed : List (Str × Ending)) (last : Option Str), text = joinLines closed last ∧
    closed.map Prod.fst ++ last.toList = renderHeader names :: records.map renderRecord ∧
    ∀ line ∈ last, records = [] ∨ line ≠ []

section Written

variable {names : List Str} {records : List (List Cell)} {text : Str}

theorem Written.header_noBreak (h : Written names records text) : NoBreak (renderHeader names) :=
  renderHeader_noBreak fun name hn => (h.names_plain name hn).2

theorem Written.lineFields_eq (h : Written names records text) {record : List Cell}
    (hm : record ∈ records) : lineFields (renderRecord record) = record.map Cell.text := by
  apply lineFields_renderRecord
  rintro rfl
  exact h.names_ne_nil (List.length_eq_zero_iff.mp (h.length_eq [] hm).symm)

theorem Written.text_eq (h : Written names records text) :
    records = [] ∧ text = renderHeader names ∨
      ∃ ending rest, text = renderHeader names ++ Ending.tail ending ++ '\n' :: rest ∧
        (textLines rest).map lineRecord = records.map fun record => record.map Cell.text := by
  obtain ⟨closed, last, rfl, hlines, hlast⟩ := h.lines
  cases closed with
  | nil =>
      cases last with
      | none => simp at hlines
      | some line =>
          simp only [List.map_nil, List.nil_append, Option.toList_some, List.cons.injEq] at hlines
          obtain ⟨rfl, hnil⟩ := hlines
          exact .inl ⟨List.map_eq_nil_iff.mp hnil.symm, rfl⟩
  | cons line closed =>
      obtain ⟨header, ending⟩ := line
      simp only [List.map_cons, List.cons_append, List.cons.injEq] at hlines
      obtain ⟨rfl, hlines⟩ := hlines
      obtain ⟨hclosed, hopen⟩ := lines_noBreak hlines hlast
      refine .inr ⟨ending, joinLines closed last, rfl, ?_⟩
      rw [textLines_joinLines hclosed hopen]
      have hstrip := map_stripLine_lines hclosed fun line hl => (hopen line hl).1
      rw [hlines] at hstrip
      have hfields := congrArg (List.map lineFields) hstrip
      rw [List.map_map, List.map_map] at hfields
      exact hfields.trans (List.map_congr_left fun record hm => h.lineFields_eq hm)

theorem Written.headerColumns_eq (h : Written names records text) (ending : Ending) :
    headerColumns (renderHeader names ++ ending.tail) = names :=
  headerColumns_renderHeader h.names_ne_nil h.names_plain ending

theorem Written.lineRecord_length (h : Written names records text) {lines : List Str}
    (hlines : lines.map lineRecord = records.map fun record => record.map Cell.text) :
    ∀ line ∈ lines, (lineRecord line).length = names.length := by
  intro line hl
  have hm := List.mem_map_of_mem (f := lineRecord) hl
  rw [hlines] at hm
  obtain ⟨record, hr, he⟩ := List.mem_map.mp hm
  rw [← he, List.length_map, h.length_eq record hr]

end Written

theorem forRows_entered {setup : Setup Nat} {d : Str} {names : List Str}
    {records : List (List Cell)} {text : Str} (h : Written names records text)
    (hshields : Shields names (setup.chain.flatMap Transformer.steps)) {s : Streamed} {g : Ledger}
    (hs : Entered d s g) (hg : g.halted = false) :
    ∃ t, forRows (streamRow setup d) text s = some t ∧
      Entered d t (setup.enterAll names (records.map fun record => record.map Cell.text) g) := by
  rcases h.text_eq with ⟨rfl, rfl⟩ | ⟨ending, rest, rfl, hlines⟩
  · exact ⟨s, forRows_headerOnly _ h.header_noBreak.2 s, hs⟩
  · have hcolumns := h.headerColumns_eq ending
    rw [forRows_eq (streamRow_keepsLine setup d) (newline_not_mem_tail h.header_noBreak ending),
      ← hlines]
    have hfed := feedLines_entered (d := d) (hcolumns.symm ▸ hshields)
      (hcolumns.symm ▸ h.lineRecord_length hlines) (empty_leftover _ _) hs hg
    rw [hcolumns] at hfed ⊢
    exact hfed

theorem entered_opened (d : Str) (schemas : SchemaMap) :
    Entered d ⟨(entered d).setExcCount 0, schemas, [], false⟩ (.opened schemas) :=
  ⟨rfl, rfl, rfl, rfl, rfl⟩

/-- Handling a file that has been written from records comes to what the records
come to one by one, each in a row of its own, whichever way the fields are quoted
and the lines are terminated. -/
theorem streamFile_kept {setup : Setup Nat} {d : Str} {names : List Str}
    {records : List (List Cell)} {text : Str} (h : Written names records text)
    (hshields : Shields names (setup.chain.flatMap Transformer.steps)) (schemas : SchemaMap) :
    ∃ s, streamFile setup d schemas text = some s ∧
      Kept setup d s (setup.enterAll names (records.map fun record => record.map Cell.text)
        (.opened schemas)) := by
  obtain ⟨t, hrows, ht⟩ := forRows_entered h hshields (entered_opened d schemas) rfl
  rw [streamFile, hrows, Option.bind_eq_bind, Option.bind_some]
  have hhalted := ht.halted
  split_ifs with hstop
  · rw [hstop] at hhalted
    refine ⟨t, rfl, ht.schemas, ht.calls, ht.oldCount, hstop.trans hhalted, ?_⟩
    rw [← hhalted, if_pos rfl, ht.lines]
  · rw [Bool.not_eq_true] at hstop
    rw [hstop] at hhalted
    refine ⟨_, rfl, ht.schemas, ht.calls, ht.oldCount, hstop.trans hhalted, ?_⟩
    rw [← hhalted, if_neg Bool.false_ne_true, HandleCall.left_events, logs_append, ht.lines,
      ← ht.oldCount]
    rfl

/-- Two files that the same records are written to, with other quotes and other
terminators, are handled alike, each as the ledger of the records says. -/
theorem streamFile_same_records {setup : Setup Nat} {d : Str} {names : List Str}
    {records records' : List (List Cell)} {text text' : Str} (h : Written names records text)
    (h' : Written names records' text')
    (htexts : records'.map (fun record => record.map Cell.text) =
      records.map fun record => record.map Cell.text)
    (hshields : Shields names (setup.chain.flatMap Transformer.steps)) (schemas : SchemaMap) :
    ∃ s s', streamFile setup d schemas text = some s ∧ streamFile setup d schemas text' = some s' ∧
      Kept setup d s (setup.enterAll names (records.map fun record => record.map Cell.text)
        (.opened schemas)) ∧
      s'.calls = s.calls ∧ s'.schemas = s.schemas ∧ s'.locals.oldCount = s.locals.oldCount ∧
      s'.halted = s.halted ∧ logs s'.locals.events = logs s.locals.events := by
  obtain ⟨s, hs, hkept⟩ := streamFile_kept (d := d) h hshields schemas
  obtain ⟨s', hs', hkept'⟩ := streamFile_kept (d := d) h' hshields schemas
  rw [htexts] at hkept'
  refine ⟨s, s', hs, hs', hkept, hkept'.calls.trans hkept.calls.symm,
    hkept'.schemas.trans hkept.schemas.symm, hkept'.oldCount.trans hkept.oldCount.symm,
    hkept'.halted.trans hkept.halted.symm, ?_⟩
  rw [hkept'.lines, hkept.lines]

def setting : Setup Nat :=
  ⟨[.decorator (.set ['0']) ['c'] .nullptr], recordingLibraries, none, fun _ => acceptingAnswers⟩

/-- A quoted field and a last line without a terminator, or else neither. -/
theorem streamFile_same_records_quoted : ∃ s s',
    streamFile setting ['f'] oneTopic
        (joinLines [(['a', ',', 'b'], .crlf)] (some ['"', 'x', '"', ',', 'y'])) = some s ∧
      streamFile setting ['f'] oneTopic
        (joinLines [(['a', ',', 'b'], .lf), (['x', ',', 'y'], .lf)] none) = some s' ∧
      Kept setting ['f'] s
        (setting.enterAll [['a'], ['b']] [[['x'], ['y']]] (.opened oneTopic)) ∧
      s'.calls = s.calls ∧ s'.schemas = s.schemas ∧ s'.locals.oldCount = s.locals.oldCount ∧
      s'.halted = s.halted ∧ logs s'.locals.events = logs s.locals.events :=
  @streamFile_same_records setting ['f'] [['a'], ['b']]
    [[⟨['x'], false, by decide, by decide⟩, ⟨['y'], true, by decide, by decide⟩]]
    [[⟨['x'], true, by decide, by decide⟩, ⟨['y'], true, by decide, by decide⟩]] _ _
    ⟨by decide, by decide, by decide, _, _, rfl, by decide, by decide⟩
    ⟨by decide, by decide, by decide, _, _, rfl, by decide, by simp⟩ rfl (by decide) oneTopic

end Flycatcher.FileStream
