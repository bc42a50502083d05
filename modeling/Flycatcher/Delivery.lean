import Flycatcher.Consumer
import Flycatcher.Library.Interleavings
import Flycatcher.Pipeline

namespace Flycatcher.Delivery

open Library.TextStreams Library.Directories Library.Runs Library.Interleavings CsvRow CsvIterator
open CsvRoundTrip Transformers RowIsolation Publish HandleRows FileStream Consumer FileNames
open Handle (Rows Worked)
open HandleOnce (Custody Holder Bystander NotYet Idle)
open Pipeline (AtRest Held)

/-- The pipeline, with what its processors publish: the schemas, which they share, the
row of the iterator of each of them, and the calls of produce, each with the name
of the file that its row is from. -/
structure State where
  pipeline : Pipeline.State
  schemas : SchemaMap
  rows : Nat → CSVRow
  calls : List (Str × ProduceCall)

inductive Label
  | row (w : Nat)
  | other (l : Pipeline.Label)

/-- What handle distinguishes of how publish ends. For an exception operator<< is
left past its end, and what follows is undefined. -/
def kindOf : HandleCall.Outcome → Option Handle.Outcome
  | .published => some .published
  | .ignored => some .ignored
  | .threw _ => none

def header (text : Str) : Str := (textLines text).headD []

def openedRow (text : Str) : CSVRow := CSVRow.empty.setColumns (headerColumns (header text))

def ignored (rows : Rows) : Nat := rows.countP fun row => row.2 = .ignored

def State.rowOpened (s : State) (w : Nat) : CSVRow :=
  match s.pipeline.handle.workers w with
  | .renamed name => openedRow ((s.pipeline.handle.directory.find (inprogress name)).getD [])
  | _ => s.rows w

def State.rowsAfter (s : State) : Pipeline.Label → Nat → CSVRow
  | .worker w .openFile => Function.update s.rows w (s.rowOpened w)
  | _ => s.rows

def ofRow : Pipeline.Label → Bool
  | .worker _ (.row _) => true
  | _ => false

/-- What publish is answered goes by the file and the number of the row. -/
def step (setup : Setup (Str × Nat)) (dir : Str) (s : State) : Label → Option State
  | .row w =>
      match s.pipeline.handle.workers w with
      | .reading name _ rows (line :: _) => do
          let row ← (s.rows w).parse (stripLine line)
          let (exit, t) := setup.publishRow (name, rows.length) s.schemas row (ignored rows)
          let kind ← (outcomeOf exit).bind kindOf
          let pipeline ← Pipeline.step dir s.pipeline (.worker w (.row kind))
          return ⟨pipeline, t.schemas, Function.update s.rows w t.row,
            s.calls ++ t.calls.map fun call => (name, call)⟩
      | _ => none
  | .other l =>
      if ofRow l then none
      else (Pipeline.step dir s.pipeline l).map fun pipeline =>
        { s with pipeline, rows := s.rowsAfter l }

def init (dir : Str) (d : Directory Str Str) (schemas : SchemaMap) : State :=
  ⟨Pipeline.init dir d, schemas, fun _ => .empty, []⟩

def Steady (dir : Str) (s : State) : Label → Prop
  | .row _ => True
  | .other (.worker _ .loadFails) => False
  | .other l => Pipeline.Caught dir s.pipeline l

inductive Stepped (setup : Setup (Str × Nat)) (dir : Str) (s : State) : Label → State → Prop
  | row {w : Nat} {name line : Str} {excCount : Nat} {rows : Rows} {rest : List Str} {row : CSVRow}
      {exit : Exit} {u : PublishState} {kind : Handle.Outcome} {pipeline : Pipeline.State}
      (hw : s.pipeline.handle.workers w = .reading name excCount rows (line :: rest))
      (hparse : (s.rows w).parse (stripLine line) = some row)
      (hpublish : setup.publishRow (name, rows.length) s.schemas row (ignored rows) = (exit, u))
      (hkind : (outcomeOf exit).bind kindOf = some kind)
      (h : Pipeline.step dir s.pipeline (.worker w (.row kind)) = some pipeline) :
      Stepped setup dir s (.row w) ⟨pipeline, u.schemas, Function.update s.rows w u.row,
        s.calls ++ u.calls.map fun call => (name, call)⟩
  | other {l : Pipeline.Label} {pipeline : Pipeline.State} (hl : ofRow l = false)
      (h : Pipeline.step dir s.pipeline l = some pipeline) :
      Stepped setup dir s (.other l) { s with pipeline, rows := s.rowsAfter l }

theorem step_stepped {setup : Setup (Str × Nat)} {dir : Str} {s t : State} {l : Label}
    (h : step setup dir s l = some t) : Stepped setup dir s l t := by
  cases l with
  | row w =>
      simp only [step] at h
      split at h
      · next name excCount rows line rest hw =>
          obtain ⟨row, hparse, h⟩ := Option.bind_eq_some_iff.mp h
          obtain ⟨kind, hkind, h⟩ := Option.bind_eq_some_iff.mp h
          obtain ⟨pipeline, hstep, h⟩ := Option.bind_eq_some_iff.mp h
          cases h
          exact .row hw hparse rfl hkind hstep
      · cases h
  | other l =>
      simp only [step] at h
      split at h
      · cases h
      · next hl =>
          obtain ⟨pipeline, hstep, rfl⟩ := Option.map_eq_some_iff.mp h
          exact .other (by simpa using hl) hstep

theorem pipeline_step {dir : Str} {s t : Pipeline.State} {l : Pipeline.Label}
    (h : Pipeline.step dir s l = some t) :
    (∃ w a, l = .worker w a ∧ Worked s.handle w a t.handle ∧ t.files = s.files) ∨
      (∀ w a, l ≠ .worker w a) ∧ t.handle.workers = s.handle.workers ∧
        t.handle.calls = s.handle.calls ∧ s.handle.queue ⊆ t.handle.queue ∧
        ∀ file ∈ t.files, file ∈ s.files ∨ t.handle.directory.find file.1.text = some file.2 := by
  cases l with
  | worker w a =>
      obtain ⟨handle, hh, rfl⟩ := Option.map_eq_some_iff.mp h
      exact .inl ⟨w, a, rfl, Handle.workerStep_worked hh, rfl⟩
  | create name =>
      obtain ⟨arrivals, -, rfl⟩ := Option.map_eq_some_iff.mp h
      exact .inr ⟨fun _ _ h => (by cases h), rfl, rfl, fun _ h => h, fun _ => .inl⟩
  | close name content =>
      obtain ⟨arrivals, -, h⟩ := Option.bind_eq_some_iff.mp h
      obtain ⟨handle, hh, rfl⟩ := Option.map_eq_some_iff.mp h
      obtain ⟨e, he, rfl⟩ := Option.map_eq_some_iff.mp hh
      refine .inr ⟨fun _ _ h => (by cases h), rfl, rfl, fun _ h => h, ?_⟩
      intro file hm
      rcases List.mem_cons.mp hm with rfl | hm
      · exact .inr ((Directory.find_create he _).trans (if_pos rfl))
      · exact .inl hm
  | look name =>
      obtain ⟨-, he⟩ := Option.ite_none_right_eq_some.mp h
      cases he
      exact .inr ⟨fun _ _ h => (by cases h), rfl, rfl, fun _ h => h, fun _ => .inl⟩
  | poller l =>
      obtain ⟨-, h⟩ := Option.ite_none_right_eq_some.mp h
      obtain ⟨arrivals, -, rfl⟩ := Option.map_eq_some_iff.mp h
      exact .inr ⟨fun _ _ h => (by cases h), rfl, rfl, fun _ h => h, fun _ => .inl⟩
  | enqueue =>
      obtain ⟨path, -, rfl⟩ := Option.map_eq_some_iff.mp h
      rw [Pipeline.State.handOver]
      split_ifs
      · exact .inr ⟨fun _ _ h => (by cases h), rfl, rfl, List.subset_append_left _ _, fun _ => .inl⟩
      · exact .inr ⟨fun _ _ h => (by cases h), rfl, rfl, fun _ h => h, fun _ => .inl⟩

section OneFile

variable (setup : Setup (Str × Nat)) (entry : Str × SchemaConfig)
  (decode : Int → List UInt8 → Option Record) (name : Str) (names : List Str)
  (records : List (List Cell)) (content : Str)

def numberedIn : List (CSVRow × Str × Nat) :=
  (records.map fun record => recordRow names (record.map Cell.text)).zipIdx.map fun row =>
    (row.1, name, row.2)

structure Sent (calls : List (Str × ProduceCall)) (rows : Rows) : Prop where
  unthrown : ∀ row ∈ rows, row.2 ≠ .threw
  calm : ∀ row ∈ (numberedIn name names records).take rows.length,
    throwsAt setup entry row.2 row.1 = false
  consumed : consume decode entry.1 (part name calls) =
    (((numberedIn name names records).take rows.length).filterMap fun row =>
      takenAt setup entry row.2 row.1).map some

def Through (calls : List (Str × ProduceCall)) (rows : Rows) (ending : Handle.Ending) : Prop :=
  Sent setup entry decode name names records calls rows ∧ ending ≠ .notLoaded

def CallSound (calls : List (Str × ProduceCall)) (call : Handle.Call) : Prop :=
  call.name = name → ∀ rows ending, call.streamed = some (rows, ending) →
    Through setup entry decode name names records calls rows ending

def PhaseSound (calls : List (Str × ProduceCall)) (row : CSVRow) : Handle.Phase → Prop
  | .renamed other => other = name → part name calls = []
  | .reading other _ rows _ => other = name →
      Sent setup entry decode name names records calls rows ∧
        Leftover (header content) (setup.chain.flatMap Transformer.steps) row
  | .closing other rows ending => other = name →
      Through setup entry decode name names records calls rows ending
  | .leaving call => CallSound setup entry decode name names records calls call
  | _ => True

structure Sound (handle : Handle.State) (rows : Nat → CSVRow)
    (calls : List (Str × ProduceCall)) : Prop where
  workers : ∀ w, PhaseSound setup entry decode name names records content calls (rows w)
    (handle.workers w)
  calls : ∀ call ∈ handle.calls, CallSound setup entry decode name names records calls call

def Untouched (s : State) : Prop :=
  (∀ w, NotYet name (s.pipeline.handle.workers w)) →
    (∀ call ∈ s.pipeline.handle.calls, call.name ≠ name) → part name s.calls = []

end OneFile

section Steps

variable {setup : Setup (Str × Nat)} {entry : Str × SchemaConfig}
  {decode : Int → List UInt8 → Option Record} {name : Str} {names : List Str}
  {records : List (List Cell)} {content : Str}

theorem afterRow_not_notYet {excCount : Nat} {rows : Rows} {rest : List Str}
    {outcome : Handle.Outcome} :
    ¬ NotYet name (Handle.afterRow name excCount rows rest outcome) := by
  rcases Handle.afterRow_cases name excCount rows rest outcome with ⟨n, he⟩ | he
  · rw [he]
    exact fun h => h rfl
  · rw [he]
    exact fun h => h rfl

theorem notYet_before {s t : Handle.State} {w : Nat} {a : Handle.Action} (h : Worked s w a t)
    (hphase : ∀ w, NotYet name (t.workers w)) (hcalls : ∀ call ∈ t.calls, call.name ≠ name) :
    (∀ w, NotYet name (s.workers w)) ∧ ∀ call ∈ s.calls, call.name ≠ name := by
  have hothers := Handle.worked_others h
  have hself := hphase w
  have hw : NotYet name (s.workers w) ∧ ∀ call ∈ s.calls, call.name ≠ name := by
    cases h with
    | take hw | increment hw | renamed hw | missing hw =>
        rw [hw]
        exact ⟨trivial, hcalls⟩
    | opened hw | endOfFile hw | loadFails hw | archived hw | unarchived hw =>
        rw [Handle.goto_workers_self] at hself
        rw [hw]
        exact ⟨hself, hcalls⟩
    | @row other line excCount rows rest outcome hw =>
        rw [Handle.goto_workers_self] at hself
        rw [hw]
        refine ⟨?_, hcalls⟩
        rintro rfl
        exact afterRow_not_notYet hself
    | @decrement call hw =>
        rw [hw]
        refine ⟨hcalls call (List.mem_append_right _ (List.mem_singleton_self call)), ?_⟩
        exact fun other hm => hcalls other (List.mem_append_left _ hm)
  refine ⟨?_, hw.2⟩
  intro w'
  by_cases hw' : w' = w
  · rw [hw']
    exact hw.1
  · rw [← hothers w' hw']
    exact hphase w'

theorem step_untouched {dir : Str} {s t : State} {l : Label} (h : Stepped setup dir s l t)
    (hs : Untouched name s) : Untouched name t := by
  intro hphase hcalls
  cases h with
  | @row w other line excCount rows rest row exit u kind pipeline hw hparse hpublish hkind h =>
      obtain ⟨handle, hh, rfl⟩ := Option.map_eq_some_iff.mp h
      have hworked := Handle.workerStep_worked hh
      obtain ⟨hphase', hcalls'⟩ := notYet_before hworked hphase hcalls
      have hne : other ≠ name := by
        have hnot := hphase' w
        rw [hw] at hnot
        exact hnot
      rw [part_append, part_other hne, List.append_nil]
      exact hs hphase' hcalls'
  | @other l pipeline hl h =>
      rcases pipeline_step h with ⟨w, a, rfl, hworked, -⟩ | ⟨-, hworkers, hc, -, -⟩
      · obtain ⟨hphase', hcalls'⟩ := notYet_before hworked hphase hcalls
        exact hs hphase' hcalls'
      · exact hs (hworkers ▸ hphase) (hc ▸ hcalls)

theorem at_congr {i : Str × Nat} {row row' : CSVRow}
    (h : (operate setup.chain row).value = (operate setup.chain row').value) :
    throwsAt setup entry i row = throwsAt setup entry i row' ∧
      takenAt setup entry i row = takenAt setup entry i row' := by
  have hrecord : recordAt setup entry i row = recordAt setup entry i row' := by
    rw [recordAt, recordAt, h]
  constructor
  · rw [throwsAt, throwsAt, hrecord]
  · rw [takenAt, takenAt, hrecord, h]

theorem written_header (h : Written names records content) :
    headerColumns (header content) = names := by
  have hnoBreak := h.header_noBreak
  rcases h.text_eq with ⟨-, rfl⟩ | ⟨ending, rest, rfl, -⟩
  · have hheader : header (renderHeader names) = renderHeader names := by
      rw [header, textLines_last hnoBreak.2]
      split_ifs with hnil
      · exact hnil.symm
      · rfl
    have hcolumns := h.headerColumns_eq .lf
    rw [Ending.tail, List.append_nil] at hcolumns
    rw [hheader, hcolumns]
  · rw [header, textLines_line (newline_not_mem_tail hnoBreak ending), List.headD_cons,
      h.headerColumns_eq ending]

theorem written_dataLines (h : Written names records content) :
    (Handle.dataLines content).map lineRecord = records.map fun record => record.map Cell.text := by
  have hnoBreak := h.header_noBreak
  rcases h.text_eq with ⟨rfl, rfl⟩ | ⟨ending, rest, rfl, hlines⟩
  · rw [Handle.dataLines, textLines_last hnoBreak.2]
    split_ifs <;> rfl
  · rw [Handle.dataLines, textLines_line (newline_not_mem_tail hnoBreak ending), List.tail_cons,
      hlines]

theorem kindOf_some {outcome : HandleCall.Outcome} {kind : Handle.Outcome}
    (h : kindOf outcome = some kind) : kind ≠ .threw ∧ ∀ e, outcome ≠ .threw e := by
  cases outcome with
  | published | ignored =>
      cases h
      exact ⟨fun h => (by cases h), fun e h => (by cases h)⟩
  | threw e => cases h

theorem numberedIn_line {rows : Rows} {line : Str} {rest : List Str}
    (hdata : (Handle.dataLines content).map lineRecord =
      records.map fun record => record.map Cell.text)
    (hlines : rows.map Prod.fst ++ line :: rest = Handle.dataLines content) :
    (numberedIn name names records)[rows.length]? =
      some (recordRow names (lineRecord line), name, rows.length) := by
  have hline : (Handle.dataLines content)[rows.length]? = some line := by
    rw [← hlines, List.getElem?_append_right (by simp), List.length_map, Nat.sub_self]
    rfl
  have hrecord : (records.map fun record => record.map Cell.text)[rows.length]? =
      some (lineRecord line) := by
    rw [← hdata, List.getElem?_map, hline]
    rfl
  obtain ⟨record, hr, he⟩ := Option.map_eq_some_iff.mp (List.getElem?_map.symm.trans hrecord)
  rw [numberedIn, List.getElem?_map, List.getElem?_zipIdx, List.getElem?_map, hr]
  simp [he]

theorem row_sent (hwritten : Written names records content)
    (hshields : Shields names (setup.chain.flatMap Transformer.steps))
    (hanswered : Answered setup entry) (hdecodes : Decodes setup entry decode)
    {schemas : SchemaMap} (honly : OnlyTopic setup entry schemas) {calls : List (Str × ProduceCall)}
    {rows : Rows} {line : Str} {rest : List Str} {row row' : CSVRow} {oldCount : Nat} {exit : Exit}
    {u : PublishState} {kind : Handle.Outcome}
    (hlines : rows.map Prod.fst ++ line :: rest = Handle.dataLines content)
    (hsent : Sent setup entry decode name names records calls rows)
    (hleft : Leftover (header content) (setup.chain.flatMap Transformer.steps) row)
    (hparse : row.parse (stripLine line) = some row')
    (hpublish : setup.publishRow (name, rows.length) schemas row' oldCount = (exit, u))
    (hkind : (outcomeOf exit).bind kindOf = some kind) :
    Sent setup entry decode name names records
        (calls ++ u.calls.map fun call => (name, call)) (rows ++ [(line, kind)]) ∧
      Leftover (header content) (setup.chain.flatMap Transformer.steps) u.row := by
  have hheader := written_header hwritten
  have hdata := written_dataLines hwritten
  have hfull : (lineRecord line).length = (headerColumns (header content)).length := by
    rw [hheader]
    apply hwritten.lineRecord_length hdata
    rw [← hlines]
    exact List.mem_append_right _ List.mem_cons_self
  -- the cells are those that a row of its own would have
  obtain ⟨hcells, -⟩ := operate_recordRow (hheader.symm ▸ hshields) hfull hleft hparse
  rw [hheader] at hcells
  obtain ⟨exit', u', outcome, hpublish', -, hconsume, houtcome, hthrows, -⟩ :=
    publishRow_only hanswered hdecodes honly (name, rows.length) row' oldCount
  cases hpublish.symm.trans hpublish'
  rw [houtcome] at hkind
  obtain ⟨hunthrown, hno⟩ := kindOf_some hkind
  obtain ⟨ht, htaken⟩ := @at_congr setup entry (name, rows.length) _ _ hcells
  rw [htaken] at hconsume
  have hcalm :
      throwsAt setup entry (name, rows.length) (recordRow names (lineRecord line)) = false := by
    rw [← ht, ← Bool.not_eq_true, hthrows]
    exact fun ⟨e, he⟩ => hno e he
  have htake : (numberedIn name names records).take (rows ++ [(line, kind)]).length =
      (numberedIn name names records).take rows.length ++
        [(recordRow names (lineRecord line), name, rows.length)] := by
    rw [List.length_append, List.length_singleton, List.take_add_one, numberedIn_line hdata hlines]
    rfl
  constructor
  · constructor
    · intro row hm
      rcases List.mem_append.mp hm with hm | hm
      · exact hsent.unthrown row hm
      · rw [List.mem_singleton.mp hm]
        exact hunthrown
    · intro row hm
      rw [htake] at hm
      rcases List.mem_append.mp hm with hm | hm
      · exact hsent.calm row hm
      · rw [List.mem_singleton.mp hm]
        exact hcalm
    · rw [htake, part_append, part_own, consume_append, hsent.consumed, hconsume,
        List.filterMap_append, List.map_append, map_some_filterMap_cons, List.filterMap_nil,
        List.map_nil, List.append_nil]
  · obtain ⟨looked, hrow⟩ := publishRow_touchAll setup (name, rows.length) schemas row' oldCount
    rw [hpublish] at hrow
    rw [hrow]
    exact operate_leftover (parse_keeps_leftover hfull.le hleft hparse) looked

section Part

variable {calls calls' : List (Str × ProduceCall)}

theorem sent_part {rows : Rows} (hpart : part name calls' = part name calls)
    (h : Sent setup entry decode name names records calls rows) :
    Sent setup entry decode name names records calls' rows :=
  ⟨h.unthrown, h.calm, hpart.symm ▸ h.consumed⟩

theorem callSound_part {call : Handle.Call} (hpart : part name calls' = part name calls)
    (h : CallSound setup entry decode name names records calls call) :
    CallSound setup entry decode name names records calls' call :=
  fun hname rows ending hstreamed => (h hname rows ending hstreamed).imp_left (sent_part hpart)

theorem phaseSound_part {row : CSVRow} {phase : Handle.Phase}
    (hpart : part name calls' = part name calls)
    (h : PhaseSound setup entry decode name names records content calls row phase) :
    PhaseSound setup entry decode name names records content calls' row phase := by
  cases phase with
  | idle | taken | entered => trivial
  | renamed => exact fun hname => hpart.trans (h hname)
  | reading => exact fun hname => (h hname).imp_left (sent_part hpart)
  | closing => exact fun hname => (h hname).imp_left (sent_part hpart)
  | leaving => exact callSound_part hpart h

end Part

theorem callSound_idle {calls : List (Str × ProduceCall)} {call : Handle.Call}
    (h : Idle name call) : CallSound setup entry decode name names records calls call := by
  intro hname rows ending hstreamed
  rw [(h hname).1] at hstreamed
  cases hstreamed

theorem phaseSound_bystander {calls : List (Str × ProduceCall)} {row : CSVRow}
    {phase : Handle.Phase} (h : Bystander name phase) :
    PhaseSound setup entry decode name names records content calls row phase := by
  cases phase with
  | idle | taken other | entered other => trivial
  | renamed other | reading other excCount rows rest | closing other rows ending =>
      exact fun he => absurd he h
  | leaving call => exact callSound_idle h

/-- The processor that has got to the rows of a file is the one that holds it. -/
theorem custody_holder {s : Handle.State} {w : Nat} (hs : Custody name content s)
    (hw : ¬ Bystander name (s.workers w)) (hleaving : ∀ call, s.workers w ≠ .leaving call) :
    s.directory.find (inprogress name) = some content ∧ Holder name content (s.workers w) ∧
      (∀ w' ≠ w, Bystander name (s.workers w')) ∧ ∀ call ∈ s.calls, Idle name call := by
  cases hs with
  | waiting hfind hphase hcalls => exact absurd (hphase w).bystander hw
  | held holder hgone hfind hphase hothers hcalls =>
      by_cases he : w = holder
      · subst he
        exact ⟨hfind, hphase, hothers, hcalls⟩
      · exact absurd (hothers w he) hw
  | closed holder rows ending hgone hfind hphase hrows hothers hcalls =>
      by_cases he : w = holder
      · subst he
        exact absurd hphase (hleaving _)
      · exact absurd (hothers w he) hw
  | archived before after rows ending hgone hfind hphase hrows hcalls hidle =>
      exact absurd (hphase w) hw

theorem rowsAfter_other (s : State) {w w' : Nat} (h : w' ≠ w) (a : Handle.Action) :
    s.rowsAfter (.worker w a) w' = s.rows w' := by
  cases a with
  | openFile => exact Function.update_of_ne h ..
  | _ => rfl

theorem worker_sound {s : State} {handle : Handle.State} {w : Nat} {a : Handle.Action}
    (hworked : Worked s.pipeline.handle w a handle) (hrow : ∀ outcome, a ≠ .row outcome)
    (hload : a ≠ .loadFails) (hcustody : Custody name content s.pipeline.handle)
    (huntouched : Untouched name s)
    (hs : Sound setup entry decode name names records content s.pipeline.handle s.rows s.calls) :
    Sound setup entry decode name names records content handle (s.rowsAfter (.worker w a))
      s.calls := by
  have hself := hs.workers w
  constructor
  · have hothers : ∀ w' ≠ w, PhaseSound setup entry decode name names records content s.calls
        (s.rowsAfter (.worker w a) w') (s.pipeline.handle.workers w') := by
      intro w' hw'
      rw [rowsAfter_other s hw']
      exact hs.workers w'
    refine Handle.worked_workers hworked (P := fun w' phase =>
      PhaseSound setup entry decode name names records content s.calls
        (s.rowsAfter (.worker w a) w') phase) ?_ hothers
    cases hworked with
    | take hw | increment hw | decrement hw =>
        rw [Handle.goto_workers_self]
        trivial
    | @renamed other e hw hr =>
        rw [Handle.goto_workers_self]
        rintro rfl
        have hmem := Directory.mem_of_rename hr
        cases hcustody with
        | waiting hfind hphase hcalls => exact huntouched hphase hcalls
        | held _ hgone | closed _ _ _ hgone | archived _ _ _ _ hgone =>
            exact absurd hmem (Directory.find_eq_none_iff.mp hgone)
    | missing hw hr =>
        rw [Handle.goto_workers_self]
        intro _ rows ending h
        cases h
    | @opened other hw =>
        rw [Handle.goto_workers_self]
        rintro rfl
        rw [hw] at hself
        have hnone := hself rfl
        obtain ⟨hfind, -⟩ := custody_holder hcustody (w := w) (by rw [hw]; exact fun h => h rfl)
          (by rw [hw]; exact fun _ h => (by cases h))
        have hopened : s.rowsAfter (.worker w .openFile) w = openedRow content := by
          rw [State.rowsAfter, Function.update_self, State.rowOpened, hw]
          simp only [hfind, Option.getD_some]
        refine ⟨⟨fun _ h => (by cases h), fun _ h => (by cases h), ?_⟩, ?_⟩
        · rw [hnone]
          rfl
        · rw [hopened]
          exact empty_leftover _ _
    | row outcome hw => exact absurd rfl (hrow outcome)
    | endOfFile hw =>
        rw [Handle.goto_workers_self]
        intro hname
        rw [hw] at hself
        exact ⟨(hself hname).1, fun h => (by cases h)⟩
    | loadFails hw => exact absurd rfl hload
    | archived hw | unarchived hw =>
        rw [Handle.goto_workers_self]
        intro hname rows ending h
        cases h
        rw [hw] at hself
        exact hself hname
  · cases hworked with
    | decrement hw =>
        intro call hm
        rcases List.mem_append.mp hm with hm | hm
        · exact hs.calls call hm
        · rw [List.mem_singleton.mp hm]
          rw [hw] at hself
          exact hself
    | _ => exact hs.calls

/-- A processor that sees to a row of another file leaves the calls for this one as
they are, and the holder adds those for its row. -/
theorem row_sound (hwritten : Written names records content)
    (hshields : Shields names (setup.chain.flatMap Transformer.steps))
    (hanswered : Answered setup entry) (hdecodes : Decodes setup entry decode) {s : State}
    (honly : OnlyTopic setup entry s.schemas) (hcustody : Custody name content s.pipeline.handle)
    (hs : Sound setup entry decode name names records content s.pipeline.handle s.rows s.calls)
    {w : Nat} {other line : Str}
    {excCount : Nat} {rows : Rows} {rest : List Str} {row : CSVRow} {exit : Exit} {u : PublishState}
    {kind : Handle.Outcome} {handle : Handle.State}
    (hw : s.pipeline.handle.workers w = .reading other excCount rows (line :: rest))
    (hparse : (s.rows w).parse (stripLine line) = some row)
    (hpublish : setup.publishRow (other, rows.length) s.schemas row (ignored rows) = (exit, u))
    (hkind : (outcomeOf exit).bind kindOf = some kind)
    (hworked : Worked s.pipeline.handle w (.row kind) handle) :
    Sound setup entry decode name names records content handle
      (Function.update s.rows w u.row)
      (s.calls ++ u.calls.map fun call => (other, call)) := by
  have hself := hs.workers w
  rw [hw] at hself
  have hcalls : handle.calls = s.pipeline.handle.calls := by
    cases hworked
    rfl
  have hafter : handle.workers w =
      Handle.afterRow other excCount (rows ++ [(line, kind)]) rest kind := by
    cases hworked with
    | row _ hw' =>
        cases hw.symm.trans hw'
        exact Handle.goto_workers_self ..
  by_cases hne : other = name
  · subst hne
    obtain ⟨-, hholder, hothers, hidle⟩ := custody_holder hcustody (w := w)
      (by rw [hw]; exact fun h => h rfl) (by rw [hw]; exact fun _ h => (by cases h))
    rw [hw] at hholder
    obtain ⟨-, hlines, -, -⟩ := hholder
    obtain ⟨hsent, hleft⟩ := hself rfl
    obtain ⟨hsent', hleft'⟩ := row_sent hwritten hshields hanswered hdecodes honly hlines hsent hleft
      hparse hpublish hkind
    constructor
    · refine Handle.worked_workers hworked (P := fun w' phase =>
        PhaseSound setup entry decode other names records content _
          (Function.update s.rows w u.row w') phase) ?_ ?_
      · rw [hafter, Function.update_self]
        rcases Handle.afterRow_cases other excCount (rows ++ [(line, kind)]) rest
          kind with ⟨n, he⟩ | he
        · rw [he]
          exact fun _ => ⟨hsent', hleft'⟩
        · rw [he]
          exact fun _ => ⟨hsent', fun h => (by cases h)⟩
      · exact fun w' hw' => phaseSound_bystander (hothers w' hw')
    · intro call hm
      exact callSound_idle (hidle call (hcalls ▸ hm))
  · have hpart : part name (s.calls ++ u.calls.map fun call => (other, call)) =
        part name s.calls := by
      rw [part_append, part_other hne, List.append_nil]
    constructor
    · refine Handle.worked_workers hworked (P := fun w' phase =>
        PhaseSound setup entry decode name names records content _
          (Function.update s.rows w u.row w') phase) ?_ ?_
      · rw [hafter]
        rcases Handle.afterRow_cases other excCount (rows ++ [(line, kind)]) rest
          kind with ⟨n, he⟩ | he
        · rw [he]
          exact fun hname => absurd hname hne
        · rw [he]
          exact fun hname => absurd hname hne
      · intro w' hw'
        rw [Function.update_of_ne hw']
        exact phaseSound_part hpart (hs.workers w')
    · intro call hm
      exact callSound_part hpart (hs.calls call (hcalls ▸ hm))

theorem sound_waiting {handle : Handle.State} {rows : Nat → CSVRow}
    {calls : List (Str × ProduceCall)} {other : Str}
    (hcustody : Custody name other handle) (hfind : handle.directory.find name = some content) :
    Sound setup entry decode name names records content handle rows calls := by
  cases hcustody with
  | waiting _ hphase hcalls =>
      exact ⟨fun w => phaseSound_bystander (hphase w).bystander,
        fun call hm => callSound_idle fun hname => absurd hname (hcalls call hm)⟩
  | held _ hgone | closed _ _ _ hgone | archived _ _ _ _ hgone =>
      rw [hfind] at hgone
      cases hgone

theorem steady_caught {dir : Str} {s : State} {l : Pipeline.Label} (h : Steady dir s (.other l)) :
    Pipeline.Caught dir s.pipeline l ∧ ∀ w, l ≠ .worker w .loadFails := by
  cases l with
  | worker w a =>
      cases a with
      | loadFails => exact h.elim
      | take | increment | renameFirst | openFile | row | endOfFile | renameLast | decrement =>
          exact ⟨h, fun _ h => (by cases h)⟩
  | create | close | look | poller | enqueue => exact ⟨h, fun _ h => (by cases h)⟩

variable (setup entry decode names records)

structure Delivering (dir : Str) (file : FileName × Str) (s : State) : Prop where
  held : Held dir s.pipeline
  only : OnlyTopic setup entry s.schemas
  untouched : Untouched file.1.text s
  sound : file ∈ s.pipeline.files → Sound setup entry decode file.1.text names records file.2
    s.pipeline.handle s.rows s.calls

variable {setup entry decode names records}

theorem step_delivering {dir : Str} {file : FileName × Str}
    (hwritten : Written names records file.2)
    (hshields : Shields names (setup.chain.flatMap Transformer.steps))
    (hanswered : Answered setup entry) (hdecodes : Decodes setup entry decode) (s : State) (l : Label)
    (t : State) (h : step setup dir s l = some t) (hsteady : Steady dir s l)
    (hs : Delivering setup entry decode names records dir file s) :
    Delivering setup entry decode names records dir file t := by
  have hstepped := step_stepped h
  have huntouched := step_untouched hstepped hs.untouched
  clear h
  cases hstepped with
  | @row w other line excCount rows rest row exit u kind pipeline hw hparse hpublish hkind h =>
      have hheld := Pipeline.step_held dir _ _ _ h trivial hs.held
      obtain ⟨exit', u', -, hpublish', honly, -⟩ :=
        publishRow_only hanswered hdecodes hs.only (other, rows.length) row (ignored rows)
      cases hpublish.symm.trans hpublish'
      refine ⟨hheld, honly, huntouched, ?_⟩
      obtain ⟨handle, hh, rfl⟩ := Option.map_eq_some_iff.mp h
      intro hm
      exact row_sound hwritten hshields hanswered hdecodes hs.only
        (hs.held.files file hm).2.custody (hs.sound hm) hw hparse hpublish hkind
        (Handle.workerStep_worked hh)
  | @other l pipeline hl h =>
      obtain ⟨hcaught, hload⟩ := steady_caught hsteady
      have hheld := Pipeline.step_held dir _ _ _ h hcaught hs.held
      refine ⟨hheld, hs.only, huntouched, ?_⟩
      intro hm
      rcases pipeline_step h with ⟨w, a, rfl, hworked, hfiles⟩ | ⟨hother, hworkers, hcalls, -, hfiles⟩
      · rw [hfiles] at hm
        apply worker_sound hworked ?_ ?_ (hs.held.files file hm).2.custody hs.untouched (hs.sound hm)
        · rintro outcome rfl
          cases hl
        · rintro rfl
          exact hload w rfl
      · have hrows : s.rowsAfter l = s.rows := by
          cases l with
          | worker w a => exact absurd rfl (hother w a)
          | create | close | look | poller | enqueue => rfl
        rw [hrows]
        rcases hfiles file hm with hm' | hfind
        · obtain ⟨hsoundWorkers, hsoundCalls⟩ := hs.sound hm'
          exact ⟨hworkers ▸ hsoundWorkers, hcalls ▸ hsoundCalls⟩
        · exact sound_waiting (hheld.files file hm).2.custody hfind

theorem init_delivering {dir : Str} {d : Directory Str Str} {schemas : SchemaMap}
    (hclean : ∀ name ∈ d.names, ¬ inprogressMark <:+ name) (hone : schemas.toList = [entry])
    (file : FileName × Str) :
    Delivering setup entry decode names records dir file (init dir d schemas) := by
  refine ⟨Pipeline.init_held dir hclean, ⟨entry.2.schemaId, .inl rfl, hone⟩, fun _ _ => rfl, ?_⟩
  exact fun _ => ⟨fun _ => trivial, fun call hm => (by cases hm)⟩

end Steps

structure Listed (s : Pipeline.State) : Prop where
  distinct : (s.files.map fun file => file.1.text).Nodup
  created : ∀ name : FileName, name.text ∈ s.handle.created →
    shouldAddFile name.text false = true → name.text ∈ s.files.map fun file => file.1.text
  taken : ∀ name, Pipeline.Taken name s.handle → name ∈ s.files.map fun file => file.1.text

theorem nameOf_noSlash (path : Str) : '/' ∉ Pipeline.nameOf path := by
  intro hm
  rw [Pipeline.nameOf, List.mem_reverse] at hm
  have hne := List.mem_takeWhile_imp hm
  exact absurd rfl (of_decide_eq_true hne)

theorem step_listed {dir : Str} {s t : Pipeline.State} {l : Pipeline.Label} (hheld : Held dir s)
    (h : Pipeline.step dir s l = some t) (hs : Listed s) : Listed t := by
  cases l with
  | worker w a =>
      obtain ⟨handle, hh, rfl⟩ := Option.map_eq_some_iff.mp h
      have hworked := Handle.workerStep_worked hh
      refine ⟨hs.distinct, ?_, ?_⟩
      · rw [HandleOnce.worked_created hworked]
        exact hs.created
      · exact fun name ht => hs.taken name (Pipeline.taken_of_worked hworked ht)
  | create name =>
      obtain ⟨arrivals, -, rfl⟩ := Option.map_eq_some_iff.mp h
      exact ⟨hs.distinct, hs.created, hs.taken⟩
  | close name content =>
      obtain ⟨arrivals, ha, h⟩ := Option.bind_eq_some_iff.mp h
      obtain ⟨handle, hh, rfl⟩ := Option.map_eq_some_iff.mp h
      obtain ⟨e, -, rfl⟩ := Option.map_eq_some_iff.mp hh
      obtain ⟨hwriting, -⟩ := Option.ite_none_right_eq_some.mp ha
      refine ⟨?_, ?_, fun other ht => List.mem_cons_of_mem _ (hs.taken other ht)⟩
      · refine List.nodup_cons.mpr ⟨?_, hs.distinct⟩
        intro hm
        obtain ⟨file, hfile, he⟩ := List.mem_map.mp hm
        have hcreated := (hheld.files file hfile).2.created
        rw [show file.1.text = name.text from he] at hcreated
        exact hheld.writing name hwriting hcreated
      · intro other hm hadd
        rcases List.mem_cons.mp hm with he | hm
        · rw [he]
          exact List.mem_cons_self
        · exact List.mem_cons_of_mem _ (hs.created other hm hadd)
  | look name =>
      obtain ⟨-, he⟩ := Option.ite_none_right_eq_some.mp h
      cases he
      exact ⟨hs.distinct, hs.created, hs.taken⟩
  | poller l =>
      obtain ⟨-, h⟩ := Option.ite_none_right_eq_some.mp h
      obtain ⟨arrivals, -, rfl⟩ := Option.map_eq_some_iff.mp h
      exact ⟨hs.distinct, hs.created, hs.taken⟩
  | enqueue =>
      obtain ⟨path, hp, rfl⟩ := Option.map_eq_some_iff.mp h
      rw [Pipeline.State.handOver]
      split_ifs with hne
      · have hne' : path ≠ [] := by
          rintro rfl
          cases hne
        obtain ⟨hcreated, hadd⟩ :=
          hheld.known path (List.mem_append_right _ (hheld.carried path hp)) hne'
        refine ⟨hs.distinct, hs.created, ?_⟩
        rintro name (hm | ht)
        · rcases List.mem_append.mp hm with hm | hm
          · exact hs.taken name (.inl hm)
          · rw [List.mem_singleton.mp hm]
            exact hs.created ⟨_, nameOf_noSlash path⟩ hcreated hadd
        · exact hs.taken name (.inr ht)
      · exact ⟨hs.distinct, hs.created, hs.taken⟩

theorem init_listed (dir : Str) (d : Directory Str Str) : Listed (Pipeline.init dir d) := by
  refine ⟨?_, ?_, ?_⟩
  · have htexts : ((Pipeline.filesOf d).map fun file => file.1.text).Sublist d.names := by
      rw [Pipeline.filesOf, Directory.names]
      induction d.entries with
      | nil => exact List.Sublist.refl _
      | cons entry entries ih =>
          rw [List.filterMap_cons]
          cases hfile : Pipeline.fileOf entry with
          | none => exact ih.cons _
          | some file =>
              rw [Pipeline.fileOf] at hfile
              split_ifs at hfile
              cases hfile
              exact ih.cons_cons _
    exact (d.nodup.sublist htexts).sublist (List.filter_sublist.map _)
  · intro name hm hadd
    obtain ⟨⟨text, content⟩, hentry, he⟩ := List.mem_map.mp hm
    obtain rfl : text = name.text := he
    have hfile : (name, content) ∈ Pipeline.filesOf d := Pipeline.mem_filesOf.mpr hentry
    exact List.mem_map_of_mem (f := fun file : FileName × Str => file.1.text)
      (Pipeline.mem_freshFiles.mpr ⟨hfile, hadd⟩)
  · rintro name (hm | ⟨w, hw⟩ | ⟨call, hm, -⟩)
    · cases hm
    · cases hw
    · cases hm

structure Accounted (dir : Str) (s : State) : Prop where
  held : Held dir s.pipeline
  listed : Listed s.pipeline
  calls : ∀ call ∈ s.calls, Pipeline.Taken call.1 s.pipeline.handle

theorem step_accounted {setup : Setup (Str × Nat)} {dir : Str} (s : State) (l : Label) (t : State)
    (h : step setup dir s l = some t) (hsteady : Steady dir s l) (hs : Accounted dir s) :
    Accounted dir t := by
  have hstepped := step_stepped h
  clear h
  cases hstepped with
  | @row w other line excCount rows rest row exit u kind pipeline hw hparse hpublish hkind h =>
      have hheld := Pipeline.step_held dir _ _ _ h trivial hs.held
      refine ⟨hheld, step_listed hs.held h hs.listed, ?_⟩
      obtain ⟨handle, hh, rfl⟩ := Option.map_eq_some_iff.mp h
      have hworked := Handle.workerStep_worked hh
      intro call hm
      apply Pipeline.worked_taken hworked
      rcases List.mem_append.mp hm with hm | hm
      · exact hs.calls call hm
      · obtain ⟨produced, -, rfl⟩ := List.mem_map.mp hm
        refine .inr (.inl ⟨w, ?_⟩)
        rw [hw]
        rfl
  | @other l pipeline hl h =>
      obtain ⟨hcaught, -⟩ := steady_caught hsteady
      refine ⟨Pipeline.step_held dir _ _ _ h hcaught hs.held, step_listed hs.held h hs.listed, ?_⟩
      intro call hm
      have htaken := hs.calls call hm
      rcases pipeline_step h with ⟨w, a, -, hworked, -⟩ | ⟨-, hworkers, hcalls, hqueue, -⟩
      · exact Pipeline.worked_taken hworked htaken
      · rw [Pipeline.Taken, hworkers, hcalls]
        exact htaken.imp_left fun hm => hqueue hm

section Rest

variable {setup : Setup (Str × Nat)} {entry : Str × SchemaConfig}
  {decode : Int → List UInt8 → Option Record}

/-- A call that has been through its file, with no exception, has seen to all its rows. -/
theorem streamed_all {content : Str} {rows : Rows} {ending : Handle.Ending}
    (h : HandleOnce.Streamed content rows ending) (hending : ending ≠ .notLoaded)
    (hunthrown : ∀ row ∈ rows, row.2 ≠ .threw) : rows.map Prod.fst = Handle.dataLines content := by
  cases ending with
  | endOfFile => exact h.1
  | tooManyExceptions =>
      obtain ⟨-, -, before, line, rfl⟩ := h
      exact absurd rfl (hunthrown (line, .threw) (List.mem_append_right _ (List.mem_singleton_self _)))
  | notLoaded => exact absurd rfl hending

theorem consume_perm {topic : Str} {calls calls' : List ProduceCall} (h : calls.Perm calls') :
    (consume decode topic calls).Perm (consume decode topic calls') :=
  (h.filter _).map _

theorem consume_flatMap {α : Type} (topic : Str) (f : α → List ProduceCall) (xs : List α) :
    consume decode topic (xs.flatMap f) = xs.flatMap fun x => consume decode topic (f x) := by
  induction xs with
  | nil => rfl
  | cons x xs ih => rw [List.flatMap_cons, List.flatMap_cons, consume_append, ih]

variable {dir : Str} {d : Directory Str Str} {schemas : SchemaMap} {tr : List Label} {t : State}

end Rest

/-- A processor can see to the next row of a file if publish does not throw on it. -/
theorem row_possible {setup : Setup (Str × Nat)} {entry : Str × SchemaConfig}
    {decode : Int → List UInt8 → Option Record} {names : List Str} {records : List (List Cell)}
    {dir : Str} {file : FileName × Str} {s : State} (hwritten : Written names records file.2)
    (hshields : Shields names (setup.chain.flatMap Transformer.steps))
    (hanswered : Answered setup entry) (hdecodes : Decodes setup entry decode)
    (hs : Delivering setup entry decode names records dir file s) (hm : file ∈ s.pipeline.files)
    {w : Nat} {excCount : Nat} {rows : Rows} {line : Str} {rest : List Str}
    (hw : s.pipeline.handle.workers w = .reading file.1.text excCount rows (line :: rest))
    (hline : line ∈ Handle.dataLines file.2)
    (hcalm : throwsAt setup entry (file.1.text, rows.length) (recordRow names (lineRecord line)) =
      false) :
    ∃ kind t, kind ≠ .threw ∧ step setup dir s (.row w) = some t ∧
      Pipeline.step dir s.pipeline (.worker w (.row kind)) = some t.pipeline := by
  have hself := (hs.sound hm).workers w
  rw [hw] at hself
  obtain ⟨-, hleft⟩ := hself rfl
  have hheader := written_header hwritten
  have hfull : (lineRecord line).length = (headerColumns (header file.2)).length := by
    rw [hheader]
    exact hwritten.lineRecord_length (written_dataLines hwritten) line hline
  obtain ⟨row, hparse, -⟩ := parse_leftover (show Fits (header file.2) line from hfull.le)
    hleft.columns_eq
  obtain ⟨hcells, -⟩ := operate_recordRow (hheader.symm ▸ hshields) hfull hleft hparse
  rw [hheader] at hcells
  obtain ⟨exit, u, outcome, hpublish, -, -, houtcome, hthrows, -⟩ :=
    publishRow_only hanswered hdecodes hs.only (file.1.text, rows.length) row (ignored rows)
  rw [(at_congr hcells).1, hcalm] at hthrows
  have hkind : ∃ kind, kindOf outcome = some kind := by
    cases outcome with
    | published | ignored => exact ⟨_, rfl⟩
    | threw e => cases hthrows.mpr ⟨e, rfl⟩
  obtain ⟨kind, hkind⟩ := hkind
  have hpipeline : ∃ p, Pipeline.step dir s.pipeline (.worker w (.row kind)) = some p := by
    simp only [Pipeline.step, Handle.workerStep, hw]
    exact ⟨_, rfl⟩
  obtain ⟨p, hp⟩ := hpipeline
  refine ⟨kind, ⟨p, u.schemas, Function.update s.rows w u.row,
    s.calls ++ u.calls.map fun call => (file.1.text, call)⟩, (kindOf_some hkind).1, ?_, hp⟩
  simp only [step, hw, hparse, hpublish, houtcome, hkind, hp, Option.bind_eq_bind, Option.bind_some]
  rfl

def plain : Pipeline.Label → Bool
  | .worker _ (.row _) | .worker _ .loadFails => false
  | _ => true

theorem run_other {setup : Setup (Str × Nat)} {dir : Str} {s : State} {p : Pipeline.State}
    {ls : List Pipeline.Label} (hls : ∀ l ∈ ls, plain l = true)
    (h : run (Pipeline.step dir) s.pipeline ls = some p)
    (hcaught : Along (Pipeline.step dir) (Pipeline.Caught dir) s.pipeline ls) :
    ∃ t, run (step setup dir) s (ls.map .other) = some t ∧
      Along (step setup dir) (Steady dir) s (ls.map .other) ∧ t.pipeline = p := by
  induction ls generalizing s with
  | nil =>
      cases h
      exact ⟨s, rfl, trivial, rfl⟩
  | cons l ls ih =>
      obtain ⟨hplain, hls⟩ := List.forall_mem_cons.mp hls
      obtain ⟨p', hp', h⟩ := run_cons_eq_some.mp h
      obtain ⟨hl, hcaught⟩ := (along_cons_iff hp').mp hcaught
      have hrow : ofRow l = false := by
        cases l with
        | worker w a =>
            cases a with
            | row => cases hplain
            | _ => rfl
        | _ => rfl
      have hsteady : Steady dir s (.other l) := by
        cases l with
        | worker w a =>
            cases a with
            | loadFails => cases hplain
            | _ => exact hl
        | _ => exact hl
      have hstep : step setup dir s (.other l) =
          some { s with pipeline := p', rows := s.rowsAfter l } := by
        simp only [step, hrow, hp', Bool.false_eq_true, if_false, Option.map_some]
      obtain ⟨t, ht, halong, hpipeline⟩ := ih (s := { s with pipeline := p', rows := s.rowsAfter l })
        hls h hcaught
      refine ⟨t, ?_, ?_, hpipeline⟩
      · exact run_cons_eq_some.mpr ⟨_, hstep, ht⟩
      · exact (along_cons_iff hstep).mpr ⟨hsteady, halong⟩

def untilRow : List Pipeline.Label :=
  [.poller .openDirectory, .poller (.list []), .poller .poll, .poller .watch,
    .create ⟨['n'], by decide⟩, .close ⟨['n'], by decide⟩ ['a', '\n', '7', '\n'],
    .poller (.read 2), .enqueue, .worker 0 .take, .worker 0 .increment, .worker 0 .renameFirst,
    .worker 0 .openFile]

def behindRow : List Pipeline.Label :=
  [.worker 0 .endOfFile, .worker 0 .renameLast, .worker 0 .decrement, .poller .poll,
    .poller (.read 5), .enqueue]

def number : FileName × Str := (⟨['n'], by decide⟩, ['a', '\n', '7', '\n'])

def seven : List (List Cell) := [[⟨['7'], true, by decide, by decide⟩]]

theorem seven_written : Written [['a']] seven number.2 :=
  ⟨by decide, by decide, by decide, [(['a'], .lf), (['7'], .lf)], none, rfl, by decide, by simp⟩

theorem number_pipeline :
    ∃ p, run (Pipeline.step ['d']) (Pipeline.init ['d'] Directory.empty) untilRow = some p ∧
      p.files = [number] ∧ p.handle.workers 0 = .reading ['n'] 0 [] [['7']] ∧
      ∀ kind, kind ≠ .threw → ∃ q r, Pipeline.step ['d'] p (.worker 0 (.row kind)) = some q ∧
        run (Pipeline.step ['d']) q behindRow = some r ∧
        Along (Pipeline.step ['d']) (Pipeline.Caught ['d']) q behindRow ∧ r.files = [number] ∧
        AtRest r := by
  refine ⟨_, rfl, rfl, rfl, ?_⟩
  intro kind hkind
  cases kind with
  | threw => exact absurd rfl hkind
  | published | ignored =>
      refine ⟨_, _, rfl, rfl, by decide, rfl, ⟨rfl, rfl, rfl⟩, rfl, rfl, ?_⟩
      rintro (_ | w) <;> rfl

end Flycatcher.Delivery
