import Flycatcher.CsvIterator
import Mathlib.Data.List.Forall2

namespace Flycatcher.CsvRoundTrip

open Library.TextStreams CsvRow CsvIterator

/-- One field of a record together with the way it is written. Only a field
without commas and quotes can be written bare. -/
structure Cell where
  text : Str
  bare : Bool
  no_break : '\r' ∉ text ∧ '\n' ∉ text
  bare_plain : bare = true → ',' ∉ text ∧ '"' ∉ text

def escape (s : Str) : Str := s.flatMap (fun c => if c = '"' then ['"', '"'] else [c])

def Cell.render (cell : Cell) : Str :=
  if cell.bare then cell.text else '"' :: (escape cell.text ++ ['"'])

def renderRecord (record : List Cell) : Str := [','].intercalate (record.map Cell.render)

def renderHeader (names : List Str) : Str := [','].intercalate names

inductive Ending
  | lf
  | crlf

def Ending.tail : Ending → Str
  | .lf => []
  | .crlf => ['\r']

def joinLines : List (Str × Ending) → Option Str → Str
  | [], last => last.getD []
  | (line, ending) :: lines, last => line ++ ending.tail ++ '\n' :: joinLines lines last

def collect (rows : List CSVRow) (row : CSVRow) : Turn (List CSVRow) := ⟨rows ++ [row], row, false⟩

def csvRows (text : Str) : Option (List CSVRow) := forRows collect text []

theorem fieldsFrom_bare {s : Str} (h : ',' ∉ s ∧ '"' ∉ s) (cur rest : Str) :
    fieldsFrom .unquotedField cur (s ++ rest) = fieldsFrom .unquotedField (cur ++ s) rest := by
  induction s generalizing cur with
  | nil => simp
  | cons c s ih =>
      simp only [List.mem_cons, not_or] at h
      have hc : c ≠ ',' := Ne.symm h.1.1
      have hq : c ≠ '"' := Ne.symm h.2.1
      rw [List.cons_append, fieldsFrom, if_neg hc, if_neg hq, ih ⟨h.1.2, h.2.2⟩, List.append_assoc]
      rfl

theorem fieldsFrom_escape (s cur rest : Str) :
    fieldsFrom .quotedField cur (escape s ++ '"' :: rest) =
      fieldsFrom .quotedQuote (cur ++ s) rest := by
  induction s generalizing cur with
  | nil => simp [escape, fieldsFrom]
  | cons c s ih =>
      by_cases hc : c = '"'
      · subst hc
        have he : escape ('"' :: s) = '"' :: '"' :: escape s := rfl
        have hcomma : ¬ '"' = ',' := by decide
        rw [he, List.cons_append, List.cons_append, fieldsFrom, if_pos rfl, fieldsFrom, if_neg hcomma,
          if_pos rfl, ih, List.append_assoc]
        rfl
      · have he : escape (c :: s) = c :: escape s := by simp [escape, hc]
        rw [he, List.cons_append, fieldsFrom, if_neg hc, ih, List.append_assoc]
        rfl

theorem fieldsFrom_cell (cell : Cell) :
    fieldsFrom .unquotedField [] cell.render = [cell.text] ∧
      ∀ rest, fieldsFrom .unquotedField [] (cell.render ++ ',' :: rest) =
        cell.text :: fieldsFrom .unquotedField [] rest := by
  by_cases hb : cell.bare = true
  · have h := fieldsFrom_bare (cell.bare_plain hb) []
    refine ⟨?_, fun rest => ?_⟩
    · have h := h []
      simpa [Cell.render, hb, fieldsFrom] using h
    · rw [Cell.render, if_pos hb, h, List.nil_append, fieldsFrom, if_pos rfl]
  · have hopen (rest : Str) : fieldsFrom .unquotedField [] (cell.render ++ rest) =
        fieldsFrom .quotedQuote cell.text rest := by
      have hcomma : ¬ '"' = ',' := by decide
      rw [Cell.render, if_neg hb, List.cons_append, fieldsFrom, if_neg hcomma, if_pos rfl,
        List.append_assoc]
      exact fieldsFrom_escape cell.text [] rest
    refine ⟨?_, fun rest => ?_⟩
    · have h := hopen []
      simpa [fieldsFrom] using h
    · rw [hopen, fieldsFrom, if_pos rfl]

theorem intercalate_cons (d : Char) (part next : Str) (parts : List Str) :
    [d].intercalate (part :: next :: parts) = part ++ d :: [d].intercalate (next :: parts) := by
  simp

/-- The quote machine reads back what a record was written as, whichever way
each field was written. -/
theorem lineFields_renderRecord (record : List Cell) (h : record ≠ []) :
    lineFields (renderRecord record) = record.map Cell.text := by
  induction record with
  | nil => exact absurd rfl h
  | cons cell record ih =>
      cases record with
      | nil => simpa [renderRecord, lineFields] using (fieldsFrom_cell cell).1
      | cons next record =>
          have hr : renderRecord (cell :: next :: record) =
              cell.render ++ ',' :: renderRecord (next :: record) :=
            intercalate_cons ',' cell.render next.render _
          have hi := ih (List.cons_ne_nil next record)
          rw [lineFields] at hi ⊢
          rw [hr, (fieldsFrom_cell cell).2, hi]
          rfl

theorem mem_escape {c : Char} {s : Str} (h : c ∈ escape s) : c ∈ s := by
  obtain ⟨d, hd, hc⟩ := List.mem_flatMap.mp h
  split_ifs at hc with hq
  · have he : c = '"' := by simpa using hc
    exact he ▸ hq ▸ hd
  · have he : c = d := by simpa using hc
    exact he ▸ hd

theorem mem_render {c : Char} {cell : Cell} (h : c ∈ cell.render) : c ∈ cell.text ∨ c = '"' := by
  rw [Cell.render] at h
  split_ifs at h
  · exact .inl h
  · simp only [List.mem_cons, List.mem_append, List.not_mem_nil, or_false] at h
    rcases h with h | h | h
    · exact .inr h
    · exact .inl (mem_escape h)
    · exact .inr h

theorem mem_intercalate {c d : Char} {parts : List Str} (h : c ∈ [d].intercalate parts) :
    c = d ∨ ∃ part ∈ parts, c ∈ part := by
  induction parts with
  | nil => simp at h
  | cons part parts ih =>
      cases parts with
      | nil => exact .inr ⟨part, by simp, by simpa using h⟩
      | cons next parts =>
          rw [intercalate_cons, List.mem_append, List.mem_cons] at h
          rcases h with h | h | h
          · exact .inr ⟨part, by simp, h⟩
          · exact .inl h
          · rcases ih h with h | ⟨part', hp, hc⟩
            · exact .inl h
            · exact .inr ⟨part', List.mem_cons_of_mem _ hp, hc⟩

def NoBreak (line : Str) : Prop := '\r' ∉ line ∧ '\n' ∉ line

instance (line : Str) : Decidable (NoBreak line) := inferInstanceAs (Decidable (_ ∧ _))

theorem renderRecord_noBreak (record : List Cell) : NoBreak (renderRecord record) := by
  have hcell (c : Char) (hc : c = '\r' ∨ c = '\n') (cell : Cell) : c ∉ cell.render := by
    intro h
    rcases mem_render h with h | h
    · rcases hc with rfl | rfl
      · exact cell.no_break.1 h
      · exact cell.no_break.2 h
    · rcases hc with rfl | rfl <;> exact absurd h (by decide)
  have hrec (c : Char) (hc : c = '\r' ∨ c = '\n') : c ∉ renderRecord record := by
    intro h
    rcases mem_intercalate h with h | ⟨part, hp, h⟩
    · rcases hc with rfl | rfl <;> exact absurd h (by decide)
    · obtain ⟨cell, -, rfl⟩ := List.mem_map.mp hp
      exact hcell c hc cell h
  exact ⟨hrec _ (.inl rfl), hrec _ (.inr rfl)⟩

theorem renderHeader_noBreak {names : List Str} (h : ∀ name ∈ names, NoBreak name) :
    NoBreak (renderHeader names) := by
  have hname (c : Char) (hc : c = '\r' ∨ c = '\n') : c ∉ renderHeader names := by
    intro hm
    rcases mem_intercalate hm with he | ⟨name, hn, hm⟩
    · rcases hc with rfl | rfl <;> exact absurd he (by decide)
    · rcases hc with rfl | rfl
      · exact (h name hn).1 hm
      · exact (h name hn).2 hm
  exact ⟨hname _ (.inl rfl), hname _ (.inr rfl)⟩

theorem stripLine_tail {line : Str} (h : NoBreak line) (ending : Ending) :
    stripLine (line ++ ending.tail) = line := by
  have ht : stripLine ending.tail = [] := by cases ending <;> rfl
  rw [stripLine, removeChar_append, removeChar_append]
  change stripLine line ++ stripLine ending.tail = line
  rw [ht, stripLine_of_not_mem h.1 h.2, List.append_nil]

theorem newline_not_mem_tail {line : Str} (h : NoBreak line) (ending : Ending) :
    '\n' ∉ line ++ ending.tail := by
  rw [List.mem_append, not_or]
  refine ⟨h.2, ?_⟩
  cases ending <;> decide

theorem headerColumns_renderHeader {names : List Str} (hne : names ≠ [])
    (hnames : ∀ name ∈ names, ',' ∉ name ∧ NoBreak name) (ending : Ending) :
    headerColumns (renderHeader names ++ ending.tail) = names := by
  rw [headerColumns_eq, stripLine_tail (renderHeader_noBreak fun name hn => (hnames name hn).2)]
  exact List.splitOn_intercalate _ (fun name hn => (hnames name hn).1) hne

theorem textLines_joinLines {closed : List (Str × Ending)} {last : Option Str}
    (hclosed : ∀ line ∈ closed, NoBreak line.1) (hlast : ∀ line ∈ last, NoBreak line ∧ line ≠ []) :
    textLines (joinLines closed last) =
      closed.map (fun line => line.1 ++ line.2.tail) ++ last.toList := by
  induction closed with
  | nil =>
      cases last with
      | none => rfl
      | some line =>
          obtain ⟨hb, hne⟩ := hlast line rfl
          exact (textLines_last hb.2).trans (if_neg hne)
  | cons line closed ih =>
      have hl := newline_not_mem_tail (hclosed line (by simp)) line.2
      rw [joinLines, textLines_line hl, ih (fun l hl => hclosed l (List.mem_cons_of_mem _ hl))]
      rfl

theorem feedLines_collect {names : List Str} (hnodup : names.Nodup) {records : List (List Cell)}
    (hne : names ≠ []) (hlen : ∀ record ∈ records, record.length = names.length) {lines : List Str}
    (hlines : lines.map stripLine = records.map renderRecord) {row : CSVRow}
    (hrow : row.columns = names) (acc : List CSVRow) :
    ∃ rows, feedLines collect lines row acc = some (acc ++ rows) ∧
      rows.map (fun row => names.map row.value) = records.map (fun record => record.map Cell.text) := by
  induction records generalizing lines row acc with
  | nil =>
      obtain rfl : lines = [] := by simpa using hlines
      exact ⟨[], by simp [feedLines], rfl⟩
  | cons record records ih =>
      cases lines with
      | nil => simp at hlines
      | cons line lines =>
          rw [List.map_cons, List.map_cons, List.cons.injEq] at hlines
          obtain ⟨hline, hlines⟩ := hlines
          have hl : record.length = names.length := hlen record (by simp)
          have hrecord : record ≠ [] := by
            rintro rfl
            exact hne (List.length_eq_zero_iff.mp hl.symm)
          have hfields := lineFields_renderRecord record hrecord
          have hcount : (lineFields (stripLine line)).length = row.columns.length := by
            rw [hline, hfields, List.length_map, hl, hrow]
          obtain ⟨row', hp, hcols, hvalues⟩ := parse_full (hrow ▸ hnodup) hcount
          obtain ⟨rows, hfeed, hrows⟩ := ih (fun r hr => hlen r (List.mem_cons_of_mem _ hr)) hlines
            (hcols.trans hrow) (acc ++ [row'])
          refine ⟨row' :: rows, ?_, ?_⟩
          · rw [feedLines, hp]
            simp only [Option.bind_eq_bind, Option.bind_some, collect, Bool.false_eq_true, if_false]
            rw [hfeed, List.append_assoc]
            rfl
          · rw [List.map_cons, List.map_cons, hrows, ← hrow, hvalues, hline, hfields]

theorem noBreak_of_renderRecord {records : List (List Cell)} {line : Str}
    (h : line ∈ records.map renderRecord) : NoBreak line := by
  obtain ⟨record, -, rfl⟩ := List.mem_map.mp h
  exact renderRecord_noBreak record

/-- Each line loses the ending that the iterator leaves it. -/
theorem map_stripLine_lines {closed : List (Str × Ending)} {last : Option Str}
    (hclosed : ∀ line ∈ closed, NoBreak line.1) (hopen : ∀ line ∈ last, NoBreak line) :
    (closed.map (fun line => line.1 ++ line.2.tail) ++ last.toList).map stripLine =
      closed.map Prod.fst ++ last.toList := by
  rw [List.map_append, List.map_map]
  congr 1
  · exact List.map_congr_left fun line hl => stripLine_tail (hclosed line hl) line.2
  · cases last with
    | none => rfl
    | some line =>
        obtain ⟨hr, hn⟩ := hopen line rfl
        simp [stripLine_of_not_mem hr hn]

theorem lines_noBreak {records : List (List Cell)} {closed : List (Str × Ending)}
    {last : Option Str} (hlines : closed.map Prod.fst ++ last.toList = records.map renderRecord)
    (hlast : ∀ line ∈ last, records = [] ∨ line ≠ []) :
    (∀ line ∈ closed, NoBreak line.1) ∧ ∀ line ∈ last, NoBreak line ∧ line ≠ [] := by
  constructor
  · intro line hl
    apply noBreak_of_renderRecord
    rw [← hlines]
    exact List.mem_append_left _ (List.mem_map_of_mem hl)
  · intro line hl
    have hm : line ∈ records.map renderRecord := by
      rw [← hlines]
      exact List.mem_append_right _ (by simpa using hl)
    refine ⟨noBreak_of_renderRecord hm, (hlast _ hl).resolve_left ?_⟩
    rintro rfl
    cases hm

/-- Iterating over a file written from records yields those records, whichever
way the fields are quoted and the lines are terminated. -/
theorem csvRows_joinLines {names : List Str} (hne : names ≠ []) (hnodup : names.Nodup)
    (hnames : ∀ name ∈ names, ',' ∉ name ∧ NoBreak name) {records : List (List Cell)}
    (hlen : ∀ record ∈ records, record.length = names.length)
    {closed : List (Str × Ending)} {last : Option Str}
    (hlines : closed.map Prod.fst ++ last.toList = renderHeader names :: records.map renderRecord)
    (hlast : ∀ line ∈ last, records = [] ∨ line ≠ []) :
    ∃ rows, csvRows (joinLines closed last) = some rows ∧
      rows.map (fun row => names.map row.value) = records.map (fun record => record.map Cell.text) := by
  have hheader := renderHeader_noBreak fun name hn => (hnames name hn).2
  cases closed with
  | nil =>
      -- the header is the last line, and not terminated
      cases last with
      | none => simp at hlines
      | some line =>
          simp only [List.map_nil, List.nil_append, Option.toList_some, List.cons.injEq] at hlines
          obtain ⟨rfl, hnil⟩ := hlines
          obtain rfl : records = [] := List.map_eq_nil_iff.mp hnil.symm
          exact ⟨[], forRows_headerOnly collect hheader.2 [], rfl⟩
  | cons line closed =>
      obtain ⟨header, ending⟩ := line
      simp only [List.map_cons, List.cons_append, List.cons.injEq] at hlines
      obtain ⟨rfl, hlines⟩ := hlines
      obtain ⟨hclosed, hopen⟩ := lines_noBreak hlines hlast
      have hstrip : (closed.map (fun line => line.1 ++ line.2.tail) ++ last.toList).map stripLine =
          records.map renderRecord := by
        rw [map_stripLine_lines hclosed fun line hl => (hopen line hl).1, hlines]
      rw [csvRows, joinLines, forRows_eq (fun _ _ => ⟨rfl, rfl⟩)
        (newline_not_mem_tail hheader ending), textLines_joinLines hclosed hopen,
        headerColumns_renderHeader hne hnames]
      have h := feedLines_collect hnodup hne hlen hstrip
        (setColumns_columns CSVRow.empty names) []
      simpa using h

theorem csvRows_joinLines_quoted :
    ∃ rows, csvRows (joinLines [(['a', ',', 'b'], .crlf)] (some ['"', 'x', '"', '"', '"', ',', 'y'])) =
        some rows ∧
      rows.map (fun row => [['a'], ['b']].map row.value) = [[['x', '"'], ['y']]] :=
  @csvRows_joinLines [['a'], ['b']] (by decide) (by decide) (by decide)
    [[⟨['x', '"'], false, by decide, by decide⟩, ⟨['y'], true, by decide, by decide⟩]] (by decide)
    [(['a', ',', 'b'], .crlf)] (some ['"', 'x', '"', '"', '"', ',', 'y']) (by decide) (by simp)

end Flycatcher.CsvRoundTrip
