import Flycatcher.CsvRow
import Mathlib.Data.List.Basic

namespace Flycatcher.CsvIterator

open Library.TextStreams CsvRow

/-- m_stream is the stream itself, or none for the null pointer. -/
structure CSVIterator where
  hasHeader : Bool
  stream : Option IStream
  row : CSVRow

/-- The loop of set_columns over the header. Each turn before the last one
reads at least the comma, so the length of the header bounds the turns. -/
def readColumns : Nat → IStream → List Str
  | 0, _ => []
  | n + 1, ss =>
      if ss.good then
        let (column, ss) := getline ss [] ','
        stripLine column :: readColumns n ss
      else []

def setColumns (row : CSVRow) (stream : IStream) : CSVRow × IStream :=
  let (header, stream) := getline stream [] '\n'
  (row.setColumns (readColumns (header.length + 1) (.ofText header)), stream)

/-- operator++. There is no result when parsing the next line indexes out of
range. -/
def CSVIterator.advance (it : CSVIterator) : Option CSVIterator :=
  match it.stream with
  | none => some it
  | some stream => do
      let (row, stream) := if it.hasHeader then setColumns it.row stream else (it.row, stream)
      let (row, stream) ← row.next stream
      return ⟨false, if stream.fail then none else some stream, row⟩

def CSVRange.begin (stream : IStream) (hasHeader : Bool) : Option CSVIterator :=
  CSVIterator.advance ⟨hasHeader, if stream.good then some stream else none, .empty⟩

structure Turn (σ : Type) where
  state : σ
  row : CSVRow
  stop : Bool

variable {σ : Type}

/-- for (auto &row : range), from an iterator on. An iterator differs from
end() as long as its stream is not null. -/
def visitRows (body : σ → CSVRow → Turn σ) : Nat → CSVIterator → σ → Option σ
  | 0, _, _ => none
  | n + 1, it, s =>
      match it.stream with
      | none => some s
      | some _ =>
          let turn := body s it.row
          if turn.stop then some turn.state
          else do
            let it ← CSVIterator.advance { it with row := turn.row }
            visitRows body n it turn.state

/-- Every turn after the first has consumed a character of the text, which
bounds the number of turns. -/
def forRows (body : σ → CSVRow → Turn σ) (text : Str) (s : σ) : Option σ := do
  let it ← CSVRange.begin (.ofText text) true
  visitRows body (text.length + 2) it s

/-- The lines of a text. A last line without a terminator counts when it is
not empty. -/
def linesFrom : Str → Str → List Str
  | cur, [] => if cur = [] then [] else [cur]
  | cur, c :: text => if c = '\n' then cur :: linesFrom [] text else linesFrom (cur ++ [c]) text

def textLines (text : Str) : List Str := linesFrom [] text

def unlines (lines : List Str) : Str := lines.flatMap (· ++ ['\n'])

def headerColumns (header : Str) : List Str := (header.splitOn ',').map stripLine

def feedLines (body : σ → CSVRow → Turn σ) : List Str → CSVRow → σ → Option σ
  | [], _, s => some s
  | line :: lines, row, s => do
      let row ← row.parse (stripLine line)
      let turn := body s row
      if turn.stop then some turn.state else feedLines body lines turn.row turn.state

def KeepsLine (body : σ → CSVRow → Turn σ) : Prop :=
  ∀ s row, (body s row).row.line = row.line ∧ (body s row).row.columns = row.columns

theorem linesFrom_line {line : Str} (h : '\n' ∉ line) (cur rest : Str) :
    linesFrom cur (line ++ '\n' :: rest) = (cur ++ line) :: linesFrom [] rest := by
  induction line generalizing cur with
  | nil => simp [linesFrom]
  | cons c line ih =>
      obtain ⟨hc, hl⟩ : '\n' ≠ c ∧ '\n' ∉ line := by simpa using h
      rw [List.cons_append, linesFrom, if_neg (Ne.symm hc), ih hl, List.append_assoc]
      rfl

theorem linesFrom_last {line : Str} (h : '\n' ∉ line) (cur : Str) :
    linesFrom cur line = if cur ++ line = [] then [] else [cur ++ line] := by
  induction line generalizing cur with
  | nil => simp [linesFrom]
  | cons c line ih =>
      obtain ⟨hc, hl⟩ : '\n' ≠ c ∧ '\n' ∉ line := by simpa using h
      rw [linesFrom, if_neg (Ne.symm hc), ih hl, List.append_assoc]
      rfl

theorem textLines_line {line : Str} (h : '\n' ∉ line) (rest : Str) :
    textLines (line ++ '\n' :: rest) = line :: textLines rest := linesFrom_line h [] rest

theorem textLines_last {line : Str} (h : '\n' ∉ line) :
    textLines line = if line = [] then [] else [line] := linesFrom_last h []

theorem textLines_unlines {lines : List Str} (h : ∀ line ∈ lines, '\n' ∉ line) :
    textLines (unlines lines) = lines := by
  induction lines with
  | nil => rfl
  | cons line lines ih =>
      have hu : unlines (line :: lines) = line ++ '\n' :: unlines lines := by simp [unlines]
      rw [hu, textLines_line (h line (by simp)), ih fun l hl => h l (List.mem_cons_of_mem _ hl)]

theorem readColumns_eq (n : Nat) (header : Str) (hn : header.length < n) :
    readColumns n (.ofText header) = headerColumns header := by
  induction n generalizing header with
  | zero => omega
  | succ n ih =>
      have hgood : (IStream.ofText header).good = true := rfl
      rw [readColumns, if_pos hgood]
      rcases getline_cases header ',' with ⟨hc, hg⟩ | ⟨column, rest, hc, rfl, hg⟩
      · rw [hg]
        cases n <;> simp [readColumns, IStream.good, headerColumns, List.splitOn_eq_singleton hc]
      · have hr : rest.length < n := by
          simp only [List.length_append, List.length_cons] at hn; omega
        rw [hg]
        simp only [ih rest hr, headerColumns]
        rw [List.splitOn_append_cons_self_of_not_mem hc]
        rfl

theorem advance_ofText (row : CSVRow) (text : Str) :
    CSVIterator.advance ⟨false, some (.ofText text), row⟩ = do
      let (line, stream) := getline (.ofText text) row.line '\n'
      let row ← row.parse (stripLine line)
      return ⟨false, if stream.fail then none else some stream, row⟩ := by
  simp only [CSVIterator.advance, CSVRow.next, Option.bind_eq_bind, Option.bind_assoc, pure]
  rfl

/-- Once the end is reached the next advance fails to read, parses the line it
still holds a second time, and gives up the stream. -/
theorem advance_eof (row : CSVRow) {stream : IStream} (hs : stream.good = false)
    (h : (row.parse (stripLine row.line)).isSome) :
    ∃ row', CSVIterator.advance ⟨false, some stream, row⟩ = some ⟨false, none, row'⟩ := by
  obtain ⟨row', hr⟩ := Option.isSome_iff_exists.mp h
  refine ⟨row', ?_⟩
  simp [CSVIterator.advance, CSVRow.next, getline_not_good hs, IStream.fail, hr]

theorem parse_again {row row' row'' : CSVRow} {line : Str}
    (h : row.parse (stripLine line) = some row')
    (hk : row''.line = row'.line ∧ row''.columns = row'.columns) :
    (row''.parse (stripLine row''.line)).isSome := by
  obtain ⟨hc, hl⟩ := parse_columns h
  rw [parse_isSome, hk.1, hk.2, hl, hc, stripLine_stripLine, ← parse_isSome, h]
  rfl

/-- Advancing through the stream feeds the loop one line of the remaining text
after the other. -/
theorem visitRows_eq {body : σ → CSVRow → Turn σ} (hbody : KeepsLine body) (n : Nat) (text : Str)
    (hn : text.length + 1 < n) (row : CSVRow) (hrow : row.columns ≠ []) (s : σ) :
    (do
      let it ← CSVIterator.advance ⟨false, some (.ofText text), row⟩
      visitRows body n it s) = feedLines body (textLines text) row s := by
  induction n generalizing text row s with
  | zero => omega
  | succ n ih =>
      rw [advance_ofText]
      rcases getline_cases text '\n' with ⟨hline, hg⟩ | ⟨line, rest, hline, rfl, hg⟩
      · rw [hg, textLines_last hline]
        by_cases ht : text = []
        · -- nothing was extracted: the iterator becomes the end iterator
          subst ht
          obtain ⟨row', hr⟩ := Option.isSome_iff_exists.mp (parse_nil_isSome row hrow)
          have hs : stripLine [] = [] := rfl
          simp [hs, hr, IStream.fail, visitRows, feedLines]
        · -- the last line has no terminator: it is visited, and then the stream has failed
          simp only [List.isEmpty_eq_false_iff.mpr ht, if_neg ht, feedLines, IStream.fail,
            Option.bind_eq_bind]
          cases hr : row.parse (stripLine text) with
          | none => rfl
          | some row' =>
              simp only [Option.bind_some, pure, visitRows, Bool.false_eq_true, if_false]
              split_ifs with hstop
              · rfl
              · have heof : (⟨[], true, false⟩ : IStream).good = false := rfl
                obtain ⟨row'', ha⟩ := advance_eof _ heof (parse_again hr (hbody s row'))
                rw [ha]
                cases n with
                | zero => simp at hn
                | succ n => rfl
      · have hrest : rest.length + 1 < n := by
          simp only [List.length_append, List.length_cons] at hn; omega
        rw [hg, textLines_line hline]
        simp only [feedLines, IStream.fail, IStream.ofText, Option.bind_eq_bind]
        cases hr : row.parse (stripLine line) with
        | none => rfl
        | some row' =>
            simp only [Option.bind_some, pure, visitRows, Bool.false_eq_true, if_false]
            split_ifs with hstop
            · rfl
            · have hcols : (body s row').row.columns ≠ [] := by
                rw [(hbody s row').2, (parse_columns hr).1]; exact hrow
              exact ih rest hrest _ hcols _

theorem splitOn_filter {p : Char → Bool} {c : Char} (hc : p c = true) (line : Str) :
    (line.filter p).splitOn c = (line.splitOn c).map (List.filter p) := by
  induction line with
  | nil => rfl
  | cons d line ih =>
      obtain ⟨f, fs, hf⟩ := List.exists_cons_of_ne_nil (List.splitOn_ne_nil c line)
      rw [hf] at ih
      by_cases hd : d = c
      · subst hd
        rw [List.filter_cons_of_pos hc]
        simp [List.splitOn_cons_eq_if_modifyHead, ih, hf]
      · by_cases hp : p d
        · rw [List.filter_cons_of_pos hp]
          simp [List.splitOn_cons_eq_if_modifyHead, ih, hf, hd, hp]
        · rw [List.filter_cons_of_neg hp]
          simp [List.splitOn_cons_eq_if_modifyHead, ih, hf, hd, hp]

theorem headerColumns_eq (header : Str) :
    headerColumns header = (stripLine header).splitOn ',' := by
  rw [stripLine, removeChar, removeChar, splitOn_filter (by decide), splitOn_filter (by decide),
    List.map_map]
  rfl

theorem headerColumns_ne_nil (header : Str) : headerColumns header ≠ [] := by
  simp [headerColumns, List.splitOn_ne_nil]

theorem setColumns_eq (row : CSVRow) (stream : IStream) {header : Str} {stream' : IStream}
    (h : getline stream [] '\n' = (header, stream')) :
    setColumns row stream = (row.setColumns (headerColumns header), stream') := by
  simp only [setColumns, h]
  rw [readColumns_eq _ _ (Nat.lt_succ_self _)]

theorem begin_eq (text : Str) {header : Str} {stream : IStream}
    (h : getline (.ofText text) [] '\n' = (header, stream)) :
    CSVRange.begin (.ofText text) true =
      CSVIterator.advance
        ⟨false, some stream, CSVRow.empty.setColumns (headerColumns header)⟩ := by
  have hgood : (IStream.ofText text).good = true := rfl
  simp only [CSVRange.begin, hgood, if_true, CSVIterator.advance, setColumns_eq _ _ h,
    Bool.false_eq_true, if_false]

/-- The loop over a file visits the lines after the header, with the columns
that the header names. -/
theorem forRows_eq {body : σ → CSVRow → Turn σ} (hbody : KeepsLine body) {header : Str}
    (hheader : '\n' ∉ header) (text : Str) (s : σ) :
    forRows body (header ++ '\n' :: text) s =
      feedLines body (textLines text) (CSVRow.empty.setColumns (headerColumns header)) s := by
  have hn : text.length + 1 < (header ++ '\n' :: text).length + 2 := by
    simp only [List.length_append, List.length_cons]; omega
  rw [← visitRows_eq hbody _ text hn _ (headerColumns_ne_nil header), forRows,
    begin_eq _ (getline_line hheader text [])]

theorem forRows_headerOnly (body : σ → CSVRow → Turn σ) {header : Str} (hheader : '\n' ∉ header)
    (s : σ) : forRows body header s = some s := by
  have hp : ((CSVRow.empty.setColumns (headerColumns header)).parse (stripLine [])).isSome :=
    parse_nil_isSome _ (headerColumns_ne_nil header)
  have hs : (⟨[], true, header.isEmpty⟩ : IStream).good = false := rfl
  obtain ⟨row, hr⟩ := advance_eof _ hs hp
  rw [forRows, begin_eq _ (getline_last hheader []), hr]
  rfl

theorem forRows_unlines {body : σ → CSVRow → Turn σ} (hbody : KeepsLine body) {header : Str}
    {lines : List Str} (hheader : '\n' ∉ header) (hlines : ∀ line ∈ lines, '\n' ∉ line) (s : σ) :
    forRows body (unlines (header :: lines)) s =
      feedLines body lines (CSVRow.empty.setColumns (headerColumns header)) s := by
  have hu : unlines (header :: lines) = header ++ '\n' :: unlines lines := by simp [unlines]
  rw [hu, forRows_eq hbody hheader, textLines_unlines hlines]

end Flycatcher.CsvIterator
