import Flycatcher.CsvBounds
import Flycatcher.Library.Runs
import Mathlib.Data.List.Basic

namespace Flycatcher.CsvGrammar

open Library.TextStreams Library.Runs CsvRow CsvIterator CsvBounds

def nextState : CSVState → Char → CSVState
  | .unquotedField, c => if c = '"' then .quotedField else .unquotedField
  | .quotedField, c => if c = '"' then .quotedQuote else .quotedField
  | .quotedQuote, c => if c = '"' then .quotedField else .unquotedField

def stateAfter (line : Str) : CSVState := line.foldl nextState .unquotedField

/-- The commas that end a field, the quotes that open or close a section, and
the first one of a doubled pair. -/
def structural : CSVState → Char → Bool
  | .unquotedField, c => c = ',' || c = '"'
  | .quotedField, c => c = '"'
  | .quotedQuote, c => c = ','

def dataChars : CSVState → Str → Str
  | _, [] => []
  | state, c :: line =>
      if structural state c then dataChars (nextState state c) line
      else c :: dataChars (nextState state c) line

def dropped : CSVState → Char → Bool
  | .quotedQuote, c => c ≠ ',' && c ≠ '"'
  | _, _ => false

def keptChars : CSVState → Str → Str
  | _, [] => []
  | state, c :: line =>
      if structural state c || dropped state c then keptChars (nextState state c) line
      else c :: keptChars (nextState state c) line

theorem fieldsFrom_flatten (state : CSVState) (cur line : Str) :
    (fieldsFrom state cur line).flatten = cur ++ keptChars state line := by
  induction line generalizing state cur with
  | nil => cases state <;> simp [fieldsFrom, keptChars]
  | cons c line ih =>
      cases state with
      | unquotedField =>
          rw [fieldsFrom, keptChars]
          by_cases hc : c = ','
          · subst hc
            simp [structural, nextState, ih]
          · by_cases hq : c = '"'
            · subst hq
              simp [structural, nextState, ih, hc]
            · simp [structural, dropped, nextState, ih, hc, hq]
      | quotedField =>
          rw [fieldsFrom, keptChars]
          by_cases hq : c = '"'
          · simp [structural, nextState, ih, hq]
          · simp [structural, dropped, nextState, ih, hq]
      | quotedQuote =>
          rw [fieldsFrom, keptChars]
          by_cases hc : c = ','
          · subst hc
            simp [structural, nextState, ih]
          · by_cases hq : c = '"'
            · subst hq
              simp [structural, dropped, nextState, ih, hc]
            · simp [structural, dropped, nextState, ih, hc, hq]

theorem keptChars_length_le (state : CSVState) (line : Str) :
    (keptChars state line).length ≤ (dataChars state line).length := by
  induction line generalizing state with
  | nil => exact Nat.le_refl _
  | cons c line ih =>
      have h := ih (nextState state c)
      rw [keptChars, dataChars]
      by_cases hs : structural state c
      · simpa [hs] using h
      · by_cases hd : dropped state c
        · rw [hd, Bool.or_true, if_pos rfl, if_neg hs, List.length_cons]
          omega
        · simpa [hs, hd] using h

theorem not_structural_of_dropped {state : CSVState} {c : Char} (h : dropped state c = true) :
    structural state c = false := by
  cases state with
  | unquotedField | quotedField => cases h
  | quotedQuote =>
      simp only [dropped, Bool.and_eq_true, decide_eq_true_eq] at h
      simp [structural, h.1]

theorem keptChars_eq_iff (state : CSVState) (line : Str) :
    keptChars state line = dataChars state line ↔
      ∀ before c after, line = before ++ c :: after →
        dropped (before.foldl nextState state) c = false := by
  induction line generalizing state with
  | nil => simp [keptChars, dataChars]
  | cons c line ih =>
      rw [forall_split_cons, keptChars, dataChars]
      have ih := ih (nextState state c)
      cases hd : dropped state c with
      | true =>
          rw [not_structural_of_dropped hd]
          simp only [List.foldl_nil, hd, Bool.or_true, if_true, Bool.false_eq_true, if_false,
            reduceCtorEq, false_and, iff_false]
          intro he
          have hl := keptChars_length_le (nextState state c) line
          have hl' := congrArg List.length he
          rw [List.length_cons] at hl'
          omega
      | false =>
          simp only [Bool.or_false, List.foldl_nil, List.foldl_cons, hd, true_and]
          split_ifs
          · exact ih
          · rw [List.cons_inj_right]
            exact ih

theorem keptChars_sublist (state : CSVState) (line : Str) : (keptChars state line).Sublist line := by
  induction line generalizing state with
  | nil => exact .slnil
  | cons c line ih =>
      rw [keptChars]
      split_ifs
      · exact (ih _).cons c
      · exact (ih _).cons_cons c

def StandsAt (line : Str) (stream : IStream) : Prop :=
  stream = .ofText line ∨ ∃ rest, stream = .ofText (line ++ '\n' :: rest)

theorem getline_standsAt {line : Str} (h : '\n' ∉ line) {stream : IStream}
    (hs : StandsAt line stream) (str : Str) :
    ∃ stream', getline stream str '\n' = (line, stream') := by
  rcases hs with rfl | ⟨rest, rfl⟩
  · exact ⟨_, getline_last h str⟩
  · exact ⟨_, getline_line h rest str⟩

theorem setColumns_standsAt {line : Str} (h : '\n' ∉ line) {stream : IStream}
    (hs : StandsAt line stream) (row : CSVRow) :
    (setColumns row stream).1.columns = headerColumns line := by
  obtain ⟨stream', hg⟩ := getline_standsAt h hs []
  rw [setColumns_eq row stream hg]
  rfl

theorem next_standsAt {line : Str} (h : '\n' ∉ line) {stream : IStream} (hs : StandsAt line stream)
    (row : CSVRow) : ∃ stream', row.next stream = (row.parse (stripLine line)).map (·, stream') := by
  obtain ⟨stream', hg⟩ := getline_standsAt h hs row.line
  refine ⟨stream', ?_⟩
  simp only [CSVRow.next, hg]
  cases hp : row.parse (stripLine line) <;> rfl

theorem parse_fields {row row' : CSVRow} {line : Str} (h : row.parse line = some row') :
    row'.fields = lineFields line := by
  rw [parse_eq] at h
  split_ifs at h
  cases h
  rfl

/-- What next makes of the line, with enough columns for it, is all of its data
characters and nothing else. -/
def KeepsData (line : Str) : Prop :=
  ∀ (row : CSVRow) (stream : IStream), StandsAt line stream →
    separators .unquotedField line < row.columns.length →
    ∃ row' stream', row.next stream = some (row', stream') ∧
      row'.fields.flatten = dataChars .unquotedField line ∧
      ∀ field ∈ row'.fields, ∀ c ∈ field, c ∈ line

theorem lineFields_subset {line field : Str} (h : field ∈ lineFields line) :
    ∀ c ∈ field, c ∈ line := by
  intro c hc
  have hm : c ∈ (lineFields line).flatten := List.mem_flatten_of_mem h hc
  rw [lineFields, fieldsFrom_flatten] at hm
  exact (keptChars_sublist .unquotedField line).subset hm

theorem keepsData_iff_kept {line : Str} (hr : '\r' ∉ line) (hn : '\n' ∉ line) :
    KeepsData line ↔ keptChars .unquotedField line = dataChars .unquotedField line := by
  have hflat : (lineFields line).flatten = keptChars .unquotedField line := by
    rw [lineFields, fieldsFrom_flatten, List.nil_append]
  have hnext {row : CSVRow} {stream : IStream} (hs : StandsAt line stream)
      (hcols : separators .unquotedField line < row.columns.length) :
      ∃ row' stream', row.next stream = some (row', stream') ∧ row'.fields = lineFields line := by
    obtain ⟨stream', hnext⟩ := next_standsAt hn hs row
    have hsome : (row.parse line).isSome := by
      rw [parse_isSome, lineFields, fieldsFrom_length]
      exact hcols
    obtain ⟨row', hp⟩ := Option.isSome_iff_exists.mp hsome
    rw [stripLine_of_not_mem hr hn, hp] at hnext
    exact ⟨row', stream', hnext, parse_fields hp⟩
  constructor
  · intro h
    have hcols : separators .unquotedField line < (CSVRow.empty.setColumns
        (List.replicate (separators .unquotedField line + 1) [])).columns.length := by
      simp
    obtain ⟨row', stream', hsome, hdata, -⟩ := h _ _ (.inl rfl) hcols
    obtain ⟨row'', stream'', hsome', hfields⟩ := hnext (.inl rfl) hcols
    rw [hsome] at hsome'
    cases hsome'
    rw [← hflat, ← hfields, hdata]
  · intro h row stream hs hcols
    obtain ⟨row', stream', hsome, hfields⟩ := hnext hs hcols
    refine ⟨row', stream', hsome, ?_, ?_⟩
    · rw [hfields, hflat, h]
    · rw [hfields]
      exact fun field => lineFields_subset

theorem dropped_eq_false_iff {state : CSVState} {c : Char} :
    dropped state c = false ↔ (state = .quotedQuote → c = ',' ∨ c = '"') := by
  cases state with
  | unquotedField | quotedField => simp [dropped]
  | quotedQuote => simp [dropped, or_iff_not_imp_left]

/-- No data character is lost exactly when a comma, a quote or nothing follows
every closing quote. -/
theorem keepsData_iff {line : Str} (hr : '\r' ∉ line) (hn : '\n' ∉ line) :
    KeepsData line ↔ ∀ before c after, line = before ++ c :: after →
      stateAfter before = .quotedQuote → c = ',' ∨ c = '"' := by
  rw [keepsData_iff_kept hr hn, keptChars_eq_iff]
  simp only [dropped_eq_false_iff, stateAfter]

theorem keepsData_doubled : KeepsData "\"a\"\"b\",c".toList := by
  apply (keepsData_iff (by decide) (by decide)).mpr
  intro before c after he
  exact dropped_eq_false_iff.mp
    ((keptChars_eq_iff .unquotedField _).mp (by decide) before c after he)

theorem loses_after_quote : ¬KeepsData "\"a\"x".toList := by
  rw [keepsData_iff_kept (by decide) (by decide)]
  decide

def SameGrammar (line : Str) : Prop :=
  ∀ (row row' row'' : CSVRow) (header stream stream' : IStream), StandsAt line header →
    StandsAt line stream → row'.next stream = some (row'', stream') →
    (setColumns row header).1.columns = row''.fields

theorem fieldsFrom_plain {line : Str} (h : '"' ∉ line) (cur : Str) :
    fieldsFrom .unquotedField cur line = (line.splitOn ',').modifyHead (cur ++ ·) := by
  induction line generalizing cur with
  | nil => simp [fieldsFrom]
  | cons c line ih =>
      obtain ⟨hc, hl⟩ : '"' ≠ c ∧ '"' ∉ line := by simpa using h
      obtain ⟨f, fs, hf⟩ := List.exists_cons_of_ne_nil (List.splitOn_ne_nil ',' line)
      rw [fieldsFrom, List.splitOn_cons_eq_if_modifyHead, if_neg (Ne.symm hc), ih hl, ih hl, hf]
      by_cases hcomma : c = ','
      · simp [hcomma]
      · simp [hcomma]

theorem splitOn_flatten (c : Char) (line : Str) : (line.splitOn c).flatten = removeChar c line := by
  induction line with
  | nil => rfl
  | cons d line ih =>
      obtain ⟨f, fs, hf⟩ := List.exists_cons_of_ne_nil (List.splitOn_ne_nil c line)
      rw [hf] at ih
      rw [removeChar] at ih ⊢
      rw [List.filter_cons, ← ih]
      by_cases hd : d = c
      · simp [List.splitOn_cons_eq_if_modifyHead, hf, hd]
      · simp [List.splitOn_cons_eq_if_modifyHead, hf, hd]

theorem keptChars_count_lt {line : Str} (h : '"' ∈ line) :
    (keptChars .unquotedField line).count '"' < line.count '"' := by
  induction line with
  | nil => cases h
  | cons c line ih =>
      rw [keptChars]
      by_cases hq : c = '"'
      · subst hq
        have hle := (keptChars_sublist .quotedField line).count_le '"'
        simp [structural, nextState]
        omega
      · have hm : '"' ∈ line := by simpa [Ne.symm hq] using h
        have hlt := ih hm
        by_cases hc : c = ','
        · simp [structural, nextState, hc, hlt]
        · simp [structural, nextState, dropped, hc, hq, hlt]

theorem stripLine_count {line : Str} : (stripLine line).count '"' = line.count '"' := by
  rw [stripLine, removeChar, removeChar, List.count_filter (by decide), List.count_filter (by decide)]

theorem headerColumns_count (line : Str) :
    (headerColumns line).flatten.count '"' = line.count '"' := by
  rw [headerColumns_eq, splitOn_flatten, removeChar, List.count_filter (by decide), stripLine_count]

theorem lineFields_count_lt {line : Str} (h : '"' ∈ line) :
    (lineFields (stripLine line)).flatten.count '"' < line.count '"' := by
  have hm : '"' ∈ stripLine line := by
    rw [← List.count_pos_iff, stripLine_count]
    exact List.count_pos_iff.mpr h
  rw [lineFields, fieldsFrom_flatten, List.nil_append, ← @stripLine_count line]
  exact keptChars_count_lt hm

theorem SameGrammar.no_quote {line : Str} (h : SameGrammar line) (hn : '\n' ∉ line) :
    '"' ∉ line := by
  intro hq
  have hcols : (CSVRow.empty.setColumns (lineFields (stripLine line))).columns =
    lineFields (stripLine line) := rfl
  have hsome : ((CSVRow.empty.setColumns (lineFields (stripLine line))).parse
      (stripLine line)).isSome := by
    rw [parse_isSome, hcols]
  obtain ⟨row', hp⟩ := Option.isSome_iff_exists.mp hsome
  obtain ⟨stream', hnext⟩ := next_standsAt hn (.inl rfl)
    (CSVRow.empty.setColumns (lineFields (stripLine line)))
  rw [hp] at hnext
  have he := h .empty _ _ _ _ _ (.inl rfl) (.inl rfl) hnext
  rw [setColumns_standsAt hn (.inl rfl), parse_fields hp] at he
  have hlt := lineFields_count_lt hq
  rw [← he, headerColumns_count] at hlt
  exact Nat.lt_irrefl _ hlt

/-- The names in the header are the fields of the same line exactly when it has
no quote, which set_columns takes for any other character. -/
theorem sameGrammar_iff {line : Str} (hn : '\n' ∉ line) : SameGrammar line ↔ '"' ∉ line := by
  constructor
  · intro h
    exact h.no_quote hn
  · intro hq row row' row'' header stream stream' hheader hs hnext
    obtain ⟨stream'', hnext'⟩ := next_standsAt hn hs row'
    rw [hnext'] at hnext
    obtain ⟨parsed, hp, he⟩ := Option.map_eq_some_iff.mp hnext
    cases he
    have hq' : '"' ∉ stripLine line := by
      rw [← List.count_pos_iff, stripLine_count, List.count_pos_iff]
      exact hq
    obtain ⟨f, fs, hf⟩ := List.exists_cons_of_ne_nil (List.splitOn_ne_nil ',' (stripLine line))
    rw [setColumns_standsAt hn hheader, parse_fields hp, headerColumns_eq,
      lineFields, fieldsFrom_plain hq', hf]
    rfl

theorem sameGrammar_plain : SameGrammar "a,b,\r".toList :=
  (sameGrammar_iff (by decide)).mpr (by decide)

theorem quoted_header :
    ¬SameGrammar "\"a\",b".toList ∧ headerColumns "\"a\",b".toList = ["\"a\"".toList, ['b']] ∧
      lineFields "\"a\",b".toList = [['a'], ['b']] :=
  ⟨fun h => h.no_quote (by decide) (by decide), by decide, by decide⟩

end Flycatcher.CsvGrammar
