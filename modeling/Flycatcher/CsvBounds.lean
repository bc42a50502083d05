import Flycatcher.CsvIterator
import Mathlib.Data.List.Basic

namespace Flycatcher.CsvBounds

open Library.TextStreams CsvRow CsvIterator

/-- How many commas of a line end a field, the quote machine being in that
state. -/
def separators : CSVState → Str → Nat
  | _, [] => 0
  | .unquotedField, c :: line =>
      if c = ',' then separators .unquotedField line + 1
      else if c = '"' then separators .quotedField line
      else separators .unquotedField line
  | .quotedField, c :: line =>
      if c = '"' then separators .quotedQuote line
      else separators .quotedField line
  | .quotedQuote, c :: line =>
      if c = ',' then separators .unquotedField line + 1
      else if c = '"' then separators .quotedField line
      else separators .unquotedField line

def InRange (header text : Str) : Prop :=
  ∀ (σ : Type) (body : σ → CSVRow → Turn σ), KeepsLine body →
    ∀ s, (forRows body (header ++ '\n' :: text) s).isSome

def countRow (n : Nat) (row : CSVRow) : Turn Nat := ⟨n + 1, row, false⟩

theorem fieldsFrom_length (state : CSVState) (cur line : Str) :
    (fieldsFrom state cur line).length = separators state line + 1 := by
  induction line generalizing state cur with
  | nil => cases state <;> rfl
  | cons c line ih =>
      cases state with
      | unquotedField | quotedQuote =>
          simp only [fieldsFrom, separators]
          split_ifs
          · rw [List.length_cons, ih]
          · exact ih _ _
          · exact ih _ _
      | quotedField =>
          simp only [fieldsFrom, separators]
          split_ifs
          · exact ih _ _
          · exact ih _ _

theorem splitOn_length (c : Char) (line : Str) : (line.splitOn c).length = line.count c + 1 := by
  induction line with
  | nil => rfl
  | cons d line ih =>
      obtain ⟨f, fs, hf⟩ := List.exists_cons_of_ne_nil (List.splitOn_ne_nil c line)
      rw [hf, List.length_cons] at ih
      rw [List.splitOn_cons_eq_if_modifyHead, hf, List.count_cons]
      by_cases hd : d = c
      · simp [hd, ih]
      · simp [hd, ih]

theorem headerColumns_length (header : Str) :
    (headerColumns header).length = header.count ',' + 1 := by
  rw [headerColumns, List.length_map, splitOn_length]

def AtLast (s : Scan) : Prop := s.i + 1 = s.fields.length

theorem scanChar_atLast {columns : List Str} {s t : Scan} {c : Char}
    (h : scanChar columns s c = some t) (hs : AtLast s) : AtLast t := by
  have hend (he : endField columns s = some t) : AtLast t := by
    obtain ⟨mapData, -, hm⟩ := Option.bind_eq_some_iff.mp he
    obtain rfl := Option.some.inj hm
    simpa [AtLast] using hs
  have hpush {s' : Scan} {d : Char} (hs' : AtLast s') (he : pushBack s' d = some t) : AtLast t := by
    rw [pushBack] at he
    obtain ⟨-, hp⟩ := Option.ite_none_right_eq_some.mp he
    obtain rfl := Option.some.inj hp
    simpa [AtLast] using hs'
  have hstate (state : CSVState) (he : some { s with state } = some t) : AtLast t := by
    obtain rfl := Option.some.inj he
    exact hs
  rw [scanChar] at h
  split at h
  · split_ifs at h
    · exact hend h
    · exact hstate _ h
    · exact hpush hs h
  · split_ifs at h
    · exact hstate _ h
    · exact hpush hs h
  · split_ifs at h
    · exact hend h
    · exact @hpush { s with state := .quotedField } _ hs h
    · exact hstate _ h

/-- Whatever the line is, no access to m_fields is out of range. -/
theorem scan_atLast {columns : List Str} {s t : Scan} {line : Str}
    (h : line.foldlM (scanChar columns) s = some t) (hs : AtLast s) : AtLast t := by
  induction line generalizing s with
  | nil =>
      obtain rfl := Option.some.inj h
      exact hs
  | cons c line ih =>
      rw [List.foldlM_cons] at h
      obtain ⟨u, hu, h⟩ := Option.bind_eq_some_iff.mp h
      exact ih h (scanChar_atLast hu hs)

theorem parse_in_range_iff {header : Str} {row : CSVRow} (hcols : row.columns = headerColumns header)
    (line : Str) :
    (row.parse (stripLine line)).isSome ↔
      separators .unquotedField (stripLine line) ≤ header.count ',' := by
  rw [parse_isSome, hcols, headerColumns_length, lineFields, fieldsFrom_length]
  omega

theorem feedLines_in_range {σ : Type} {body : σ → CSVRow → Turn σ} (hbody : KeepsLine body)
    {header : Str} {lines : List Str} {row : CSVRow} (hcols : row.columns = headerColumns header)
    (hlines : ∀ line ∈ lines, separators .unquotedField (stripLine line) ≤ header.count ',')
    (s : σ) : (feedLines body lines row s).isSome := by
  induction lines generalizing row s with
  | nil => rfl
  | cons line lines ih =>
      obtain ⟨hline, hlines⟩ := List.forall_mem_cons.mp hlines
      rw [← parse_in_range_iff hcols line] at hline
      obtain ⟨row', hp⟩ := Option.isSome_iff_exists.mp hline
      have hcols' : (body s row').row.columns = headerColumns header := by
        rw [(hbody s row').2, (parse_columns hp).1, hcols]
      simp only [feedLines, hp, Option.bind_eq_bind, Option.bind_some]
      split_ifs
      · rfl
      · exact ih hcols' hlines _

theorem countRow_in_range {header : Str} {lines : List Str} {row : CSVRow} {n : Nat}
    (hcols : row.columns = headerColumns header) (h : (feedLines countRow lines row n).isSome) :
    ∀ line ∈ lines, separators .unquotedField (stripLine line) ≤ header.count ',' := by
  induction lines generalizing row n with
  | nil => simp
  | cons line lines ih =>
      rw [List.forall_mem_cons, ← parse_in_range_iff hcols line]
      rw [feedLines] at h
      cases hp : row.parse (stripLine line) with
      | none =>
          rw [hp] at h
          cases h
      | some row' =>
          rw [hp] at h
          exact ⟨rfl, ih ((parse_columns hp).1.trans hcols) h⟩

/-- Reading a file stays within the two vectors exactly when no line has more
commas that end a field than the header has commas. -/
theorem forRows_in_range_iff {header : Str} (hheader : '\n' ∉ header) (text : Str) :
    InRange header text ↔
      ∀ line ∈ textLines text, separators .unquotedField (stripLine line) ≤ header.count ',' := by
  constructor
  · intro h
    have hcount := h Nat countRow (fun _ _ => ⟨rfl, rfl⟩) 0
    rw [forRows_eq (fun _ _ => ⟨rfl, rfl⟩) hheader] at hcount
    exact countRow_in_range rfl hcount
  · intro h σ body hbody s
    rw [forRows_eq hbody hheader]
    exact feedLines_in_range hbody rfl h s

theorem forRows_in_range_quoted :
    InRange ['a', ',', 'b'] ['"', ',', '"', ',', '1', '\n', '2'] ↔
      ∀ line ∈ textLines ['"', ',', '"', ',', '1', '\n', '2'],
        separators .unquotedField (stripLine line) ≤ List.count ',' ['a', ',', 'b'] :=
  forRows_in_range_iff (by decide) _

/-- A header of one column and a line with a comma. -/
theorem forRows_out_of_range : ¬InRange ['a'] ['1', ',', '2'] := by
  intro h
  have hcount := h Nat countRow (fun _ _ => ⟨rfl, rfl⟩) 0
  revert hcount
  decide

end Flycatcher.CsvBounds
