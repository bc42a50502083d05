import Flycatcher.Library.TextStreams
import Mathlib.Data.List.Basic

namespace Flycatcher.CsvRow

open Library.TextStreams

inductive CSVState
  | unquotedField
  | quotedField
  | quotedQuote
deriving DecidableEq

abbrev StringMap := Std.TreeMap Str Str compare

structure CSVRow where
  line : Str
  fields : List Str
  columns : List Str
  mapData : StringMap

def CSVRow.empty : CSVRow := ⟨[], [], [], ∅⟩

/-- operator[] of the row, as far as its effect goes: an absent column is
created with the empty string. -/
def CSVRow.touch (row : CSVRow) (column : Str) : CSVRow :=
  { row with mapData := row.mapData.insertIfNew column [] }

def CSVRow.value (row : CSVRow) (column : Str) : Str := row.mapData.getD column []

def CSVRow.assign (row : CSVRow) (column v : Str) : CSVRow :=
  { row with mapData := row.mapData.insert column v }

def CSVRow.setColumns (row : CSVRow) (columns : List Str) : CSVRow := { row with columns }

structure Scan where
  state : CSVState
  fields : List Str
  i : Nat
  mapData : StringMap

/-- m_map_data[m_columns[i]] = m_fields[i]. There is no value when i is out of
range of one of the two vectors. -/
def storeField (columns : List Str) (s : Scan) : Option StringMap := do
  let column ← columns[s.i]?
  let field ← s.fields[s.i]?
  return s.mapData.insert column field

def endField (columns : List Str) (s : Scan) : Option Scan := do
  let mapData ← storeField columns s
  return ⟨.unquotedField, s.fields ++ [[]], s.i + 1, mapData⟩

def pushBack (s : Scan) (c : Char) : Option Scan :=
  if s.i < s.fields.length then some { s with fields := s.fields.modify s.i (· ++ [c]) } else none

def scanChar (columns : List Str) (s : Scan) (c : Char) : Option Scan :=
  match s.state with
  | .unquotedField =>
      if c = ',' then endField columns s
      else if c = '"' then some { s with state := .quotedField }
      else pushBack s c
  | .quotedField =>
      if c = '"' then some { s with state := .quotedQuote }
      else pushBack s c
  | .quotedQuote =>
      if c = ',' then endField columns s
      else if c = '"' then pushBack { s with state := .quotedField } '"'
      else some { s with state := .unquotedField }

def scanLine (columns : List Str) (s : Scan) (line : Str) : Option (List Str × StringMap) := do
  let s ← line.foldlM (scanChar columns) s
  let mapData ← storeField columns s
  return (s.fields, mapData)

def CSVRow.parse (row : CSVRow) (line : Str) : Option CSVRow := do
  let (fields, mapData) ← scanLine row.columns ⟨.unquotedField, [[]], 0, row.mapData⟩ line
  return { row with line, fields, mapData }

def stripLine (line : Str) : Str := removeChar '\r' (removeChar '\n' line)

def CSVRow.next (row : CSVRow) (stream : IStream) : Option (CSVRow × IStream) := do
  let (line, stream) := getline stream row.line '\n'
  let row ← row.parse (stripLine line)
  return (row, stream)

@[simp] theorem touch_columns (row : CSVRow) (c : Str) : (row.touch c).columns = row.columns := rfl

@[simp] theorem assign_columns (row : CSVRow) (c v : Str) :
    (row.assign c v).columns = row.columns := rfl

@[simp] theorem setColumns_columns (row : CSVRow) (columns : List Str) :
    (row.setColumns columns).columns = columns := rfl

@[simp] theorem value_setColumns (row : CSVRow) (columns : List Str) (c : Str) :
    (row.setColumns columns).value c = row.value c := rfl

@[simp] theorem value_empty (c : Str) : CSVRow.empty.value c = [] := by
  simp [CSVRow.value, CSVRow.empty]

@[simp] theorem value_touch (row : CSVRow) (c d : Str) : (row.touch c).value d = row.value d := by
  rw [CSVRow.value, CSVRow.touch, Std.TreeMap.getD_insertIfNew]
  split
  next h =>
    obtain ⟨he, hn⟩ := h
    have hcd : c = d := Std.LawfulEqCmp.compare_eq_iff_eq.mp he
    subst hcd
    exact (Std.TreeMap.getD_eq_fallback hn).symm
  next => rfl

theorem value_assign (row : CSVRow) (c d v : Str) :
    (row.assign c v).value d = if c = d then v else row.value d := by
  rw [CSVRow.value, CSVRow.assign, Std.TreeMap.getD_insert]
  simp only [Std.LawfulEqCmp.compare_eq_iff_eq, CSVRow.value]

@[simp] theorem value_assign_self (row : CSVRow) (c v : Str) : (row.assign c v).value c = v := by
  simp [value_assign]

theorem value_assign_of_ne (row : CSVRow) {c d : Str} (h : c ≠ d) (v : Str) :
    (row.assign c v).value d = row.value d := by
  simp [value_assign, h]

def CSVRow.touchAll (row : CSVRow) (columns : List Str) : CSVRow := columns.foldl CSVRow.touch row

@[simp] theorem value_touchAll (row : CSVRow) (columns : List Str) (c : Str) :
    (row.touchAll columns).value c = row.value c := by
  induction columns generalizing row with
  | nil => rfl
  | cons column columns ih => exact (ih (row.touch column)).trans (value_touch row column c)

theorem touchAll_keeps (row : CSVRow) (columns : List Str) :
    (row.touchAll columns).line = row.line ∧ (row.touchAll columns).columns = row.columns := by
  induction columns generalizing row with
  | nil => exact ⟨rfl, rfl⟩
  | cons column columns ih => exact ih (row.touch column)

/-- What a line means, apart from any columns: the fields that the quote
machine cuts it into, cur being the field under construction. -/
def fieldsFrom : CSVState → Str → Str → List Str
  | _, cur, [] => [cur]
  | .unquotedField, cur, c :: line =>
      if c = ',' then cur :: fieldsFrom .unquotedField [] line
      else if c = '"' then fieldsFrom .quotedField cur line
      else fieldsFrom .unquotedField (cur ++ [c]) line
  | .quotedField, cur, c :: line =>
      if c = '"' then fieldsFrom .quotedQuote cur line
      else fieldsFrom .quotedField (cur ++ [c]) line
  | .quotedQuote, cur, c :: line =>
      if c = ',' then cur :: fieldsFrom .unquotedField [] line
      else if c = '"' then fieldsFrom .quotedField (cur ++ ['"']) line
      else fieldsFrom .unquotedField cur line

def lineFields (line : Str) : List Str := fieldsFrom .unquotedField [] line

def assignFields (m : StringMap) (columns fields : List Str) : StringMap :=
  (columns.zip fields).foldl (fun m p => m.insert p.1 p.2) m

theorem fieldsFrom_ne_nil (state : CSVState) (cur line : Str) : fieldsFrom state cur line ≠ [] := by
  induction line generalizing state cur with
  | nil => cases state <;> simp [fieldsFrom]
  | cons c line ih => cases state <;> simp only [fieldsFrom] <;> split_ifs <;> simp [ih]

theorem modify_last (done : List Str) (cur : Str) (f : Str → Str) :
    (done ++ [cur]).modify done.length f = done ++ [f cur] := by
  induction done with
  | nil => rfl
  | cons d done ih => simpa using ih

theorem storeField_last (columns : List Str) (state : CSVState) (done : List Str) (cur : Str)
    (m : StringMap) :
    storeField columns ⟨state, done ++ [cur], done.length, m⟩ =
      columns[done.length]?.map (fun column => m.insert column cur) := by
  cases h : columns[done.length]? <;> simp [storeField, h]

theorem pushBack_last (state : CSVState) (done : List Str) (cur : Str) (m : StringMap) (c : Char) :
    pushBack ⟨state, done ++ [cur], done.length, m⟩ c =
      some ⟨state, done ++ [cur ++ [c]], done.length, m⟩ := by
  simp [pushBack, modify_last]

theorem scanLine_cons (columns : List Str) (s : Scan) (c : Char) (line : Str) :
    scanLine columns s (c :: line) =
      (scanChar columns s c).bind (fun s => scanLine columns s line) := by
  cases h : scanChar columns s c <;> simp [scanLine, h]

def stored (columns : List Str) (done : List Str) (m : StringMap) (fs : List Str) :
    Option (List Str × StringMap) :=
  if done.length + fs.length ≤ columns.length then
    some (done ++ fs, assignFields m (columns.drop done.length) fs)
  else none

theorem stored_nil (columns done : List Str) (m : StringMap) (cur : Str) :
    stored columns done m [cur] =
      columns[done.length]?.map (fun column => (done ++ [cur], m.insert column cur)) := by
  by_cases h : done.length < columns.length
  · have hl : done.length + [cur].length ≤ columns.length := h
    simp only [stored, if_pos hl, List.drop_eq_getElem_cons h, h, getElem?_pos, Option.map_some,
      assignFields, List.zip_cons_cons, List.zip_nil_right, List.foldl_cons, List.foldl_nil]
  · have hl : ¬ done.length + [cur].length ≤ columns.length := h
    rw [stored, if_neg hl]
    simp [Nat.le_of_not_lt h]

theorem stored_cons (columns done : List Str) (m : StringMap) (cur f : Str) (fs : List Str) :
    stored columns done m (cur :: f :: fs) =
      columns[done.length]?.bind (fun column =>
        stored columns (done ++ [cur]) (m.insert column cur) (f :: fs)) := by
  by_cases h : done.length < columns.length
  · simp only [h, getElem?_pos, Option.bind_some, stored, List.length_append, List.length_cons,
      List.length_nil, List.drop_eq_getElem_cons h, List.append_assoc, List.singleton_append,
      assignFields, List.zip_cons_cons, List.foldl_cons, Nat.zero_add, Nat.add_assoc, Nat.add_comm 1]
  · have hn : ¬ done.length + (cur :: f :: fs).length ≤ columns.length := by
      simp only [List.length_cons]; omega
    rw [stored, if_neg hn]
    simp [Nat.le_of_not_lt h]

/-- The current field is always the last one, so an access is out of range
exactly when the line has more fields than there are columns. -/
theorem scanLine_eq (columns : List Str) (state : CSVState) (done : List Str) (cur : Str)
    (m : StringMap) (line : Str) :
    scanLine columns ⟨state, done ++ [cur], done.length, m⟩ line =
      stored columns done m (fieldsFrom state cur line) := by
  induction line generalizing state done cur m with
  | nil =>
      rw [scanLine, List.foldlM_nil, fieldsFrom, stored_nil]
      simp only [pure, Option.bind_eq_bind, Option.bind_some, storeField_last]
      cases columns[done.length]? <;> rfl
  | cons c line ih =>
      -- a comma ends the current field, and the store before it needs a column
      have hcomma : (endField columns ⟨state, done ++ [cur], done.length, m⟩).bind
          (fun s => scanLine columns s line) =
          stored columns done m (cur :: fieldsFrom .unquotedField [] line) := by
        obtain ⟨f, fs, hf⟩ := List.exists_cons_of_ne_nil (fieldsFrom_ne_nil .unquotedField [] line)
        rw [hf, stored_cons, endField, storeField_last]
        cases columns[done.length]? with
        | none => rfl
        | some column =>
            have h := ih .unquotedField (done ++ [cur]) [] (m.insert column cur)
            rw [hf, List.length_append] at h
            exact h
      rw [scanLine_cons]
      cases state with
      | unquotedField =>
          simp only [scanChar, fieldsFrom]
          split_ifs with h h'
          · exact hcomma
          · exact ih .quotedField done cur m
          · rw [pushBack_last]; exact ih .unquotedField done (cur ++ [c]) m
      | quotedField =>
          simp only [scanChar, fieldsFrom]
          split_ifs with h
          · exact ih .quotedQuote done cur m
          · rw [pushBack_last]; exact ih .quotedField done (cur ++ [c]) m
      | quotedQuote =>
          simp only [scanChar, fieldsFrom]
          split_ifs with h h'
          · exact hcomma
          · rw [pushBack_last]; exact ih .quotedField done (cur ++ ['"']) m
          · exact ih .unquotedField done cur m

/-- Parsing a line succeeds when its fields are no more than the columns, and
then stores the k-th field under the k-th column. -/
theorem parse_eq (row : CSVRow) (line : Str) :
    row.parse line =
      if (lineFields line).length ≤ row.columns.length then
        some { row with
          line
          fields := lineFields line
          mapData := assignFields row.mapData row.columns (lineFields line) }
      else none := by
  have h := scanLine_eq row.columns .unquotedField [] [] row.mapData line
  simp only [List.nil_append, List.length_nil] at h
  rw [CSVRow.parse, h, stored]
  simp only [List.length_nil, Nat.zero_add, List.drop_zero, List.nil_append]
  rw [lineFields]
  split_ifs <;> rfl

theorem assignFields_cons (m : StringMap) (column f : Str) (columns fields : List Str) :
    assignFields m (column :: columns) (f :: fields) =
      assignFields (m.insert column f) columns fields := rfl

theorem getD_assignFields_of_not_mem (m : StringMap) {columns fields : List Str} {c : Str}
    (h : c ∉ columns.take fields.length) : (assignFields m columns fields).getD c [] = m.getD c [] := by
  induction columns generalizing m fields with
  | nil => rfl
  | cons column columns ih =>
      cases fields with
      | nil => rfl
      | cons f fields =>
          rw [List.length_cons, List.take_succ_cons, List.mem_cons, not_or] at h
          rw [assignFields_cons, ih _ h.2, Std.TreeMap.getD_insert,
            if_neg (fun he => h.1 (Std.LawfulEqCmp.compare_eq_iff_eq.mp he).symm)]

theorem getD_assignFields_of_mem (m m' : StringMap) {columns fields : List Str} {c : Str}
    (h : c ∈ columns.take fields.length) :
    (assignFields m columns fields).getD c [] = (assignFields m' columns fields).getD c [] := by
  induction columns generalizing m m' fields with
  | nil => simp at h
  | cons column columns ih =>
      cases fields with
      | nil => simp at h
      | cons f fields =>
          rw [assignFields_cons, assignFields_cons]
          by_cases hc : c ∈ columns.take fields.length
          · exact ih _ _ hc
          · rw [List.length_cons, List.take_succ_cons, List.mem_cons] at h
            obtain rfl := h.resolve_right hc
            rw [getD_assignFields_of_not_mem _ hc, getD_assignFields_of_not_mem _ hc,
              Std.TreeMap.getD_insert_self, Std.TreeMap.getD_insert_self]

theorem getD_assignFields_mem (m : StringMap) {columns fields : List Str} {c : Str}
    (h : c ∈ columns.take fields.length) : (assignFields m columns fields).getD c [] ∈ fields := by
  induction columns generalizing m fields with
  | nil => simp at h
  | cons column columns ih =>
      cases fields with
      | nil => simp at h
      | cons f fields =>
          rw [assignFields_cons]
          by_cases hc : c ∈ columns.take fields.length
          · exact List.mem_cons_of_mem _ (ih _ hc)
          · rw [List.length_cons, List.take_succ_cons, List.mem_cons] at h
            obtain rfl := h.resolve_right hc
            rw [getD_assignFields_of_not_mem _ hc, Std.TreeMap.getD_insert_self]
            exact List.mem_cons_self

theorem map_getD_assignFields (m : StringMap) {columns fields : List Str} (hn : columns.Nodup)
    (hl : fields.length = columns.length) :
    columns.map ((assignFields m columns fields).getD · []) = fields := by
  induction columns generalizing m fields with
  | nil => exact (List.length_eq_zero_iff.mp hl).symm
  | cons column columns ih =>
      obtain ⟨hc, hn⟩ := List.nodup_cons.mp hn
      cases fields with
      | nil => simp at hl
      | cons f fields =>
          have hc' : column ∉ columns.take fields.length := fun h => hc (List.mem_of_mem_take h)
          rw [assignFields_cons, List.map_cons, getD_assignFields_of_not_mem _ hc',
            Std.TreeMap.getD_insert_self, ih _ hn (by simpa using hl)]

theorem parse_columns {row row' : CSVRow} {line : Str} (h : row.parse line = some row') :
    row'.columns = row.columns ∧ row'.line = line := by
  rw [parse_eq] at h
  split_ifs at h
  obtain rfl := Option.some.inj h
  exact ⟨rfl, rfl⟩

/-- A line with one field for each of the distinct columns determines them all. -/
theorem parse_full {row : CSVRow} {line : Str} (hn : row.columns.Nodup)
    (hl : (lineFields line).length = row.columns.length) :
    ∃ row', row.parse line = some row' ∧ row'.columns = row.columns ∧
      row.columns.map row'.value = lineFields line := by
  have hp := parse_eq row line
  rw [if_pos hl.le] at hp
  exact ⟨_, hp, rfl, map_getD_assignFields _ hn hl⟩

theorem parse_isSome (row : CSVRow) (line : Str) :
    (row.parse line).isSome ↔ (lineFields line).length ≤ row.columns.length := by
  rw [parse_eq]
  split_ifs with h <;> simp [h]

theorem parse_nil_isSome (row : CSVRow) (h : row.columns ≠ []) : (row.parse []).isSome := by
  rw [parse_isSome]
  exact List.length_pos_iff.mpr h

theorem stripLine_of_not_mem {line : Str} (hr : '\r' ∉ line) (hn : '\n' ∉ line) :
    stripLine line = line := by
  rw [stripLine, removeChar_of_not_mem hn, removeChar_of_not_mem hr]

theorem stripLine_stripLine (line : Str) : stripLine (stripLine line) = stripLine line := by
  simp only [stripLine, removeChar, List.filter_filter]
  congr 1
  funext c
  cases c != '\r' <;> cases c != '\n' <;> rfl

end Flycatcher.CsvRow
