import Mathlib.Data.List.Basic
import Mathlib.Data.List.TakeWhile

namespace Library.TextStreams

abbrev Str := List Char

def removeChar (c : Char) (s : Str) : Str := s.filter (· != c)

theorem all_bne_of_not_mem {c : Char} {s : Str} (h : c ∉ s) : ∀ a ∈ s, (a != c) = true := by
  intro a ha
  simp only [bne_iff_ne]
  rintro rfl
  exact h ha

theorem removeChar_of_not_mem {c : Char} {s : Str} (h : c ∉ s) : removeChar c s = s :=
  List.filter_eq_self.mpr (all_bne_of_not_mem h)

theorem removeChar_append (c : Char) (s t : Str) :
    removeChar c (s ++ t) = removeChar c s ++ removeChar c t := List.filter_append s t

/-- What is left to read of an input stream, with the two state bits that
end-of-file handling depends on. -/
structure IStream where
  rest : Str
  eofbit : Bool
  failbit : Bool
deriving DecidableEq

def IStream.ofText (text : Str) : IStream := ⟨text, false, false⟩

def IStream.good (s : IStream) : Bool := !s.eofbit && !s.failbit

def IStream.fail (s : IStream) : Bool := s.failbit

/-- std::getline. A stream that is not good is only marked as failed, and the
string keeps what it held. Reaching the end sets eofbit, and failbit as well
when nothing was extracted, the delimiter counting as extracted. -/
def getline (s : IStream) (str : Str) (delim : Char) : Str × IStream :=
  if s.good then
    match s.rest.dropWhile (· != delim) with
    | [] => (s.rest, ⟨[], true, s.rest.isEmpty⟩)
    | _ :: rest => (s.rest.takeWhile (· != delim), ⟨rest, false, false⟩)
  else (str, { s with failbit := true })

theorem getline_not_good {s : IStream} (h : s.good = false) (str : Str) (delim : Char) :
    getline s str delim = (str, { s with failbit := true }) := by
  simp [getline, h]

theorem getline_line {delim : Char} {line : Str} (h : delim ∉ line) (rest str : Str) :
    getline (.ofText (line ++ delim :: rest)) str delim = (line, .ofText rest) := by
  have hne := all_bne_of_not_mem h
  simp [getline, IStream.ofText, IStream.good, List.dropWhile_append_of_pos hne,
    List.takeWhile_append_of_pos hne]

theorem getline_last {delim : Char} {line : Str} (h : delim ∉ line) (str : Str) :
    getline (.ofText line) str delim = (line, ⟨[], true, line.isEmpty⟩) := by
  have hne := all_bne_of_not_mem h
  have hd : line.dropWhile (· != delim) = [] := List.dropWhile_eq_nil_iff.mpr hne
  simp [getline, IStream.ofText, IStream.good, hd]

theorem getline_cases (text : Str) (delim : Char) :
    (delim ∉ text ∧ ∀ str, getline (.ofText text) str delim = (text, ⟨[], true, text.isEmpty⟩)) ∨
      ∃ line rest, delim ∉ line ∧ text = line ++ delim :: rest ∧
        ∀ str, getline (.ofText text) str delim = (line, .ofText rest) := by
  by_cases h : delim ∈ text
  · obtain ⟨line, rest, rfl, hl⟩ := List.eq_append_cons_of_mem h
    exact .inr ⟨line, rest, hl, rfl, getline_line hl rest⟩
  · exact .inl ⟨h, getline_last h⟩

end Library.TextStreams
