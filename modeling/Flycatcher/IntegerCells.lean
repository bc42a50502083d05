import Flycatcher.Literals
import Flycatcher.Publish
import Mathlib.Algebra.Ring.Int.Defs
import Mathlib.Algebra.Ring.Nat
import Mathlib.Data.List.Basic
import Mathlib.Data.List.TakeWhile

namespace Flycatcher.IntegerCells

open Library.TextStreams Datums Literals Publish

structure Split (bits : Nat) (s space literal rest : Str) (n : Int) : Prop where
  parts : s = space ++ literal ++ rest
  blank : ∀ c ∈ space, isSpace c
  literal : IntegerLiteral bits literal n
  ends : ∀ c ∈ rest.head?, ¬c.isDigit

def Prefixed (bits : Nat) (s : Str) (n : Int) : Prop :=
  ∃ space literal rest, Split bits s space literal rest n

def OnlyLiterals (bits : Nat) (s : Str) : Prop :=
  ∀ space literal rest n, Split bits s space literal rest n → space = [] ∧ rest = []

theorem strtol_split {bits : Nat} {s space literal rest : Str} {n : Int}
    (h : Split bits s space literal rest n) : strtol s = some n := by
  obtain ⟨rfl, hspace, hliteral, hrest⟩ := h
  exact strtol_literal hliteral hspace hrest

theorem split_digits (s : Str) : s = s.takeWhile Char.isDigit ++ s.dropWhile Char.isDigit ∧
    (∀ c ∈ s.takeWhile Char.isDigit, c.isDigit) ∧
    ∀ c ∈ (s.dropWhile Char.isDigit).head?, ¬c.isDigit := by
  refine ⟨List.takeWhile_append_dropWhile.symm, fun c => List.mem_takeWhile_imp, ?_⟩
  intro c hc hd
  have hnot := List.head?_dropWhile_not Char.isDigit s
  rw [Option.mem_def.mp hc] at hnot
  simp [hd] at hnot

theorem prefixed_of_strtol {bits : Nat} {s : Str} {n : Int} (h : strtol s = some n)
    (hn : -2 ^ (bits - 1) ≤ n ∧ n < 2 ^ (bits - 1)) : Prefixed bits s n := by
  have hs : s = s.takeWhile isSpace ++ s.dropWhile isSpace := List.takeWhile_append_dropWhile.symm
  have hspace : ∀ c ∈ s.takeWhile isSpace, isSpace c := fun c => List.mem_takeWhile_imp
  have hparts {before digits after : Str}
      (he : s.dropWhile isSpace = before ++ (digits ++ after)) :
      s = s.takeWhile isSpace ++ (before ++ digits) ++ after := by
    rw [List.append_assoc, List.append_assoc, ← he, ← hs]
  rw [strtol] at h
  split at h
  next s' he =>
      obtain ⟨hd, hdigits, hends⟩ := split_digits s'
      cases htake : s'.takeWhile Char.isDigit with
      | nil => simp [htake] at h
      | cons c digits =>
          rw [htake] at hd hdigits
          simp only [htake] at h
          cases h
          have hrange : (decimal (c :: digits) : Int) ≤ 2 ^ (bits - 1) := by
            simp only at hn
            omega
          exact ⟨_, _, _, @hparts ['-'] (c :: digits) _ (he.trans (congrArg ('-' :: ·) hd)), hspace,
            .minus (List.cons_ne_nil c digits) hdigits hrange, hends⟩
  next s' he =>
      obtain ⟨hd, hdigits, hends⟩ := split_digits s'
      cases htake : s'.takeWhile Char.isDigit with
      | nil => simp [htake] at h
      | cons c digits =>
          rw [htake] at hd hdigits
          simp only [htake] at h
          cases h
          exact ⟨_, _, _, @hparts ['+'] (c :: digits) _ (he.trans (congrArg ('+' :: ·) hd)), hspace,
            .plus (List.cons_ne_nil c digits) hdigits hn.2, hends⟩
  next =>
      obtain ⟨hd, hdigits, hends⟩ := split_digits (s.dropWhile isSpace)
      cases htake : (s.dropWhile isSpace).takeWhile Char.isDigit with
      | nil => simp [htake] at h
      | cons c digits =>
          rw [htake] at hd hdigits
          simp only [htake] at h
          cases h
          exact ⟨_, _, _, @hparts [] (c :: digits) _ hd, hspace,
            .unsigned (List.cons_ne_nil c digits) hdigits hn.2, hends⟩

theorem parseInteger_ok_iff {name : String} {bits : Nat} {s : Str} {n : Int} :
    parseInteger name bits s = .ok n ↔ Prefixed bits s n := by
  rw [parseInteger]
  constructor
  · intro h
    split at h
    next => cases h
    next m hm =>
      split_ifs at h with hrange
      cases h
      exact prefixed_of_strtol hm hrange
  · rintro ⟨space, literal, rest, h⟩
    rw [strtol_split h]
    exact if_pos (literal_range h.literal)

theorem literal_tail_digits {bits : Nat} {s : Str} {n : Int} (h : IntegerLiteral bits s n) :
    ∀ c ∈ s.tail, c.isDigit := by
  cases h with
  | unsigned hne hdigits hrange => exact fun c hc => hdigits c (List.mem_of_mem_tail hc)
  | plus hne hdigits hrange | minus hne hdigits hrange => exact hdigits

theorem literal_ne_nil {bits : Nat} {s : Str} {n : Int} (h : IntegerLiteral bits s n) : s ≠ [] := by
  cases h with
  | unsigned hne hdigits hrange => exact hne
  | plus hne hdigits hrange | minus hne hdigits hrange => exact List.cons_ne_nil _ _

theorem split_literal {bits : Nat} {s space literal rest : Str} {n m : Int}
    (hs : IntegerLiteral bits s m) (h : Split bits s space literal rest n) :
    space = [] ∧ rest = [] := by
  have hspace : space = [] := by
    cases space with
    | nil => rfl
    | cons c space =>
        have hc := literal_not_space hs [] c (by simp [h.parts])
        exact absurd (h.blank c List.mem_cons_self) hc
  refine ⟨hspace, ?_⟩
  cases rest with
  | nil => rfl
  | cons c rest =>
      obtain ⟨d, digits, hd⟩ := List.exists_cons_of_ne_nil (literal_ne_nil h.literal)
      have hc : c ∈ s.tail := by simp [h.parts, hspace, hd]
      exact absurd (literal_tail_digits hs c hc) (h.ends c rfl)

theorem parseInteger_literal_iff (name : String) (bits : Nat) (s : Str) :
    (∀ n, parseInteger name bits s = .ok n ↔ IntegerLiteral bits s n) ↔ OnlyLiterals bits s := by
  simp only [parseInteger_ok_iff]
  constructor
  · intro h space literal rest n hsplit
    exact split_literal ((h n).mp ⟨space, literal, rest, hsplit⟩) hsplit
  · intro h n
    constructor
    · rintro ⟨space, literal, rest, hsplit⟩
      obtain ⟨rfl, rfl⟩ := h space literal rest n hsplit
      have hs : s = literal := by simpa using hsplit.parts
      exact hs ▸ hsplit.literal
    · intro hs
      exact ⟨[], s, [], by simp, by simp, hs, by simp⟩

inductive IntegerType
  | int
  | long
deriving DecidableEq

def IntegerType.name : IntegerType → Str
  | .int => intType
  | .long => longType

def IntegerType.bits : IntegerType → Nat
  | .int => 32
  | .long => 64

def IntegerType.datum : IntegerType → Int → Datum
  | .int => .int
  | .long => .long

def Converted (type : IntegerType) (s : Str) : Prop :=
  ∀ datum, createDatumForType s type.name = .ok datum ↔
    ∃ n, datum = type.datum n ∧ IntegerLiteral type.bits s n

def AgeConverted (s : Str) : Prop :=
  (∀ n, IntegerLiteral 64 s n → ∀ column days now, checkAge (some (column, days)) now column s =
    if daysSince now n > days then .error .tooOld else .ok ()) ∧
  ((¬∃ n, IntegerLiteral 64 s n) → ∀ column days now,
    ∃ e, checkAge (some (column, days)) now column s = .error (.thrown (.std e)))

def IntegerType.function : IntegerType → String
  | .int => "stoi"
  | .long => "stol"

theorem createDatumForType_integer (type : IntegerType) (s : Str) :
    createDatumForType s type.name =
      (parseInteger type.function type.bits s).map type.datum := by
  cases type <;> rfl

theorem datum_inj {type : IntegerType} {n m : Int} : type.datum n = type.datum m ↔ n = m := by
  cases type <;> simp [IntegerType.datum]

theorem converted_iff (type : IntegerType) (s : Str) :
    Converted type s ↔ OnlyLiterals type.bits s := by
  have hmap (r : Except StdException Int) (datum : Datum) :
      r.map type.datum = .ok datum ↔ ∃ n, datum = type.datum n ∧ r = .ok n := by
    cases r with
    | error e => simp [Except.map]
    | ok n => simp [Except.map, eq_comm]
  rw [← parseInteger_literal_iff type.function, Converted]
  simp only [createDatumForType_integer, hmap]
  constructor
  · intro h n
    have hn := h (type.datum n)
    simpa only [datum_inj, exists_eq_left'] using hn
  · intro h datum
    simp only [h]

theorem ageConverted_iff (s : Str) : AgeConverted s ↔ OnlyLiterals 64 s := by
  rw [← parseInteger_literal_iff "stol" 64 s]
  constructor
  · rintro ⟨-, hthrows⟩ n
    refine ⟨?_, fun hn => parseInteger_literal hn "stol"⟩
    intro hok
    by_cases hex : ∃ m, IntegerLiteral 64 s m
    · obtain ⟨m, hm⟩ := hex
      have he := (parseInteger_literal hm "stol").symm.trans hok
      cases he
      exact hm
    · obtain ⟨e, he⟩ := hthrows hex [] 0 0
      rw [checkAge, if_neg (by simp), stol, hok] at he
      simp only at he
      split_ifs at he
      cases he
  · intro h
    constructor
    · intro n hn column days now
      rw [checkAge, if_neg (by simp), stol, (h n).mpr hn]
    · intro hnone column days now
      rw [checkAge, if_neg (by simp), stol]
      cases hparse : parseInteger "stol" 64 s with
      | error e => exact ⟨e, rfl⟩
      | ok n => exact absurd ⟨n, (h n).mp hparse⟩ hnone

/-- The conversions take a prefix, so that they are right for the text exactly
when no literal in it has anything before or behind it. -/
theorem integer_cells_iff (s : Str) :
    (∀ type, Converted type s ↔ OnlyLiterals type.bits s) ∧
      (AgeConverted s ↔ OnlyLiterals 64 s) :=
  ⟨fun type => converted_iff type s, ageConverted_iff s⟩

def sampleTimestamp : Str := "2023-07-27 06:15:10".toList

/-- A timestamp of the sample data is the year 2023 in seconds. -/
theorem sample_timestamp_converted :
    createDatumForType sampleTimestamp longType = .ok (.long 2023) ∧
      stol sampleTimestamp = .ok 2023 ∧ ¬Converted .long sampleTimestamp := by
  have hok : createDatumForType sampleTimestamp longType = .ok (.long 2023) := rfl
  refine ⟨hok, by decide, ?_⟩
  intro h
  obtain ⟨n, -, hn⟩ := (h (.long 2023)).mp hok
  exact absurd (literal_tail_digits hn '-' (by decide)) (by decide)

/-- Zero when there is no number, and the closest bound when it is out of
range. -/
def strtoll (s : Str) : Int :=
  match strtol s with
  | none => 0
  | some n => if n < -2 ^ 63 then -2 ^ 63 else if 2 ^ 63 ≤ n then 2 ^ 63 - 1 else n

/-- The branch that is compiled on macOS. -/
def createDatumForTypeApple (value type : Str) : Except StdException Datum :=
  if type = stringType then .ok (.string value)
  else if type = floatType then (stof value).map .float
  else if type = doubleType then (stod value).map .double
  else if type = intType then (stoi value).map .int
  else if type = longType then .ok (.long (strtoll value))
  else .error (.logicError "Unknown datum type")

inductive SameOutcome (linux apple : Except StdException Datum) : Prop
  | datum (n : Int) (hlinux : linux = .ok (.long n)) (happle : apple = .ok (.long n))
  | error (e e' : StdException) (hlinux : linux = .error e) (happle : apple = .error e')

theorem createDatumForTypeApple_long (s : Str) :
    createDatumForTypeApple s longType = .ok (.long (strtoll s)) := rfl

theorem strtoll_prefixed {s : Str} {n : Int} (h : Prefixed 64 s n) : strtoll s = n := by
  obtain ⟨space, literal, rest, hsplit⟩ := h
  obtain ⟨hlow, hhigh⟩ := literal_range hsplit.literal
  rw [strtoll, strtol_split hsplit]
  simp only
  rw [if_neg (Int.not_lt.mpr hlow), if_neg (Int.not_le.mpr hhigh)]

/-- strtoll gives a number for everything, and stol for what has a long behind
the white space. -/
theorem platforms_agree_iff (s : Str) :
    SameOutcome (createDatumForType s longType)
        (createDatumForTypeApple s longType) ↔
      ∃ n, Prefixed 64 s n := by
  have hlinux : createDatumForType s longType = (parseInteger "stol" 64 s).map .long := rfl
  rw [hlinux, createDatumForTypeApple_long]
  constructor
  · intro h
    cases h with
    | datum n hok _ =>
        cases hparse : parseInteger "stol" 64 s with
        | error e =>
            rw [hparse] at hok
            cases hok
        | ok m => exact ⟨m, parseInteger_ok_iff.mp hparse⟩
    | error e e' _ happle => cases happle
  · rintro ⟨n, hn⟩
    have hok : parseInteger "stol" 64 s = .ok n := parseInteger_ok_iff.mpr hn
    rw [hok, strtoll_prefixed hn]
    exact .datum n rfl rfl

/-- An empty cell is a zero on macOS and throws on Linux. -/
theorem empty_cell_differs :
    createDatumForType [] longType = .error (.invalidArgument "stol") ∧
      createDatumForTypeApple [] longType = .ok (.long 0) ∧
      ¬SameOutcome (createDatumForType [] longType)
        (createDatumForTypeApple [] longType) := by
  refine ⟨rfl, rfl, ?_⟩
  intro h
  cases h with
  | datum n hlinux => cases hlinux
  | error e e' _ happle => cases happle

end Flycatcher.IntegerCells
