import Flycatcher.Library.Floats
import Flycatcher.Library.TextStreams
import Mathlib.Algebra.Ring.Int.Defs
import Mathlib.Data.List.Basic

namespace Flycatcher.Datums

open Library.TextStreams Library.Floats

inductive StdException
  | invalidArgument (what : String)
  | outOfRange (what : String)
  | logicError (what : String)
deriving DecidableEq

def isSpace (c : Char) : Bool := c = ' ' || (9 ≤ c.toNat && c.toNat ≤ 13)

def decimal (digits : Str) : Nat := digits.foldl (fun n c => 10 * n + (c.toNat - '0'.toNat)) 0

/-- strtol with base 10, before the result is brought into range. There is no
number when no digit follows the white space and the sign. -/
def strtol (s : Str) : Option Int :=
  let unsigned (s : Str) : Option Nat :=
    match s.takeWhile Char.isDigit with
    | [] => none
    | digits => some (decimal digits)
  match s.dropWhile isSpace with
  | '-' :: s => (unsigned s).map fun n => -(n : Int)
  | '+' :: s => (unsigned s).map fun n => (n : Int)
  | s => (unsigned s).map fun n => (n : Int)

/-- std::stoi and std::stol differ in their name and the bits of their result. -/
def parseInteger (name : String) (bits : Nat) (s : Str) : Except StdException Int :=
  match strtol s with
  | none => .error (.invalidArgument name)
  | some n => if -2 ^ (bits - 1) ≤ n ∧ n < 2 ^ (bits - 1) then .ok n else .error (.outOfRange name)

def stoi : Str → Except StdException Int := parseInteger "stoi" 32

def stol : Str → Except StdException Int := parseInteger "stol" 64

/-- How a number is written: its digits, what they are worth, the mark of the exponent,
and what the exponent is one of. -/
structure Numerals where
  isDigit : Char → Bool
  base : Nat
  value : Str → Nat
  mark : Char
  power : ℚ

def decimalNumerals : Numerals := ⟨Char.isDigit, 10, decimal, 'e', 10⟩

def hexDigit (c : Char) : Nat :=
  if c.isDigit then c.toNat - '0'.toNat else c.toLower.toNat - 'a'.toNat + 10

def hexNumerals : Numerals where
  isDigit c := c.isDigit || ('a'.toNat ≤ c.toLower.toNat && c.toLower.toNat ≤ 'f'.toNat)
  base := 16
  value digits := digits.foldl (fun n c => 16 * n + hexDigit c) 0
  mark := 'p'
  power := 2

def Numerals.exponent (n : Numerals) : Str → Int
  | [] => 0
  | c :: s =>
      if c.toLower = n.mark then
        match s with
        | '-' :: s => -decimal (s.takeWhile Char.isDigit)
        | '+' :: s => decimal (s.takeWhile Char.isDigit)
        | s => decimal (s.takeWhile Char.isDigit)
      else 0

def Numerals.fraction (n : Numerals) : Str → Str × Str
  | '.' :: s => (s.takeWhile n.isDigit, s.dropWhile n.isDigit)
  | s => ([], s)

def Numerals.read (n : Numerals) (s : Str) : Option ℚ :=
  let whole := s.takeWhile n.isDigit
  let (fraction, s) := n.fraction (s.dropWhile n.isDigit)
  if whole ++ fraction = [] then none
  else some (n.value (whole ++ fraction) / n.base ^ fraction.length * n.power ^ n.exponent s)

def startsWith (word s : Str) : Bool := (s.take word.length).map Char.toLower = word

def unsignedFloat (negative : Bool) (s : Str) : Option Value :=
  if startsWith ['i', 'n', 'f'] s then some (.infinity negative)
  else if startsWith ['n', 'a', 'n'] s then some (.notANumber negative)
  else
    let hex := if startsWith ['0', 'x'] s then hexNumerals.read (s.drop 2) else none
    (hex.or (decimalNumerals.read s)).map (.finite negative)

/-- What strtof and strtod find, before they round it. There is no number when none
follows the white space and the sign. -/
def floatText (s : Str) : Option Value :=
  match s.dropWhile isSpace with
  | '-' :: s => unsignedFloat true s
  | '+' :: s => unsignedFloat false s
  | s => unsignedFloat false s

/-- std::stof and std::stod differ in their name and the format of their result. glibc
reports a number out of range when it overflows, and when it underflows. -/
def parseFloat (name : String) (f : Format) (s : Str) : Except StdException Value :=
  match floatText s with
  | none => .error (.invalidArgument name)
  | some (.finite negative x) =>
      if f.Overflows x ∨ f.Underflows x then .error (.outOfRange name)
      else .ok (.finite negative (f.nearest x))
  | some value => .ok value

def stof : Str → Except StdException Value := parseFloat "stof" binary32

def stod : Str → Except StdException Value := parseFloat "stod" binary64

inductive Datum
  | string (value : Str)
  | float (value : Value)
  | double (value : Value)
  | int (value : Int)
  | long (value : Int)
deriving DecidableEq

def stringType : Str := ['s', 't', 'r', 'i', 'n', 'g']

def floatType : Str := ['f', 'l', 'o', 'a', 't']

def doubleType : Str := ['d', 'o', 'u', 'b', 'l', 'e']

def intType : Str := ['i', 'n', 't']

def longType : Str := ['l', 'o', 'n', 'g']

def createDatumForType (value type : Str) : Except StdException Datum :=
  if type = stringType then .ok (.string value)
  else if type = floatType then (stof value).map .float
  else if type = doubleType then (stod value).map .double
  else if type = intType then (stoi value).map .int
  else if type = longType then (stol value).map .long
  else .error (.logicError "Unknown datum type")

inductive AvroType
  | string
  | float
  | double
  | int
  | long
deriving DecidableEq

def avroTypeFor (type : Str) : AvroType :=
  if type = floatType then .float
  else if type = doubleType then .double
  else if type = intType then .int
  else if type = longType then .long
  else .string

def Datum.avroType : Datum → AvroType
  | .string _ => .string
  | .float _ => .float
  | .double _ => .double
  | .int _ => .int
  | .long _ => .long

def AvroType.default : AvroType → Datum
  | .string => .string []
  | .float => .float (.finite false 0)
  | .double => .double (.finite false 0)
  | .int => .int 0
  | .long => .long 0

@[simp] theorem default_avroType (t : AvroType) : t.default.avroType = t := by
  cases t <;> rfl

/-- A conversion that succeeds gives a datum of the type that the schema has
for the field. -/
theorem createDatumForType_avroType {value type : Str} {datum : Datum}
    (h : createDatumForType value type = .ok datum) :
    datum.avroType = avroTypeFor type := by
  have hmap {α : Type} {f : α → Datum} {t : AvroType} (hf : ∀ a, (f a).avroType = t)
      {r : Except StdException α} (hr : r.map f = .ok datum) : datum.avroType = t := by
    cases r with
    | error e => cases hr
    | ok a =>
        have he : f a = datum := Except.ok.inj hr
        rw [← he, hf]
  rw [createDatumForType] at h
  rw [avroTypeFor]
  split_ifs at h with hs hf hd hi hl
  · subst hs
    cases h
    rfl
  · rw [if_pos hf]
    exact hmap (fun _ => rfl) h
  · rw [if_neg hf, if_pos hd]
    exact hmap (fun _ => rfl) h
  · rw [if_neg hf, if_neg hd, if_pos hi]
    exact hmap (fun _ => rfl) h
  · rw [if_neg hf, if_neg hd, if_neg hi, if_pos hl]
    exact hmap (fun _ => rfl) h

end Flycatcher.Datums
