import Mathlib.Algebra.Ring.Nat
import Mathlib.Data.List.Basic

namespace Library.Bytes

def byte (word : BitVec 32) (k : Nat) : BitVec 8 := word.extractLsb' (8 * k) 8

/-- Host to network order, on a little-endian host. -/
def htonl (word : BitVec 32) : BitVec 32 := byte word 0 ++ byte word 1 ++ byte word 2 ++ byte word 3

def memory (word : BitVec 32) : List UInt8 :=
  [byte word 0, byte word 1, byte word 2, byte word 3].map .ofBitVec

def bigEndian (word : BitVec 32) : List UInt8 :=
  [3, 2, 1, 0].map fun k => .ofNat (word.toNat / 256 ^ k)

def readBigEndian : List UInt8 → Option (BitVec 32 × List UInt8)
  | b₃ :: b₂ :: b₁ :: b₀ :: rest =>
      some (.ofNat 32 (((b₃.toNat * 256 + b₂.toNat) * 256 + b₁.toNat) * 256 + b₀.toNat), rest)
  | _ => none

def readWord : List UInt8 → Option (BitVec 32)
  | b₀ :: b₁ :: b₂ :: b₃ :: _ => some (b₃.toBitVec ++ b₂.toBitVec ++ b₁.toBitVec ++ b₀.toBitVec)
  | _ => none

def cString : List UInt8 → Option (List UInt8)
  | [] => none
  | b :: bytes => if b = 0 then some [] else (cString bytes).map (b :: ·)

def overwrite (bytes : List UInt8) (pos : Nat) (written : List UInt8) : List UInt8 :=
  bytes.take pos ++ written ++ bytes.drop (pos + written.length)

theorem byte_htonl (word : BitVec 32) {k : Nat} (hk : k < 4) :
    byte (htonl word) k = byte word (3 - k) := by
  ext i hi
  simp only [htonl, byte, BitVec.getElem_extractLsb', BitVec.getLsbD_append,
    BitVec.getLsbD_extractLsb']
  obtain rfl | rfl | rfl | rfl : k = 0 ∨ k = 1 ∨ k = 2 ∨ k = 3 := by omega
  all_goals grind

theorem ofBitVec_byte (word : BitVec 32) (k : Nat) :
    UInt8.ofBitVec (byte word k) = UInt8.ofNat (word.toNat / 256 ^ k) := by
  have hpow : 2 ^ (8 * k) = 256 ^ k := by rw [Nat.pow_mul]
  apply UInt8.toBitVec_inj.mp
  apply BitVec.eq_of_toNat_eq
  simp [byte, BitVec.extractLsb'_toNat, Nat.shiftRight_eq_div_pow, hpow]

theorem memory_htonl (word : BitVec 32) : memory (htonl word) = bigEndian word := by
  rw [memory, bigEndian, byte_htonl word (by omega), byte_htonl word (by omega),
    byte_htonl word (by omega), byte_htonl word (by omega)]
  simp only [List.map_cons, List.map_nil, ofBitVec_byte]

theorem bigEndian_injective {word word' : BitVec 32} (h : bigEndian word = bigEndian word') :
    word = word' := by
  have hbytes := congrArg (List.map UInt8.toNat) h
  simp only [bigEndian, List.map_cons, List.map_nil, List.cons.injEq, UInt8.toNat_ofNat',
    and_true] at hbytes
  obtain ⟨h3, h2, h1, h0⟩ := hbytes
  have hlt := word.isLt
  have hlt' := word'.isLt
  apply BitVec.eq_of_toNat_eq
  omega

@[simp] theorem bigEndian_length (word : BitVec 32) : (bigEndian word).length = 4 := rfl

theorem readBigEndian_bigEndian (word : BitVec 32) (rest : List UInt8) :
    readBigEndian (bigEndian word ++ rest) = some (word, rest) := by
  have hlt := word.isLt
  simp only [bigEndian, List.map_cons, List.map_nil, List.cons_append, List.nil_append,
    readBigEndian, UInt8.toNat_ofNat', Option.some.injEq, Prod.mk.injEq, and_true]
  apply BitVec.eq_of_toNat_eq
  rw [BitVec.toNat_ofNat, Nat.mod_eq_of_lt]
  · omega
  · omega

@[simp] theorem memory_length (word : BitVec 32) : (memory word).length = 4 := rfl

theorem readWord_memory (word : BitVec 32) (rest : List UInt8) :
    readWord (memory word ++ rest) = some word := by
  simp only [memory, List.map_cons, List.map_nil, List.cons_append, List.nil_append, readWord,
    Option.some.injEq]
  ext i hi
  simp only [byte, BitVec.getElem_append, BitVec.getElem_extractLsb']
  grind

theorem cString_padded {text : List UInt8} (h : 0 ∉ text) (rest : List UInt8) :
    cString (text ++ 0 :: rest) = some text := by
  induction text with
  | nil => rfl
  | cons b text ih =>
      obtain ⟨hb, ht⟩ : 0 ≠ b ∧ 0 ∉ text := by simpa using h
      rw [List.cons_append, cString, if_neg (Ne.symm hb), ih ht]
      rfl

theorem overwrite_overwrite {bytes : List UInt8} {pos : Nat} (h : pos ≤ bytes.length)
    (xs ys : List UInt8) :
    overwrite (overwrite bytes pos xs) (pos + xs.length) ys = overwrite bytes pos (xs ++ ys) := by
  have hlen : (bytes.take pos ++ xs).length = pos + xs.length := by simp [h]
  rw [overwrite, ← hlen, overwrite, List.take_left, List.drop_length_add_append, List.drop_drop,
    overwrite, List.length_append, List.append_assoc (bytes.take pos), Nat.add_assoc]

theorem overwrite_end {bytes old written : List UInt8} (h : old.length = written.length) :
    overwrite (bytes ++ old) bytes.length written = bytes ++ written := by
  rw [overwrite, List.take_left, ← h, ← List.length_append, List.drop_length, List.append_nil]

theorem overwrite_append {bytes : List UInt8} {pos : Nat} {written : List UInt8}
    (h : pos + written.length ≤ bytes.length) (more : List UInt8) :
    overwrite (bytes ++ more) pos written = overwrite bytes pos written ++ more := by
  rw [overwrite, overwrite, List.take_append_of_le_length (by omega),
    List.drop_append_of_le_length h, List.append_assoc (_ ++ _)]

theorem overwrite_length {bytes : List UInt8} {pos : Nat} {written : List UInt8}
    (h : pos + written.length ≤ bytes.length) : (overwrite bytes pos written).length = bytes.length := by
  rw [overwrite, List.length_append, List.length_append, List.length_take, List.length_drop]
  omega

theorem overwrite_eq_self_iff {bytes : List UInt8} {pos : Nat} {written : List UInt8} :
    overwrite bytes pos written = bytes ↔ (bytes.drop pos).take written.length = written := by
  have hb : bytes = bytes.take pos ++ (bytes.drop pos).take written.length ++
      bytes.drop (pos + written.length) := by
    rw [List.append_assoc, ← List.drop_drop, List.take_append_drop, List.take_append_drop]
  conv_lhs => rw [overwrite]; rhs; rw [hb]
  rw [List.append_left_inj, List.append_right_inj, eq_comm]

end Library.Bytes
