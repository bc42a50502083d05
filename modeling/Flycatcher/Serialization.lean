import Flycatcher.PublishFrames
import Mathlib.Algebra.Ring.Int.Defs
import Mathlib.Algebra.Ring.Nat
import Mathlib.Data.List.Basic

namespace Flycatcher.Serialization

open Library.TextStreams Library.Bytes Datums Publish PublishFrames

def framingSize : Nat := 5

/-- The body of serialize on the vector's bytes. The position is an int, and a
negative one is past the end of any vector, where the writes are undefined. -/
def serializeBytes (libraries : Libraries) (schema : RecordSchema) (schemaId : Int32)
    (datum : Record) (out : List UInt8) : Option Serialized :=
  match libraries.encode schema datum with
  | .error what => some ⟨-1, out, what⟩
  | .ok encoded =>
      let pos := wrap 32 out.length
      let out := out ++ List.replicate framingSize 0
      if pos < 0 then none
      else
        let out := overwrite out pos.toNat [0]
        let out := overwrite out (pos.toNat + 1) (memory (htonl schemaId.toBitVec))
        let out := out ++ encoded
        some ⟨out.length, out, []⟩

def readFrame : List UInt8 → Option (Int × List UInt8)
  | [] => none
  | magic :: payload =>
      if magic = 0 then (readBigEndian payload).map fun (id, encoded) => (id.toInt, encoded) else none

def FramesDatum (libraries : Libraries) (schema : RecordSchema) (schemaId : Int32) (datum : Record)
    (out : List UInt8) : Prop :=
  ∃ s, serializeBytes libraries schema schemaId datum out = some s ∧
    match libraries.encode schema datum with
    | .error _ => s.result = -1 ∧ s.out = out
    | .ok encoded =>
        s.out = out ++ [0] ++ bigEndian schemaId.toBitVec ++ encoded ∧ s.result = s.out.length ∧
          readFrame (s.out.drop out.length) = some (schemaId.toInt, encoded)

def header (schemaId : Int32) : List UInt8 := 0 :: bigEndian schemaId.toBitVec

theorem header_length (schemaId : Int32) : (header schemaId).length = framingSize := rfl

theorem header_eq_zero_iff {schemaId : Int32} :
    header schemaId = List.replicate framingSize 0 ↔ schemaId = 0 := by
  have hzero : header 0 = List.replicate framingSize 0 := rfl
  constructor
  · intro h
    rw [← hzero] at h
    exact Int32.toBitVec_inj.mp (bigEndian_injective (List.cons.inj h).2)
  · rintro rfl
    exact hzero

theorem readFrame_header (schemaId : Int32) (encoded : List UInt8) :
    readFrame (header schemaId ++ encoded) = some (schemaId.toInt, encoded) := by
  rw [header, List.cons_append, readFrame, if_pos rfl, readBigEndian_bigEndian]
  rfl

theorem framesDatum_error {libraries : Libraries} {schema : RecordSchema} {datum : Record}
    {what : Str} (h : libraries.encode schema datum = .error what) (schemaId : Int32) (out : List UInt8) :
    FramesDatum libraries schema schemaId datum out := by
  refine ⟨⟨-1, out, what⟩, ?_, ?_⟩
  · rw [serializeBytes, h]
  · rw [h]
    exact ⟨rfl, rfl⟩

theorem wrap_length (n : Nat) :
    (n % 2 ^ 32 < 2 ^ 31 ∧ wrap 32 n = (n % 2 ^ 32 : Nat)) ∨
      (2 ^ 31 ≤ n % 2 ^ 32 ∧ wrap 32 n < 0) := by
  rw [wrap, Int.bmod_def]
  split_ifs <;> omega

theorem serializeBytes_ok {libraries : Libraries} {schema : RecordSchema} {datum : Record}
    {encoded : List UInt8} (h : libraries.encode schema datum = .ok encoded) (schemaId : Int32)
    {out : List UInt8} {pos : Nat} (hpos : wrap 32 out.length = pos) (hle : pos ≤ out.length) :
    serializeBytes libraries schema schemaId datum out =
      let bytes := overwrite (out ++ List.replicate framingSize 0) pos (header schemaId) ++ encoded
      some ⟨bytes.length, bytes, []⟩ := by
  have hle' : pos ≤ (out ++ List.replicate framingSize 0).length := by
    rw [List.length_append]
    omega
  have hheader := overwrite_overwrite hle' [0] (bigEndian schemaId.toBitVec)
  rw [List.length_singleton] at hheader
  rw [serializeBytes, h]
  simp only [hpos, Int.toNat_natCast, memory_htonl, hheader]
  rw [if_neg (by omega)]
  rfl

/-- The bytes of a position that an int holds are those of the frame, at the
end of the vector. -/
theorem serializeBytes_eq (libraries : Libraries) (schema : RecordSchema) (schemaId : Int32)
    (datum : Record) {out : List UInt8} (hout : out.length < 2 ^ 31) :
    serializeBytes libraries schema schemaId datum out =
      some (serialize libraries schema schemaId datum out) := by
  cases hencode : libraries.encode schema datum with
  | error what => rw [serializeBytes, serialize, hencode]
  | ok encoded =>
      have hpos : wrap 32 out.length = out.length := by
        rcases wrap_length out.length with ⟨-, hw⟩ | ⟨hw, -⟩ <;> omega
      rw [serializeBytes_ok hencode schemaId hpos (Nat.le_refl _), overwrite_end (by rfl), serialize,
        hencode, header]
      simp [memory_htonl]

theorem serializeBytes_undefined {libraries : Libraries} {schema : RecordSchema} {datum : Record}
    {encoded : List UInt8} (h : libraries.encode schema datum = .ok encoded) (schemaId : Int32)
    {out : List UInt8} (hpos : wrap 32 out.length < 0) :
    serializeBytes libraries schema schemaId datum out = none := by
  rw [serializeBytes, h]
  simp only [if_pos hpos]

theorem serializeBytes_result {libraries : Libraries} {schema : RecordSchema} {datum : Record}
    {encoded : List UInt8} (h : libraries.encode schema datum = .ok encoded) {schemaId : Int32}
    {out : List UInt8} {s : Serialized}
    (hs : serializeBytes libraries schema schemaId datum out = some s) :
    s.result = s.out.length := by
  rw [serializeBytes, h] at hs
  simp only at hs
  split_ifs at hs
  cases hs
  rfl

theorem framesDatum_ok_iff {libraries : Libraries} {schema : RecordSchema} {datum : Record}
    {encoded : List UInt8} (h : libraries.encode schema datum = .ok encoded) (schemaId : Int32)
    (out : List UInt8) :
    FramesDatum libraries schema schemaId datum out ↔
      ∃ s, serializeBytes libraries schema schemaId datum out = some s ∧
        s.out = out ++ header schemaId ++ encoded := by
  have hframe : out ++ [0] ++ bigEndian schemaId.toBitVec ++ encoded =
      out ++ header schemaId ++ encoded := by
    simp [header]
  rw [FramesDatum]
  simp only [h, hframe]
  constructor
  · rintro ⟨s, hs, hout, -⟩
    exact ⟨s, hs, hout⟩
  · rintro ⟨s, hs, hout⟩
    refine ⟨s, hs, hout, serializeBytes_result h hs, ?_⟩
    rw [hout, List.append_assoc, List.drop_left, readFrame_header]

/-- Where the position has wrapped, the header goes over older bytes. -/
theorem wrapped_header_iff {out encoded : List UInt8} {pos : Nat}
    (hpos : pos + framingSize ≤ out.length) (schemaId : Int32) :
    overwrite (out ++ List.replicate framingSize 0) pos (header schemaId) ++ encoded =
        out ++ header schemaId ++ encoded ↔
      schemaId = 0 ∧ (out.drop pos).take framingSize = List.replicate framingSize 0 := by
  have hpos' : pos + (header schemaId).length ≤ out.length := by rwa [header_length]
  rw [List.append_left_inj, overwrite_append hpos', ← header_eq_zero_iff]
  constructor
  · intro h
    obtain ⟨hsame, hzero⟩ := List.append_inj h (overwrite_length hpos')
    rw [overwrite_eq_self_iff, ← hzero] at hsame
    exact ⟨hzero.symm, hsame⟩
  · rintro ⟨hzero, hsame⟩
    have hself : overwrite out pos (header schemaId) = out := by
      rw [overwrite_eq_self_iff, hzero]
      exact hsame
    rw [hself, hzero]

/-- In a vector of less than 2 GiB the frame goes where it belongs. In a longer
one the position is wrapped, and only a header of zeros that comes to lie on
zeros leaves no trace of that. -/
theorem framesDatum_iff (libraries : Libraries) (schema : RecordSchema) (schemaId : Int32)
    (datum : Record) (out : List UInt8) :
    FramesDatum libraries schema schemaId datum out ↔
      (∃ what, libraries.encode schema datum = .error what) ∨ out.length < 2 ^ 31 ∨
        (out.length % 2 ^ 32 < 2 ^ 31 ∧ schemaId = 0 ∧
          (out.drop (out.length % 2 ^ 32)).take framingSize = List.replicate framingSize 0) := by
  cases hencode : libraries.encode schema datum with
  | error what => simp [framesDatum_error hencode]
  | ok encoded =>
      rw [framesDatum_ok_iff hencode]
      simp only [reduceCtorEq, exists_false, false_or]
      rcases wrap_length out.length with ⟨hlow, hw⟩ | ⟨hlow, hw⟩
      · by_cases hout : out.length < 2 ^ 31
        · refine iff_of_true ⟨_, serializeBytes_eq libraries schema schemaId datum hout, ?_⟩
            (.inl hout)
          simp [serialize, hencode, memory_htonl, header]
        · rw [or_iff_right hout, and_iff_right hlow,
            ← @wrapped_header_iff out encoded _ (by rw [framingSize]; omega) schemaId]
          simp [serializeBytes_ok hencode schemaId hw (Nat.mod_le _ _)]
      · simp only [serializeBytes_undefined hencode schemaId hw, reduceCtorEq, false_and,
          exists_false, false_iff, not_or, not_and]
        omega

/-- The first length that an int does not hold. -/
theorem two_gib_undefined :
    serializeBytes recordingLibraries ⟨[], []⟩ 5 [] (List.replicate (2 ^ 31) 0) = none ∧
      ¬FramesDatum recordingLibraries ⟨[], []⟩ 5 [] (List.replicate (2 ^ 31) 0) := by
  have hpos : wrap 32 (List.replicate (2 ^ 31) (0 : UInt8)).length < 0 := by
    rw [List.length_replicate]
    decide
  have hnone := @serializeBytes_undefined recordingLibraries ⟨[], []⟩ [] _ rfl 5 _ hpos
  refine ⟨hnone, ?_⟩
  rintro ⟨s, hs, -⟩
  rw [hnone] at hs
  cases hs

end Flycatcher.Serialization
