import Mathlib.Algebra.Order.Field.Basic
import Mathlib.Algebra.Ring.Parity
import Mathlib.Data.Int.Log
import Mathlib.Data.Rat.Floor

namespace Library.Floats

structure Format where
  precision : Nat
  minExponent : Int
  maxExponent : Int
  precision_pos : 0 < precision

def binary32 : Format := ⟨24, -126, 127, by decide⟩

def binary64 : Format := ⟨53, -1022, 1023, by decide⟩

inductive Value
  | finite (negative : Bool) (magnitude : ℚ)
  | infinity (negative : Bool)
  | notANumber (negative : Bool)
deriving DecidableEq

def nearestEven (x : ℚ) : ℤ :=
  if Int.fract x < 1 / 2 ∨ Int.fract x = 1 / 2 ∧ Even ⌊x⌋ then ⌊x⌋ else ⌊x⌋ + 1

def exponent (x : ℚ) : ℤ := Int.log 2 |x|

section Rounding

variable (f : Format)

def Format.spacing (e : ℤ) : ℚ := 2 ^ (e + 1 - f.precision)

def Format.roundAt (e : ℤ) (x : ℚ) : ℚ := nearestEven (x / f.spacing e) * f.spacing e

/-- Rounding as if the exponent had no bounds. -/
def Format.unbounded (x : ℚ) : ℚ := f.roundAt (exponent x) x

/-- Rounding where the numbers below the normal ones are as far apart as the
smallest of these. -/
def Format.nearest (x : ℚ) : ℚ := f.roundAt (max f.minExponent (exponent x)) x

def Format.largest : ℚ := (2 ^ f.precision - 1) * f.spacing f.maxExponent

def Format.Overflows (x : ℚ) : Prop := f.largest < |f.unbounded x|

/-- The result is tiny after rounding, and is not exact. -/
def Format.Underflows (x : ℚ) : Prop := |f.unbounded x| < 2 ^ f.minExponent ∧ f.nearest x ≠ x

instance (x : ℚ) : Decidable (f.Overflows x) := inferInstanceAs (Decidable (_ < _))

instance (x : ℚ) : Decidable (f.Underflows x) := inferInstanceAs (Decidable (_ ∧ _))

end Rounding

variable {f : Format} {x : ℚ} {e : ℤ} {n : ℕ}

theorem floor_le_nearestEven (x : ℚ) : ⌊x⌋ ≤ nearestEven x := by
  rw [nearestEven]
  split_ifs
  · exact le_rfl
  · exact (lt_add_one _).le

theorem nearestEven_le_ceil (x : ℚ) : nearestEven x ≤ ⌈x⌉ := by
  rw [nearestEven]
  split_ifs with h
  · exact Int.floor_le_ceil x
  · rw [Int.add_one_le_iff, Int.lt_ceil, ← sub_pos, ← Int.fract]
    apply lt_of_le_of_ne (Int.fract_nonneg x)
    intro hzero
    rw [← hzero] at h
    exact h (.inl one_half_pos)

theorem abs_nearestEven_le (h : |x| ≤ n) : |nearestEven x| ≤ n := by
  obtain ⟨hlow, hhigh⟩ := abs_le.mp h
  rw [abs_le]
  constructor
  · apply le_trans _ (floor_le_nearestEven x)
    rw [Int.le_floor]
    exact_mod_cast hlow
  · apply (nearestEven_le_ceil x).trans
    rw [Int.ceil_le]
    exact_mod_cast hhigh

theorem le_abs_nearestEven (h : (n : ℚ) ≤ |x|) : n ≤ |nearestEven x| := by
  rw [le_abs]
  rcases le_abs.mp h with h | h
  · left
    apply le_trans _ (floor_le_nearestEven x)
    rw [Int.le_floor]
    exact_mod_cast h
  · right
    rw [le_neg]
    apply (nearestEven_le_ceil x).trans
    rw [Int.ceil_le]
    push_cast
    exact le_neg.mp h

theorem spacing_pos (f : Format) (e : ℤ) : 0 < f.spacing e := zpow_pos two_pos _

/-- A multiple of the spacing is not passed by what is rounded. -/
theorem abs_roundAt_le (h : |x| ≤ n * f.spacing e) : |f.roundAt e x| ≤ n * f.spacing e := by
  have hpos := spacing_pos f e
  rw [Format.roundAt, abs_mul, abs_of_pos hpos]
  apply mul_le_mul_of_nonneg_right _ hpos.le
  have hquotient : |x / f.spacing e| ≤ n := by
    rwa [abs_div, abs_of_pos hpos, div_le_iff₀ hpos]
  exact_mod_cast abs_nearestEven_le hquotient

theorem le_abs_roundAt (h : n * f.spacing e ≤ |x|) : n * f.spacing e ≤ |f.roundAt e x| := by
  have hpos := spacing_pos f e
  rw [Format.roundAt, abs_mul, abs_of_pos hpos]
  apply mul_le_mul_of_nonneg_right _ hpos.le
  have hquotient : (n : ℚ) ≤ |x / f.spacing e| := by
    rwa [abs_div, abs_of_pos hpos, le_div_iff₀ hpos]
  exact_mod_cast le_abs_nearestEven hquotient

theorem spacing_eq (f : Format) (h : e ≤ f.maxExponent) :
    f.spacing f.maxExponent = (2 ^ (f.maxExponent - e).toNat : ℕ) * f.spacing e := by
  obtain ⟨k, hk⟩ := Int.eq_ofNat_of_zero_le (sub_nonneg.mpr h)
  rw [Format.spacing, Format.spacing, hk, Int.toNat_natCast, Nat.cast_pow, Nat.cast_ofNat,
    ← zpow_natCast, ← zpow_add₀ two_ne_zero]
  congr 1
  omega

theorem largest_lt (f : Format) : f.largest < 2 ^ (f.maxExponent + 1) := by
  have hpower : (2 : ℚ) ^ (f.maxExponent + 1) = 2 ^ f.precision * f.spacing f.maxExponent := by
    rw [Format.spacing, ← zpow_natCast, ← zpow_add₀ two_ne_zero]
    congr 1
    omega
  rw [Format.largest, hpower]
  exact mul_lt_mul_of_pos_right (sub_one_lt _) (spacing_pos f _)

theorem roundAt_zero (f : Format) (e : ℤ) : f.roundAt e 0 = 0 := by
  have hzero : nearestEven 0 = 0 := by simp [nearestEven]
  rw [Format.roundAt, zero_div, hzero, Int.cast_zero, zero_mul]

theorem not_overflows (h : |x| ≤ f.largest) : ¬f.Overflows x := by
  rw [Format.Overflows, not_lt, Format.unbounded]
  by_cases hx : x = 0
  · subst hx
    rwa [roundAt_zero]
  · have hexponent : exponent x ≤ f.maxExponent := by
      rw [← Int.lt_add_one_iff, exponent,
        ← Int.lt_zpow_iff_log_lt Nat.one_lt_two (abs_pos.mpr hx)]
      exact_mod_cast h.trans_lt (largest_lt f)
    have hlargest : f.largest =
        ((2 ^ f.precision - 1) * 2 ^ (f.maxExponent - exponent x).toNat : ℕ) *
          f.spacing (exponent x) := by
      rw [Format.largest, spacing_eq f hexponent, ← mul_assoc, Nat.cast_mul,
        Nat.cast_sub Nat.one_le_two_pow]
      norm_num
    rw [hlargest] at h ⊢
    exact abs_roundAt_le h

theorem not_underflows (h : 2 ^ f.minExponent ≤ |x|) : ¬f.Underflows x := by
  rintro ⟨htiny, -⟩
  have hpos : 0 < |x| := (zpow_pos two_pos _).trans_le h
  have hpower : (2 : ℚ) ^ exponent x = (2 ^ (f.precision - 1) : ℕ) * f.spacing (exponent x) := by
    have hprecision := f.precision_pos
    rw [Format.spacing, Nat.cast_pow, Nat.cast_ofNat, ← zpow_natCast, ← zpow_add₀ two_ne_zero]
    congr 1
    omega
  have hexponent : f.minExponent ≤ exponent x :=
    (Int.zpow_le_iff_le_log Nat.one_lt_two hpos).mp (by exact_mod_cast h)
  have hself : (2 : ℚ) ^ exponent x ≤ |x| := by
    exact_mod_cast Int.zpow_log_le_self Nat.one_lt_two hpos
  rw [hpower] at hself
  have hround := le_abs_roundAt hself
  rw [← hpower, ← Format.unbounded] at hround
  have hmin : (2 : ℚ) ^ f.minExponent ≤ 2 ^ exponent x := zpow_le_zpow_right₀ one_le_two hexponent
  exact absurd (hmin.trans hround) htiny.not_ge

end Library.Floats
