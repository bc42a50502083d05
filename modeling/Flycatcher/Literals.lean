import Flycatcher.Datums
import Mathlib.Data.List.TakeWhile

namespace Flycatcher.Literals

open Library.TextStreams Library.Floats Datums

inductive IntegerLiteral (bits : Nat) : Str → Int → Prop
  | unsigned {digits : Str} (hne : digits ≠ []) (hdigits : ∀ c ∈ digits, c.isDigit)
      (hrange : (decimal digits : Int) < 2 ^ (bits - 1)) :
      IntegerLiteral bits digits (decimal digits)
  | plus {digits : Str} (hne : digits ≠ []) (hdigits : ∀ c ∈ digits, c.isDigit)
      (hrange : (decimal digits : Int) < 2 ^ (bits - 1)) :
      IntegerLiteral bits ('+' :: digits) (decimal digits)
  | minus {digits : Str} (hne : digits ≠ []) (hdigits : ∀ c ∈ digits, c.isDigit)
      (hrange : (decimal digits : Int) ≤ 2 ^ (bits - 1)) :
      IntegerLiteral bits ('-' :: digits) (-decimal digits)

inductive Exponent : Str → Int → Prop
  | absent : Exponent [] 0
  | unsigned {mark : Char} {digits : Str} (hmark : mark = 'e' ∨ mark = 'E') (hne : digits ≠ [])
      (hdigits : ∀ c ∈ digits, c.isDigit) : Exponent (mark :: digits) (decimal digits)
  | plus {mark : Char} {digits : Str} (hmark : mark = 'e' ∨ mark = 'E') (hne : digits ≠ [])
      (hdigits : ∀ c ∈ digits, c.isDigit) : Exponent (mark :: '+' :: digits) (decimal digits)
  | minus {mark : Char} {digits : Str} (hmark : mark = 'e' ∨ mark = 'E') (hne : digits ≠ [])
      (hdigits : ∀ c ∈ digits, c.isDigit) : Exponent (mark :: '-' :: digits) (-decimal digits)

/-- Digits, with a point before, between or behind them or without one. -/
inductive UnsignedFloat : Str → ℚ → Prop
  | whole {digits exponent : Str} {n : Int} (hne : digits ≠ [])
      (hdigits : ∀ c ∈ digits, c.isDigit) (hexponent : Exponent exponent n) :
      UnsignedFloat (digits ++ exponent) (decimal digits * 10 ^ n)
  | point {whole fraction exponent : Str} {n : Int} (hne : whole ++ fraction ≠ [])
      (hwhole : ∀ c ∈ whole, c.isDigit) (hfraction : ∀ c ∈ fraction, c.isDigit)
      (hexponent : Exponent exponent n) :
      UnsignedFloat (whole ++ '.' :: (fraction ++ exponent))
        (decimal (whole ++ fraction) / 10 ^ fraction.length * 10 ^ n)

inductive FloatLiteral (f : Format) : Str → ℚ → Prop
  | unsigned {s : Str} {x : ℚ} (h : UnsignedFloat s x) (hrange : x ≤ f.largest) :
      FloatLiteral f s x
  | plus {s : Str} {x : ℚ} (h : UnsignedFloat s x) (hrange : x ≤ f.largest) :
      FloatLiteral f ('+' :: s) x
  | minus {s : Str} {x : ℚ} (h : UnsignedFloat s x) (hrange : x ≤ f.largest) :
      FloatLiteral f ('-' :: s) x

theorem takeWhile_digits_append {digits rest : Str} (hdigits : ∀ c ∈ digits, c.isDigit)
    (hrest : ∀ c ∈ rest.head?, ¬c.isDigit) : (digits ++ rest).takeWhile Char.isDigit = digits := by
  rw [List.takeWhile_append_of_pos hdigits]
  cases rest with
  | nil => simp
  | cons c rest => simp [hrest c rfl]

theorem isDigit_not_isSpace {c : Char} (h : c.isDigit) : ¬isSpace c := by
  intro hs
  simp only [Char.isDigit, Bool.and_eq_true, decide_eq_true_eq] at h
  simp only [isSpace, Bool.or_eq_true, decide_eq_true_eq, Bool.and_eq_true] at hs
  have hlow : 48 ≤ c.toNat := h.1
  rcases hs with rfl | hs
  · exact absurd hlow (by decide)
  · omega

theorem dropWhile_space {space s : Str} (hspace : ∀ c ∈ space, isSpace c)
    (hs : ∀ c ∈ s.head?, ¬isSpace c) : (space ++ s).dropWhile isSpace = s := by
  rw [List.dropWhile_append_of_pos hspace]
  cases s with
  | nil => rfl
  | cons c s => exact List.dropWhile_cons_of_neg (hs c rfl)

theorem literal_not_space {bits : Nat} {literal : Str} {n : Int} (h : IntegerLiteral bits literal n)
    (rest : Str) : ∀ c ∈ (literal ++ rest).head?, ¬isSpace c := by
  intro c hc
  cases h with
  | unsigned hne hdigits hrange =>
      obtain ⟨d, digits, rfl⟩ := List.exists_cons_of_ne_nil hne
      cases hc
      exact isDigit_not_isSpace (hdigits c List.mem_cons_self)
  | plus hne hdigits hrange | minus hne hdigits hrange =>
      cases hc
      decide

theorem literal_range {bits : Nat} {literal : Str} {n : Int} (h : IntegerLiteral bits literal n) :
    -2 ^ (bits - 1) ≤ n ∧ n < 2 ^ (bits - 1) := by
  have hpos : (0 : Int) < 2 ^ (bits - 1) := Int.pow_pos (by decide)
  cases h with
  | unsigned _ _ hrange | plus _ _ hrange | minus _ _ hrange => omega

theorem digit_ne_sign {c : Char} (h : c.isDigit) : c ≠ '+' ∧ c ≠ '-' := by
  constructor
  · rintro rfl
    exact absurd h (by decide)
  · rintro rfl
    exact absurd h (by decide)

theorem strtol_literal {bits : Nat} {space literal rest : Str} {n : Int}
    (h : IntegerLiteral bits literal n) (hspace : ∀ c ∈ space, isSpace c)
    (hrest : ∀ c ∈ rest.head?, ¬c.isDigit) : strtol (space ++ literal ++ rest) = some n := by
  rw [strtol, List.append_assoc, dropWhile_space hspace (literal_not_space h rest)]
  cases h with
  | unsigned hne hdigits hrange =>
      obtain ⟨c, digits, rfl⟩ := List.exists_cons_of_ne_nil hne
      obtain ⟨hplus, hminus⟩ := digit_ne_sign (hdigits c List.mem_cons_self)
      have htake := takeWhile_digits_append hdigits hrest
      rw [List.cons_append] at htake ⊢
      simp [htake, hplus, hminus]
  | plus hne hdigits hrange => simp [takeWhile_digits_append hdigits hrest]
  | minus hne hdigits hrange => simp [takeWhile_digits_append hdigits hrest]

theorem parseInteger_literal {bits : Nat} {s : Str} {n : Int} (h : IntegerLiteral bits s n)
    (name : String) : parseInteger name bits s = .ok n := by
  have hs := @strtol_literal bits [] s [] n h (by simp) (by simp)
  rw [List.nil_append, List.append_nil] at hs
  rw [parseInteger, hs]
  exact if_pos (literal_range h)

theorem exponent_head {s : Str} {n : Int} (h : Exponent s n) : ∀ c ∈ s.head?, c = 'e' ∨ c = 'E' := by
  intro c hc
  cases h with
  | absent => cases hc
  | unsigned hmark | plus hmark | minus hmark =>
      cases hc
      exact hmark

theorem takeWhile_digits {digits : Str} (h : ∀ c ∈ digits, c.isDigit) :
    digits.takeWhile Char.isDigit = digits := List.takeWhile_eq_self_iff.mpr h

theorem exponent_eq {s : Str} {n : Int} (h : Exponent s n) : decimalNumerals.exponent s = n := by
  have hlower {mark : Char} (hmark : mark = 'e' ∨ mark = 'E') : mark.toLower = 'e' := by
    rcases hmark with rfl | rfl <;> rfl
  cases h with
  | absent => rfl
  | @unsigned mark digits hmark hne hdigits =>
      obtain ⟨c, digits, rfl⟩ := List.exists_cons_of_ne_nil hne
      obtain ⟨hplus, hminus⟩ := digit_ne_sign (hdigits c List.mem_cons_self)
      simp [Numerals.exponent, decimalNumerals, hlower hmark, takeWhile_digits hdigits, hplus, hminus]
  | plus hmark hne hdigits =>
      simp [Numerals.exponent, decimalNumerals, hlower hmark, takeWhile_digits hdigits]
  | minus hmark hne hdigits =>
      simp [Numerals.exponent, decimalNumerals, hlower hmark, takeWhile_digits hdigits]

theorem dropWhile_digits_append {digits rest : Str} (hdigits : ∀ c ∈ digits, c.isDigit)
    (hrest : ∀ c ∈ rest.head?, ¬c.isDigit) : (digits ++ rest).dropWhile Char.isDigit = rest := by
  rw [List.dropWhile_append_of_pos hdigits]
  cases rest with
  | nil => rfl
  | cons c rest => exact List.dropWhile_cons_of_neg (hrest c rfl)

theorem exponent_not_digit {s : Str} {n : Int} (h : Exponent s n) : ∀ c ∈ s.head?, ¬c.isDigit := by
  intro c hc
  rcases exponent_head h c hc with rfl | rfl <;> decide

theorem read_unsignedFloat {s : Str} {x : ℚ} (h : UnsignedFloat s x) :
    decimalNumerals.read s = some x := by
  cases h with
  | @whole digits exponent n hne hdigits hexponent =>
      have hdrop := dropWhile_digits_append hdigits (exponent_not_digit hexponent)
      have htake := takeWhile_digits_append hdigits (exponent_not_digit hexponent)
      have hfraction : decimalNumerals.fraction exponent = ([], exponent) := by
        rw [Numerals.fraction.eq_def]
        split
        · rcases exponent_head hexponent '.' rfl with h | h <;> exact absurd h (by decide)
        · rfl
      have hvalue := exponent_eq hexponent
      rw [decimalNumerals] at hfraction hvalue
      simp only [Numerals.read, decimalNumerals, htake, hdrop, hfraction, hvalue, List.append_nil,
        if_neg hne]
      simp
  | @point whole fraction exponent n hne hwhole hfraction hexponent =>
      have hpoint : ∀ c ∈ ('.' :: (fraction ++ exponent)).head?, ¬c.isDigit := by
        rintro c hc
        cases hc
        decide
      have hdrop := dropWhile_digits_append hwhole hpoint
      have htake := takeWhile_digits_append hwhole hpoint
      have hdrop' := dropWhile_digits_append hfraction (exponent_not_digit hexponent)
      have htake' := takeWhile_digits_append hfraction (exponent_not_digit hexponent)
      have hvalue := exponent_eq hexponent
      rw [decimalNumerals] at hvalue
      simp only [Numerals.read, decimalNumerals, htake, hdrop, Numerals.fraction, htake', hdrop',
        hvalue, if_neg hne]
      simp

def Plain (c : Char) : Prop := c.isDigit ∨ c ∈ ['.', 'e', 'E', '+', '-']

theorem exponent_plain {s : Str} {n : Int} (h : Exponent s n) : ∀ c ∈ s, Plain c := by
  have hmarks {mark : Char} (hmark : mark = 'e' ∨ mark = 'E') : Plain mark := by
    rcases hmark with rfl | rfl <;> exact .inr (by decide)
  cases h with
  | absent => exact fun c hc => (by cases hc)
  | unsigned hmark hne hdigits =>
      exact List.forall_mem_cons.mpr ⟨hmarks hmark, fun c hc => .inl (hdigits c hc)⟩
  | plus hmark hne hdigits | minus hmark hne hdigits =>
      refine List.forall_mem_cons.mpr ⟨hmarks hmark, List.forall_mem_cons.mpr ⟨.inr (by decide), ?_⟩⟩
      exact fun c hc => .inl (hdigits c hc)

theorem unsignedFloat_plain {s : Str} {x : ℚ} (h : UnsignedFloat s x) : ∀ c ∈ s, Plain c := by
  intro c hc
  cases h with
  | whole hne hdigits hexponent =>
      rcases List.mem_append.mp hc with hc | hc
      · exact .inl (hdigits c hc)
      · exact exponent_plain hexponent c hc
  | point hne hwhole hfraction hexponent =>
      rcases List.mem_append.mp hc with hc | hc
      · exact .inl (hwhole c hc)
      · rcases List.mem_cons.mp hc with rfl | hc
        · exact .inr (by decide)
        · rcases List.mem_append.mp hc with hc | hc
          · exact .inl (hfraction c hc)
          · exact exponent_plain hexponent c hc

theorem plain_toLower {c : Char} (h : Plain c) : c.toLower ∉ ['i', 'n', 'x'] := by
  simp only [Plain, List.mem_cons, List.not_mem_nil, or_false] at h ⊢
  rcases h with h | rfl | rfl | rfl | rfl | rfl
  · have hdigit : c.toLower = c := by
      simp only [Char.isDigit, Bool.and_eq_true, decide_eq_true_eq] at h
      have hnine : '9'.val.toNat < 'A'.val.toNat := by decide
      apply dif_neg
      rintro ⟨hupper, -⟩
      have hlow : 'A'.val.toNat ≤ c.val.toNat := hupper
      have hhigh : c.val.toNat ≤ '9'.val.toNat := h.2
      omega
    rw [hdigit]
    rintro (rfl | rfl | rfl) <;> exact absurd h (by decide)
  all_goals decide

theorem not_startsWith {word s : Str} {c : Char} (hc : c ∈ word) (hletter : c ∈ ['i', 'n', 'x'])
    (hs : ∀ c ∈ s, Plain c) : startsWith word s = false := by
  rw [startsWith, decide_eq_false_iff_not]
  intro h
  rw [← h] at hc
  obtain ⟨d, hd, rfl⟩ := List.mem_map.mp hc
  exact plain_toLower (hs d (List.mem_of_mem_take hd)) hletter

theorem unsignedFloat_eq {s : Str} {x : ℚ} (h : UnsignedFloat s x) (negative : Bool) :
    unsignedFloat negative s = some (.finite negative x) := by
  have hplain := unsignedFloat_plain h
  have hinf : startsWith ['i', 'n', 'f'] s = false :=
    not_startsWith (c := 'i') (by decide) (by decide) hplain
  have hnan : startsWith ['n', 'a', 'n'] s = false :=
    not_startsWith (c := 'n') (by decide) (by decide) hplain
  have hhex : startsWith ['0', 'x'] s = false :=
    not_startsWith (c := 'x') (by decide) (by decide) hplain
  rw [unsignedFloat, hinf, hnan, hhex, read_unsignedFloat h]
  rfl

theorem unsignedFloat_head {s : Str} {x : ℚ} (h : UnsignedFloat s x) :
    ∃ c rest, s = c :: rest ∧ (c.isDigit ∨ c = '.') := by
  cases h with
  | @whole digits exponent n hne hdigits hexponent =>
      obtain ⟨c, digits, rfl⟩ := List.exists_cons_of_ne_nil hne
      exact ⟨c, _, rfl, .inl (hdigits c List.mem_cons_self)⟩
  | @point whole fraction exponent n hne hwhole hfraction hexponent =>
      cases whole with
      | nil => exact ⟨'.', _, rfl, .inr rfl⟩
      | cons c whole => exact ⟨c, _, rfl, .inl (hwhole c List.mem_cons_self)⟩

theorem floatText_literal {f : Format} {s : Str} {x : ℚ} (h : FloatLiteral f s x) :
    ∃ negative, floatText s = some (.finite negative x) := by
  cases h with
  | unsigned h hrange =>
      obtain ⟨c, rest, rfl, hc⟩ := unsignedFloat_head h
      have hother (d : Char) (hd : ¬d.isDigit) (hpoint : d ≠ '.') : c ≠ d := by
        rintro rfl
        exact hc.elim hd hpoint
      have hspace : ¬isSpace c := by
        rcases hc with hc | rfl
        · exact isDigit_not_isSpace hc
        · decide
      refine ⟨false, ?_⟩
      rw [floatText, List.dropWhile_cons_of_neg hspace]
      have hplus := hother '+' (by decide) (by decide)
      have hminus := hother '-' (by decide) (by decide)
      have heq := unsignedFloat_eq h false
      simpa [hplus, hminus] using heq
  | plus h hrange => exact ⟨false, unsignedFloat_eq h false⟩
  | minus h hrange => exact ⟨true, unsignedFloat_eq h true⟩

theorem unsignedFloat_nonneg {s : Str} {x : ℚ} (h : UnsignedFloat s x) : 0 ≤ x := by
  cases h with
  | whole =>
      exact mul_nonneg (Nat.cast_nonneg _) (zpow_nonneg (by decide) _)
  | point =>
      apply mul_nonneg _ (zpow_nonneg (by decide) _)
      exact div_nonneg (Nat.cast_nonneg _) (pow_nonneg (by decide) _)

theorem literal_abs_le {f : Format} {s : Str} {x : ℚ} (h : FloatLiteral f s x) :
    |x| ≤ f.largest := by
  cases h with
  | unsigned h hrange | plus h hrange | minus h hrange =>
      rwa [abs_of_nonneg (unsignedFloat_nonneg h)]

theorem floatLiteral_unique {f : Format} {s : Str} {x y : ℚ} (hx : FloatLiteral f s x)
    (hy : FloatLiteral f s y) : x = y := by
  obtain ⟨negative, hs⟩ := floatText_literal hx
  obtain ⟨negative', hs'⟩ := floatText_literal hy
  rw [hs] at hs'
  cases hs'
  rfl

/-- A literal is converted unless it underflows. -/
theorem parseFloat_literal_iff {f : Format} {s : Str} {x : ℚ} (h : FloatLiteral f s x)
    (name : String) : (∃ value, parseFloat name f s = .ok value) ↔ ¬f.Underflows x := by
  obtain ⟨negative, hs⟩ := floatText_literal h
  have hrange := not_overflows (literal_abs_le h)
  rw [parseFloat, hs]
  simp only [hrange, false_or]
  split_ifs with hunder
  · exact iff_of_false (fun ⟨value, hvalue⟩ => by cases hvalue) (fun hnot => hnot hunder)
  · exact iff_of_true ⟨_, rfl⟩ hunder

end Flycatcher.Literals
