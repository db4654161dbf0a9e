import SatSearch.Cnf.Literal
import SatSearch.Proofs.Text.Numerals
/-!
# Literals as signed numbers

The number of a literal is worked out on the 64-bit word of its variable, read as a signed one. As long as the
variable is below `2 ^ 63 - 1` this loses nothing (`ofSigned?_toSigned`). From `2 ^ 63` on the word reads as
a negative number. Then the literal gets the number of another one, its mirror, which has the opposite polarity
(`toSigned_mirror`), and the last variable of all gets the mark that ends a clause (`toSigned_eq_zero_iff`).

Main statement: `toSigned_exact`. The first literal that is written as another one is `firstFar`.
-/

namespace SatSearch.Literal

variable {l k : Literal} {n : Nat}

/-! ## Near variables -/

theorem signedWord_of_lt (h : n < Numeral.signedLimit) : signedWord n = n := by
  have hsize : (UInt64.size : Int) = 18446744073709551616 := rfl
  have hlimit : Numeral.signedLimit = 9223372036854775808 := rfl
  apply Int.bmod_eq_of_le_mul_two
  · omega
  · omega

section
variable (h : l.var + 1 < Numeral.signedLimit)
include h

theorem toSigned_of_lt : l.toSigned = if l.polarity then (l.var : Int) + 1 else -((l.var : Int) + 1) := by
  rw [toSigned, signedWord_of_lt (Nat.lt_of_succ_lt h)]

theorem ofSigned?_toSigned : ofSigned? l.toSigned = some l := by
  rw [toSigned_of_lt h]
  obtain ⟨v, polarity⟩ := l
  cases polarity with
  | true =>
    have hne : (v : Int) + 1 ≠ 0 := by omega
    have hpos : 0 < (v : Int) + 1 := by omega
    have hvar : ((v : Int) + 1).natAbs - 1 = v := by omega
    simp [ofSigned?, hne, hpos, hvar]
  | false =>
    have hne : -((v : Int) + 1) ≠ 0 := by omega
    have hneg : ¬ 0 < -((v : Int) + 1) := by omega
    have hvar : (-((v : Int) + 1)).natAbs - 1 = v := by omega
    simp only [ofSigned?, hne, hneg, hvar, Bool.false_eq_true, if_false, decide_false]

end

/-! ## All variables -/

theorem signedWord_of_le (h : Numeral.signedLimit ≤ n) (hn : n < UInt64.size) :
    signedWord n = (n : Int) - UInt64.size := by
  have hlimit : Numeral.signedLimit = 9223372036854775808 := rfl
  have hsize : UInt64.size = 18446744073709551616 := rfl
  have hshift : signedWord n = Int.bmod ((n : Int) - UInt64.size) UInt64.size :=
    (Int.sub_bmod_right _ _).symm
  rw [hshift]
  apply Int.bmod_eq_of_le_mul_two
  · omega
  · omega

/-- Without the polarity, a number is one more than the variable or, for a far one, less than that by `2 ^ 64`. -/
theorem exists_magnitude (h : l.var < UInt64.size) : ∃ m : Int, l.toSigned = (if l.polarity then m else -m) ∧
    (l.var < Numeral.signedLimit ∧ m = l.var + 1 ∨
      Numeral.signedLimit ≤ l.var ∧ m = l.var + 1 - UInt64.size) := by
  refine ⟨signedWord l.var + 1, rfl, ?_⟩
  rcases Nat.lt_or_ge l.var Numeral.signedLimit with hnear | hfar
  · exact .inl ⟨hnear, by rw [signedWord_of_lt hnear]⟩
  · refine .inr ⟨hfar, ?_⟩
    rw [signedWord_of_le hfar h]
    omega

/-- The variable is a 64-bit word, and one can be added to this word without an overflow. -/
structure Convertible (l : Literal) : Prop where
  var_lt : l.var < UInt64.size
  succ_ne : l.var + 1 ≠ Numeral.signedLimit

namespace Convertible

theorem of_lt (h : l.var + 1 < Numeral.signedLimit) : l.Convertible := by
  have hlimit : Numeral.signedLimit = 9223372036854775808 := rfl
  have hsize : UInt64.size = 18446744073709551616 := rfl
  exact ⟨by omega, by omega⟩

/-- Two literals get the same number if they are the same, if each is the mirror of the other, or if both have the
last variable. -/
theorem toSigned_eq_iff (h : l.Convertible) (hk : k.Convertible) :
    l.toSigned = k.toSigned ↔ l = k ∨ (l.var + k.var + 2 = UInt64.size ∧ l.polarity ≠ k.polarity) ∨
      (l.var + 1 = UInt64.size ∧ k.var + 1 = UInt64.size) := by
  have hlimit : Numeral.signedLimit = 9223372036854775808 := rfl
  have hsize : UInt64.size = 18446744073709551616 := rfl
  obtain ⟨m, hm, hplace⟩ := exists_magnitude h.var_lt
  obtain ⟨m', hm', hplace'⟩ := exists_magnitude hk.var_lt
  obtain ⟨hword, hnext⟩ := h
  obtain ⟨hword', hnext'⟩ := hk
  rw [hm, hm']
  obtain ⟨v, p⟩ := l
  obtain ⟨w, q⟩ := k
  dsimp only at *
  rw [mk.injEq]
  cases p <;> cases q <;>
    simp only [if_true, if_false, Bool.true_eq_false, Bool.false_eq_true, ne_eq, not_true, not_false_eq_true,
      and_true, and_false, false_or] <;>
    omega

theorem toSigned_eq_zero_iff (h : l.Convertible) : l.toSigned = 0 ↔ l.var + 1 = UInt64.size := by
  have hlimit : Numeral.signedLimit = 9223372036854775808 := rfl
  have hsize : UInt64.size = 18446744073709551616 := rfl
  obtain ⟨m, hm, hplace⟩ := exists_magnitude h.var_lt
  have hword := h.var_lt
  rw [hm]
  split <;> omega

theorem toSigned_pos_iff_of_lt (h : l.Convertible) (hnear : l.var < Numeral.signedLimit) :
    0 < l.toSigned ↔ l.polarity = true := by
  obtain ⟨m, hm, hplace⟩ := exists_magnitude h.var_lt
  rw [hm]
  cases l.polarity with
  | true =>
    simp only [if_true, iff_true]
    omega
  | false =>
    simp only [Bool.false_eq_true, if_false, iff_false]
    omega

/-- The sign of a far literal tells the opposite of its polarity. -/
theorem toSigned_pos_iff_of_le (hfar : Numeral.signedLimit ≤ l.var) (hl : l.var + 1 < UInt64.size) :
    0 < l.toSigned ↔ l.polarity = false := by
  obtain ⟨m, hm, hplace⟩ := exists_magnitude (Nat.lt_of_succ_lt hl)
  rw [hm]
  cases l.polarity with
  | true =>
    simp only [if_true, Bool.true_eq_false, iff_false]
    omega
  | false =>
    simp only [Bool.false_eq_true, if_false, iff_true]
    omega

theorem signed?_text (h : l.Convertible) : Numeral.signed? l.text.toList = some l.toSigned := by
  have hlimit : Numeral.signedLimit = 9223372036854775808 := rfl
  have hsize : UInt64.size = 18446744073709551616 := rfl
  obtain ⟨m, hm, hplace⟩ := exists_magnitude h.var_lt
  obtain ⟨hword, hnext⟩ := h
  have hbounds : -(Numeral.signedLimit : Int) ≤ l.toSigned ∧ l.toSigned < Numeral.signedLimit := by
    rw [hm]
    split <;> omega
  exact Numeral.signed?_toString hbounds.1 hbounds.2

theorem text_eq_iff (h : l.Convertible) (hk : k.Convertible) : l.text = k.text ↔ l.toSigned = k.toSigned := by
  constructor
  · intro heq
    have hread := h.signed?_text
    rw [heq, hk.signed?_text] at hread
    exact (Option.some.inj hread).symm
  · intro heq
    rw [text, heq, text]

end Convertible

/-! ## What the number of a far literal is read back as -/

/-- The literal of the opposite polarity whose variable is as far from 0 as that of `l` is from `2 ^ 64 - 2`. -/
def mirror (l : Literal) : Literal := ⟨UInt64.size - 2 - l.var, !l.polarity⟩

theorem mirror_var_lt (h : Numeral.signedLimit ≤ l.var) : l.mirror.var + 1 < Numeral.signedLimit := by
  have hlimit : Numeral.signedLimit = 9223372036854775808 := rfl
  have hsize : UInt64.size = 18446744073709551616 := rfl
  have hvar : l.mirror.var = UInt64.size - 2 - l.var := rfl
  omega

theorem toSigned_mirror (h : Numeral.signedLimit ≤ l.var) (hl : l.var + 1 < UInt64.size) :
    l.mirror.toSigned = l.toSigned := by
  have hfar : l.Convertible := ⟨by omega, by omega⟩
  have hvar : l.mirror.var = UInt64.size - 2 - l.var := rfl
  refine ((Convertible.of_lt (mirror_var_lt h)).toSigned_eq_iff hfar).2 (.inr (.inl ⟨?_, ?_⟩))
  · omega
  · exact Bool.not_not_eq.2 rfl

/-- **Near literals have numbers of their own, and far ones have those of their mirrors.** With a variable below
`2 ^ 63 - 1` the number is not 0, its sign tells the polarity, and it is read back as the literal. From `2 ^ 63` on
it never is: the sign tells the opposite, and the mirror is read back, or nothing for the last variable, which gets
0. So literals are written alike exactly if they are the same, mirrors of each other, or both of the last
variable. -/
theorem toSigned_exact (h : l.Convertible) (hk : k.Convertible) :
    (l.var + 1 < Numeral.signedLimit →
      l.toSigned ≠ 0 ∧ (0 < l.toSigned ↔ l.polarity = true) ∧ ofSigned? l.toSigned = some l) ∧
    (Numeral.signedLimit ≤ l.var → l.var + 1 < UInt64.size →
      l.toSigned ≠ 0 ∧ (0 < l.toSigned ↔ l.polarity = false) ∧ ofSigned? l.toSigned = some l.mirror ∧
        l.mirror.var + 1 < Numeral.signedLimit) ∧
    (l.var + 1 = UInt64.size → l.toSigned = 0 ∧ ofSigned? l.toSigned = none) ∧
    (l.toSigned = k.toSigned ↔ l = k ∨ (l.var + k.var + 2 = UInt64.size ∧ l.polarity ≠ k.polarity) ∨
      (l.var + 1 = UInt64.size ∧ k.var + 1 = UInt64.size)) ∧
    (l.text = k.text ↔ l.toSigned = k.toSigned) := by
  have hlimit : Numeral.signedLimit = 9223372036854775808 := rfl
  have hsize : UInt64.size = 18446744073709551616 := rfl
  have hzero := h.toSigned_eq_zero_iff
  refine ⟨fun hnear => ?_, fun hfar hl => ?_, fun hlast => ?_, h.toSigned_eq_iff hk, h.text_eq_iff hk⟩
  · exact ⟨by omega, h.toSigned_pos_iff_of_lt (Nat.lt_of_succ_lt hnear), ofSigned?_toSigned hnear⟩
  · have hmirror := mirror_var_lt hfar
    refine ⟨by omega, Convertible.toSigned_pos_iff_of_le hfar hl, ?_, hmirror⟩
    rw [← toSigned_mirror hfar hl, ofSigned?_toSigned hmirror]
  · rw [hzero.2 hlast]
    exact ⟨rfl, rfl⟩

/-- The positive literal of the first far variable. -/
def firstFar : Literal := ⟨9223372036854775808, true⟩

theorem toSigned_exact_firstFar : firstFar.Convertible ∧ firstFar.mirror.Convertible ∧
    ¬ 0 < firstFar.toSigned ∧ ofSigned? firstFar.toSigned = some firstFar.mirror ∧
    firstFar.text = firstFar.mirror.text := by
  have hfar : firstFar.Convertible := ⟨by decide, by decide⟩
  have hnear : firstFar.mirror.Convertible := ⟨by decide, by decide⟩
  obtain ⟨-, hread, -, halike, htext⟩ := toSigned_exact hfar hnear
  obtain ⟨-, hsign, hmirror, -⟩ := hread (by decide) (by decide)
  refine ⟨hfar, hnear, by rw [hsign]; decide, hmirror, htext.2 (halike.2 ?_)⟩
  exact .inr (.inl ⟨by decide, by decide⟩)

/-- A positive literal with a negative number, which is that of another literal, and a literal that is written as
the mark that ends a clause. -/
theorem far_numbers_misread : ∃ l k m : Literal, l.Convertible ∧ k.Convertible ∧ m.Convertible ∧
    l.polarity = true ∧ l.toSigned < 0 ∧ l ≠ k ∧ l.toSigned = k.toSigned ∧ ofSigned? l.toSigned = some k ∧
    m.toSigned = 0 ∧ ofSigned? m.toSigned = none := by
  refine ⟨firstFar, ⟨9223372036854775806, false⟩, ⟨18446744073709551615, true⟩, ?_⟩
  exact ⟨⟨by decide, by decide⟩, ⟨by decide, by decide⟩, ⟨by decide, by decide⟩, by decide⟩

end SatSearch.Literal
