import Mathlib.Algebra.Order.Field.Rat
import Mathlib.Tactic.FieldSimp
import Mathlib.Tactic.Linarith
import Mathlib.Tactic.Positivity
import SatSearch.Decimal.Printed
import SatSearch.Proofs.Text.Numerals
/-!
# Texts with a fixed number of places

A number is told by the nearest multiple of `10 ^ -places`, of two equally near by the even one
(`isNearest_roundHalfEven`), and the digits of the multiple have the point in front of the last places
(`exists_placesText`).

Main statement: `isFixed_fixed`.
-/

namespace SatSearch.Decimal

/-- The whole number nearest to `x`, of two equally near the even one. -/
structure IsNearest (n : Nat) (x : ℚ) : Prop where
  dist_le : |(n : ℚ) - x| ≤ 1 / 2
  even_of_tie : |(n : ℚ) - x| = 1 / 2 → n % 2 = 0

/-- The text of a float with a fixed number of places, one at least: its sign if it is negative, and the digits of the
multiple of `10 ^ -places` nearest to it, with the point in front of the last places. -/
inductive IsFixed (places : Nat) : Parts → List Char → Prop
  | nan : IsFixed places .nan "NaN".toList
  | infinite (negative : Bool) : IsFixed places (.infinite negative) (if negative then "-inf" else "inf").toList
  | finite {negative : Bool} {significand n : Nat} {exponent : Int} {whole fraction : List Char} :
      IsNearest n (significand * 10 ^ places * 2 ^ exponent) → Numeral.IsDigits (whole ++ fraction) n →
      whole ≠ [] → fraction.length = places → IsFixed places (.finite negative significand exponent)
        ((if negative then ['-'] else []) ++ whole ++ '.' :: fraction)

/-! ## Rounding -/

/-- The half that is left over or missing is counted in parts of `2 * den`. -/
theorem two_mul_roundHalfEven (num : Nat) {den n : Nat} (hden : 0 < den) (hn : roundHalfEven num den = n) :
    2 * (n * den) ≤ 2 * num + den ∧ 2 * num ≤ 2 * (n * den) + den ∧
      (2 * (n * den) = 2 * num + den ∨ 2 * num = 2 * (n * den) + den → n % 2 = 0) := by
  have hsplit := Nat.div_add_mod num den
  have hlt := Nat.mod_lt num hden
  have hsucc : (num / den + 1) * den = den * (num / den) + den := by rw [Nat.succ_mul, Nat.mul_comm]
  have hcomm : num / den * den = den * (num / den) := Nat.mul_comm _ _
  simp only [roundHalfEven] at hn
  split at hn
  · subst hn
    omega
  · split at hn
    · subst hn
      omega
    · split at hn
      · subst hn
        omega
      · subst hn
        omega

theorem isNearest_roundHalfEven (num : Nat) {den : Nat} (hden : 0 < den) :
    IsNearest (roundHalfEven num den) (num / den) := by
  generalize hn : roundHalfEven num den = n
  obtain ⟨hle, hge, heven⟩ := two_mul_roundHalfEven num hden hn
  have hden' : (0 : ℚ) < den := by exact_mod_cast hden
  have hdist : (n : ℚ) - num / den = (n * den - num) / den := by field_simp
  have hle' : 2 * ((n : ℚ) * den) ≤ 2 * num + den := by exact_mod_cast hle
  have hge' : (2 : ℚ) * num ≤ 2 * (n * den) + den := by exact_mod_cast hge
  constructor
  · rw [hdist, abs_le, le_div_iff₀ hden', div_le_iff₀ hden']
    constructor <;> linarith
  · intro htie
    refine heven ?_
    rw [hdist, abs_eq (by norm_num), div_eq_iff hden'.ne', div_eq_iff hden'.ne'] at htie
    rcases htie with htie | htie
    · left
      have h : 2 * ((n : ℚ) * den) = 2 * num + den := by linarith
      exact_mod_cast h
    · right
      have h : (2 : ℚ) * num = 2 * (n * den) + den := by linarith
      exact_mod_cast h

theorem Ratio.ofPower_spec (n : Nat) (e : Int) : 0 < (ofPower n 2 e).den ∧
    ((ofPower n 2 e).num : ℚ) / (ofPower n 2 e).den = n * 2 ^ e := by
  unfold ofPower
  split
  · next he =>
    obtain ⟨k, rfl⟩ := Int.eq_ofNat_of_zero_le he
    simp
  · next he =>
    obtain ⟨k, hk⟩ := Int.eq_ofNat_of_zero_le (Int.neg_nonneg_of_nonpos (Int.le_of_not_le he))
    obtain rfl : e = -(k : Int) := by omega
    refine ⟨by simp, ?_⟩
    simp [div_eq_mul_inv]

/-! ## Digits -/

/-- Zeros in front of digits do not count. -/
theorem isDigits_zeros_append {ds : List Char} {n : Nat} (h : Numeral.IsDigits ds n) (k : Nat) :
    Numeral.IsDigits (List.replicate k '0' ++ ds) n := by
  induction k with
  | zero => exact h
  | succ k ih =>
    refine ⟨by simp [List.replicate_succ], ?_, ?_⟩
    · rw [List.replicate_succ, List.cons_append]
      exact List.forall_mem_cons.2 ⟨by decide, ih.isDigit⟩
    · rw [List.replicate_succ, List.cons_append, Nat.ofDigitChars_cons]
      exact ih.value_eq

theorem exists_placesText {places : Nat} (hplaces : 0 < places) (n : Nat) :
    ∃ whole fraction : List Char, (placesText places n).toList = whole ++ '.' :: fraction ∧
      Numeral.IsDigits (whole ++ fraction) n ∧ whole ≠ [] ∧ fraction.length = places := by
  let padded := zeros (places + 1 - (toString n).length) ++ toString n
  have hlist : padded.toList = List.replicate (places + 1 - (toString n).length) '0' ++ Nat.toDigits 10 n := by
    simp [padded, zeros]
  have hlong : places < padded.toList.length := by
    rw [hlist, List.length_append, List.length_replicate, ← Numeral.toList_toString, String.length_toList]
    omega
  refine ⟨padded.toList.take (padded.length - places), padded.toList.drop (padded.length - places), ?_, ?_, ?_, ?_⟩
  · have hsome : places ≠ 0 := hplaces.ne'
    simp [placesText, hsome, splitText, padded]
  · rw [List.take_append_drop, hlist]
    exact isDigits_zeros_append (Numeral.digits?_eq_some_iff.1 (Numeral.digits?_toDigits n)) _
  · rw [← String.length_toList, ← List.length_pos_iff, List.length_take]
    omega
  · rw [← String.length_toList, List.length_drop]
    omega

/-! ## Texts -/

/-- A float has its text with a fixed number of places. -/
theorem isFixed_fixed {places : Nat} (hplaces : 0 < places) (x : Float) :
    IsFixed places (partsOf x) (fixed places x).toList := by
  unfold fixed
  cases partsOf x with
  | nan => exact .nan
  | infinite negative =>
    cases negative with
    | false => exact .infinite false
    | true => exact .infinite true
  | finite negative significand exponent =>
    dsimp only
    generalize hratio : Ratio.ofPower (significand * Nat.pow 10 places) 2 exponent = r
    obtain ⟨hden, hvalue⟩ := Ratio.ofPower_spec (significand * Nat.pow 10 places) exponent
    rw [hratio] at hden hvalue
    have hnearest := isNearest_roundHalfEven r.num hden
    rw [hvalue] at hnearest
    obtain ⟨whole, fraction, htext, hdigits, hne, hlength⟩ :=
      exists_placesText hplaces (roundHalfEven r.num r.den)
    have hsigned : (signed negative (placesText places (roundHalfEven r.num r.den))).toList =
        (if negative then ['-'] else []) ++ whole ++ '.' :: fraction := by
      rw [List.append_assoc, ← htext]
      cases negative <;> simp [signed]
    rw [hsigned]
    refine .finite ?_ hdigits hne hlength
    simpa using hnearest

end SatSearch.Decimal
