import Mathlib.Algebra.Order.Ring.Int
import Mathlib.Data.Prod.Lex
/-!
# Comparing floats

A float that is a number has a place on a line: its class from negative infinity up to positive
infinity, then its exponent, then its mantissa. One float is less than another exactly if both have a
place and the first has the lower one (`lt_iff_place`), so `<` is irreflexive and transitive on
all floats, although the missing number and the two zeros keep it from being a linear order.
-/

namespace SatSearch.FloatOrder

open Float.Model (UnpackedFloat)

/-! ## Places -/

/-- Class, exponent and mantissa, compared in this order; below zero the last two are mirrored. -/
abbrev Place := Int ×ₗ Int ×ₗ Int

def unpackedPlace : UnpackedFloat → Option Place
  | .notANumber => none
  | .infinity .negative => some (toLex (-2, toLex (0, 0)))
  | .finite .negative mantissa exponent _ => some (toLex (-1, toLex (-exponent, -mantissa)))
  | .zero _ => some (toLex (0, toLex (0, 0)))
  | .finite .positive mantissa exponent _ => some (toLex (1, toLex (exponent, mantissa)))
  | .infinity .positive => some (toLex (2, toLex (0, 0)))

/-- Where a float stands among the numbers; the missing number stands nowhere. -/
def place (x : Float) : Option Place := unpackedPlace x.toModel.unpack

/-! ## Comparisons by places -/

theorem magnitudes_isLE {e e' : Int} {m n : Nat} :
    ((compare e e').then (compare m n)).isLE = true ↔ e < e' ∨ e = e' ∧ m ≤ n := by
  rw [Ordering.isLE_iff_ne_gt, Ordering.then_eq_gt, compare_gt_iff_gt, compare_eq_iff_eq,
    compare_gt_iff_gt]
  omega

theorem magnitudes_isGE {e e' : Int} {m n : Nat} :
    ((compare e e').then (compare m n)).isGE = true ↔ e' < e ∨ e = e' ∧ n ≤ m := by
  rw [Ordering.isGE_iff_ne_lt, Ordering.then_eq_lt, compare_lt_iff_lt, compare_eq_iff_eq,
    compare_lt_iff_lt]
  omega

theorem unpacked_lt_iff {x y : UnpackedFloat} : x.lt y = true ↔
    ∃ p q, unpackedPlace x = some p ∧ unpackedPlace y = some q ∧ p < q := by
  unfold UnpackedFloat.lt
  rcases x with (_ | _) | _ | _ | ⟨_ | _, m, e, _⟩ <;>
    rcases y with (_ | _) | _ | _ | ⟨_ | _, n, e', _⟩ <;>
    dsimp only [UnpackedFloat.compare, unpackedPlace] <;>
    simp [Prod.Lex.toLex_lt_toLex, Ordering.then_eq_lt, Ordering.then_eq_gt, compare_lt_iff_lt,
      compare_gt_iff_gt]
  -- of two infinities only the signs are compared
  rfl

theorem unpacked_le_iff {x y : UnpackedFloat} : x.le y = true ↔
    ∃ p q, unpackedPlace x = some p ∧ unpackedPlace y = some q ∧ p ≤ q := by
  unfold UnpackedFloat.le
  rcases x with (_ | _) | _ | _ | ⟨_ | _, m, e, _⟩ <;>
    rcases y with (_ | _) | _ | _ | ⟨_ | _, n, e', _⟩ <;>
    dsimp only [UnpackedFloat.compare, unpackedPlace] <;>
    simp [Prod.Lex.toLex_le_toLex, magnitudes_isLE, magnitudes_isGE] <;>
    rfl

theorem lt_iff_place {x y : Float} : x < y ↔ ∃ p q, place x = some p ∧ place y = some q ∧ p < q := by
  have h : x < y ↔ x.toModel.unpack.lt y.toModel.unpack = true := by
    show decide (x.toModel < y.toModel) = true ↔ _
    exact decide_eq_true_iff
  exact h.trans unpacked_lt_iff

theorem le_iff_place {x y : Float} : x ≤ y ↔ ∃ p q, place x = some p ∧ place y = some q ∧ p ≤ q := by
  have h : x ≤ y ↔ x.toModel.unpack.le y.toModel.unpack = true := by
    show decide (x.toModel ≤ y.toModel) = true ↔ _
    exact decide_eq_true_iff
  exact h.trans unpacked_le_iff

/-! ## The order -/

variable {x y z : Float}

theorem lt_irrefl (x : Float) : ¬ x < x := by
  intro h
  obtain ⟨p, q, hp, hq, hpq⟩ := lt_iff_place.1 h
  rw [hp, Option.some.injEq] at hq
  subst hq
  exact hpq.ne rfl

theorem lt_trans (hxy : x < y) (hyz : y < z) : x < z := by
  obtain ⟨p, q, hp, hq, hpq⟩ := lt_iff_place.1 hxy
  obtain ⟨q', r, hq', hr, hqr⟩ := lt_iff_place.1 hyz
  rw [hq, Option.some.injEq] at hq'
  subst hq'
  exact lt_iff_place.2 ⟨p, r, hp, hr, hpq.trans hqr⟩

theorem lt_asymm (hxy : x < y) : ¬ y < x := fun hyx => lt_irrefl x (lt_trans hxy hyx)

/-- What is less than `x` is less than all that `x` does not exceed. -/
theorem lt_of_lt_of_le (hxy : x < y) (hyz : y ≤ z) : x < z := by
  obtain ⟨p, q, hp, hq, hpq⟩ := lt_iff_place.1 hxy
  obtain ⟨q', r, hq', hr, hqr⟩ := le_iff_place.1 hyz
  rw [hq, Option.some.injEq] at hq'
  subst hq'
  exact lt_iff_place.2 ⟨p, r, hp, hr, hpq.trans_le hqr⟩

end SatSearch.FloatOrder
