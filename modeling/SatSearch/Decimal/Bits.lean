import SatSearch.Decimal.Reader
/-!
# Floats by their bits

The bits of a 64-bit float tell more than the float: which zero it is, and the sign of a value
that is no number. `rank` orders all bit patterns: negative ones by falling, positive ones by
rising magnitude, with the values that are no numbers at both ends.
-/

namespace SatSearch

structure FloatBits where
  word : UInt64
  deriving DecidableEq, Repr

namespace FloatBits

def toFloat (b : FloatBits) : Float := Float.ofBits b.word

def ofFloat (x : Float) : FloatBits := ⟨x.toBits⟩

def rank (b : FloatBits) : Nat :=
  let n := b.word.toNat
  if n < Numeral.signedLimit then Numeral.signedLimit + n else Numeral.countLimit - 1 - n

/-- The float that a text stands for. -/
def parse? (cs : List Char) : Option FloatBits := (Decimal.bits? cs).map (⟨·⟩)

theorem rank_injective {a b : FloatBits} (h : a.rank = b.rank) : a = b := by
  have ha := a.word.toNat_lt
  have hb := b.word.toNat_lt
  have : a.word.toNat = b.word.toNat := by
    have hs : Numeral.signedLimit = 9223372036854775808 := rfl
    have hc : Numeral.countLimit = 18446744073709551616 := rfl
    simp only [rank] at h
    split at h <;> split at h <;> omega
  cases a
  cases b
  simp only [UInt64.toNat_inj] at this
  simp [this]

end FloatBits

end SatSearch
