import Treewalk.Number

/- Rounding of exact ratios to doubles, to nearest with ties to even. -/

namespace Treewalk

/-- The integer nearest to `n / d`; of two equally near ones the even. -/
def roundEven (n d : Nat) : Nat :=
  let q := n / d
  let r := n % d
  if 2 * r < d ∨ (2 * r = d ∧ q % 2 = 0) then q else q + 1

namespace Number

/-- The double nearest to `n / d`. Counting in least units, a mantissa of fifty-three bits at step `t` is the
pattern `t * 2 ^ 52` plus the mantissa, and a mantissa rounded up to `2 ^ 53` carries into the exponent. -/
def nearest (n d : Nat) : Number :=
  let units := n * Nat.pow 2 1074
  let t := (units / d).log2 - 52
  ofMagnitude (min (t * Nat.pow 2 52 + roundEven units (d * Nat.pow 2 t)) infinity)

def ofNat (n : Nat) : Number := nearest n 1

def ofInt (n : Int) : Number := if n < 0 then (ofNat n.natAbs).neg else ofNat n.natAbs

/-- The double equal to a single-precision pattern. -/
def ofSingle (bits : UInt32) : Number :=
  let m := bits.toNat % Nat.pow 2 31
  let e := m / Nat.pow 2 23
  let size :=
    if e = 255 then (if m % Nat.pow 2 23 = 0 then ofMagnitude infinity else ofMagnitude (infinity + Nat.pow 2 51))
    else if e = 0 then nearest m (Nat.pow 2 149)
    else nearest ((Nat.pow 2 23 + m % Nat.pow 2 23) * Nat.pow 2 (e - 1)) (Nat.pow 2 149)
  if Nat.pow 2 31 ≤ bits.toNat then size.neg else size

end Number

end Treewalk
