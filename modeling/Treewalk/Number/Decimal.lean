import Treewalk.Number.Rounding

/- Decimal text of numbers: reading rounds the exact value, writing takes the fewest digits that read back. -/

namespace Treewalk

/-- The decimal `digits * 10 ^ place`, with places counted from `10 ^ (-324)`, below every positive double. -/
structure Decimal where
  digits : Nat
  place : Nat
deriving DecidableEq

namespace Decimal

/-- The place of the units. -/
def point : Nat := 324

/-- Positional text: zeros fill up to the point on either side, and no point ends the text. -/
def text (d : Decimal) : List Char :=
  let ds := Nat.toDigits 10 d.digits
  if point ≤ d.place then ds ++ List.replicate (d.place - point) '0'
  else
    let after := point - d.place
    if after < ds.length then ds.take (ds.length - after) ++ '.' :: ds.drop (ds.length - after)
    else '0' :: '.' :: List.replicate (after - ds.length) '0' ++ ds

end Decimal

/-- The value of a run of decimal digits. -/
def digitsValue (cs : List Char) : Nat := cs.foldl (fun n c => 10 * n + (c.toNat - '0'.toNat)) 0

namespace Number

/-- The number that `digits` or `digits.digits` denotes. -/
def ofDigits (cs : List Char) : Number :=
  let whole := cs.takeWhile (· != '.')
  let fraction := (cs.dropWhile (· != '.')).drop 1
  nearest (digitsValue (whole ++ fraction)) (Nat.pow 10 fraction.length)

/-- Lower end of the reals that round to `x`, in quarters of a unit; below a power of two the gap is half. -/
def lowerEnd (x : Number) : Nat :=
  4 * x.units - (if x.magnitude % Nat.pow 2 52 = 0 ∧ 0 < x.step then Nat.pow 2 x.step else 2 * Nat.pow 2 x.step)

/-- Upper end of the reals that round to `x`, in quarters of a unit. -/
def upperEnd (x : Number) : Nat := 4 * x.units + 2 * Nat.pow 2 x.step

/-- Whether `n * 10 ^ (-324)` rounds to `x`; the ends do exactly when the mantissa is even. -/
def roundsTo (x : Number) (n : Nat) : Bool :=
  let v := n * Nat.pow 2 1076
  let low := x.lowerEnd * Nat.pow 10 Decimal.point
  let high := x.upperEnd * Nat.pow 10 Decimal.point
  if x.magnitude % 2 = 0 then low ≤ v ∧ v ≤ high else low < v ∧ v < high

/-- The largest multiple of `10 ^ (-324)` up to `x`, as a count. -/
def floor (x : Number) : Nat := x.units * Nat.pow 10 Decimal.point / Nat.pow 2 1074

/-- Whether `x` lies nearer to `n` than to `m`, its neighbours below and above in multiples of `10 ^ (-324)`. -/
def nearer (x : Number) (n m : Nat) : Bool := 2 * (x.units * Nat.pow 10 Decimal.point) < (n + m) * Nat.pow 2 1074

/-- The neighbour of `x` on the grid of `10 ^ j` that rounds to `x`: of two the nearer, of equally near ones the
larger. -/
def onGrid? (x : Number) (j : Nat) : Option Decimal :=
  let c := x.floor / Nat.pow 10 j
  let n := c * Nat.pow 10 j
  let m := (c + 1) * Nat.pow 10 j
  match x.roundsTo n, x.roundsTo m with
  | true, true => some ⟨if x.nearer n m then c else c + 1, j⟩
  | true, false => some ⟨c, j⟩
  | false, true => some ⟨c + 1, j⟩
  | false, false => none

/-- The first hit on the grids of `10 ^ j` and finer. -/
def search (x : Number) : Nat → Decimal
  | 0 => (x.onGrid? 0).getD ⟨x.floor, 0⟩
  | j + 1 => (x.onGrid? (j + 1)).getD (x.search j)

/-- The shortest decimal that reads back as a positive finite `x`: the hit on the coarsest grid. -/
def shortest (x : Number) : Decimal := x.search (x.floor.log2 / 3 + 1)

/-- Decimal text: positional at every size, signed also for a negative zero. -/
def text (x : Number) : String :=
  if x.isNaN then "NaN"
  else
    let size :=
      if x.magnitude = infinity then ['i', 'n', 'f']
      else if x.magnitude = 0 then ['0']
      else x.shortest.text
    String.ofList (if x.isNegative then '-' :: size else size)

end Number

end Treewalk
