/- Numbers of the language: doubles kept as bit patterns, so that order and size are facts of arithmetic. -/

namespace Treewalk

/-- A double by its pattern: a sign, eleven exponent bits, fifty-two fraction bits. -/
structure Number where
  bits : UInt64
deriving DecidableEq, Inhabited

namespace Number

/-- The pattern without its sign. -/
def magnitude (x : Number) : Nat := x.bits.toNat % Nat.pow 2 63

/-- The magnitude of the infinities; larger ones are no numbers. -/
def infinity : Nat := 2047 * Nat.pow 2 52

def isNegative (x : Number) : Bool := Nat.pow 2 63 ≤ x.bits.toNat

def isNaN (x : Number) : Bool := infinity < x.magnitude

def ofMagnitude (m : Nat) : Number := ⟨UInt64.ofNat m⟩

def neg (x : Number) : Number := ⟨x.bits ^^^ 0x8000000000000000⟩

/-- Neighbours of `x` away from zero lie `2 ^ step` units off; a unit is the least positive double. -/
def step (x : Number) : Nat := x.magnitude / Nat.pow 2 52 - 1

/-- The size of a finite number in units of `2 ^ (-1074)`, exactly. -/
def units (x : Number) : Nat :=
  if x.magnitude < Nat.pow 2 52 then x.magnitude
  else (Nat.pow 2 52 + x.magnitude % Nat.pow 2 52) * Nat.pow 2 x.step

/-- Position in the numeric order; both zeros share one, and what is no number has none. -/
def rank? (x : Number) : Option Int :=
  if x.isNaN then none else some (if x.isNegative then -x.magnitude else x.magnitude)

/-- Numeric equality: zeros agree whatever their sign, and NaN agrees with nothing. -/
def agrees (x y : Number) : Bool :=
  match x.rank?, y.rank? with
  | some i, some j => i == j
  | _, _ => false

def less (x y : Number) : Bool :=
  match x.rank?, y.rank? with
  | some i, some j => i < j
  | _, _ => false

def lessEq (x y : Number) : Bool :=
  match x.rank?, y.rank? with
  | some i, some j => i ≤ j
  | _, _ => false

def toFloat (x : Number) : Float := Float.ofBits x.bits

def ofFloat (f : Float) : Number := ⟨f.toBits⟩

def add (x y : Number) : Number := ofFloat (x.toFloat + y.toFloat)

def sub (x y : Number) : Number := ofFloat (x.toFloat - y.toFloat)

def mul (x y : Number) : Number := ofFloat (x.toFloat * y.toFloat)

def div (x y : Number) : Number := ofFloat (x.toFloat / y.toFloat)

end Number

end Treewalk
