import Mathlib.Order.Monotone.Basic
import Mathlib.Tactic.Ring
import Treewalk.Number.Decimal

/- Sizes of numbers: how many units the magnitudes count, one after another, and the points halfway between them. -/

namespace Treewalk.Number

/-- The size at a magnitude, in units; those of the infinities and beyond go on in the same way. -/
def unitsAt (m : Nat) : Nat := if m < 2 ^ 52 then m else (2 ^ 52 + m % 2 ^ 52) * 2 ^ (m / 2 ^ 52 - 1)

/-- The step from a magnitude to the next is two to this many units. -/
def stepAt (m : Nat) : Nat := m / 2 ^ 52 - 1

theorem units_eq (x : Number) : x.units = unitsAt x.magnitude := rfl

theorem step_eq (x : Number) : x.step = stepAt x.magnitude := rfl

/-- Mantissas of a step, the one that carries into the next step included. -/
theorem unitsAt_mantissa {t r : Nat} (hr : r ≤ 2 ^ 53) (hn : t = 0 ∨ 2 ^ 52 ≤ r) :
    unitsAt (t * 2 ^ 52 + r) = r * 2 ^ t := by
  unfold unitsAt
  by_cases hlow : r < 2 ^ 52
  · obtain rfl : t = 0 := hn.resolve_right (by omega)
    rw [if_pos (by omega)]
    omega
  rw [if_neg (by omega)]
  by_cases hcarry : r = 2 ^ 53
  · have hq : (t * 2 ^ 52 + r) / 2 ^ 52 - 1 = t + 1 := by omega
    have hm : (t * 2 ^ 52 + r) % 2 ^ 52 = 0 := by omega
    rw [hq, hm, hcarry]
    ring
  · have hq : (t * 2 ^ 52 + r) / 2 ^ 52 - 1 = t := by omega
    have hm : (t * 2 ^ 52 + r) % 2 ^ 52 = r - 2 ^ 52 := by omega
    rw [hq, hm, Nat.add_sub_cancel' (by omega)]

/-- Every magnitude is a step and a mantissa. -/
theorem exists_mantissa (m : Nat) :
    ∃ r, m = stepAt m * 2 ^ 52 + r ∧ r < 2 ^ 53 ∧ (stepAt m = 0 ∨ 2 ^ 52 ≤ r) :=
  ⟨m - stepAt m * 2 ^ 52, by unfold stepAt; omega, by unfold stepAt; omega, by unfold stepAt; omega⟩

theorem unitsAt_succ (m : Nat) : unitsAt (m + 1) = unitsAt m + 2 ^ stepAt m := by
  obtain ⟨r, hm, hr, hn⟩ := exists_mantissa m
  generalize stepAt m = t at hm hn ⊢
  subst hm
  rw [Nat.add_assoc, unitsAt_mantissa (Nat.le_of_lt hr) hn, unitsAt_mantissa hr (by omega), Nat.succ_mul]

theorem unitsAt_strictMono : StrictMono unitsAt :=
  strictMono_nat_of_lt_succ fun m => by
    rw [unitsAt_succ]
    exact Nat.lt_add_of_pos_right (Nat.two_pow_pos _)

/-- The point halfway between a magnitude and the next, in quarters of a unit. -/
def halfway (m : Nat) : Nat := 2 * (unitsAt m + unitsAt (m + 1))

theorem halfway_eq (m : Nat) : halfway m = 4 * unitsAt m + 2 * 2 ^ stepAt m := by
  rw [halfway, unitsAt_succ]
  omega

theorem halfway_add (m : Nat) : halfway m + 2 * 2 ^ stepAt m = 4 * unitsAt (m + 1) := by
  rw [halfway, unitsAt_succ]
  omega

theorem halfway_strictMono : StrictMono halfway := fun _ _ h =>
  Nat.mul_lt_mul_of_pos_left (Nat.add_lt_add (unitsAt_strictMono h) (unitsAt_strictMono (Nat.succ_lt_succ h)))
    Nat.two_pos

theorem upperEnd_eq (x : Number) : x.upperEnd = halfway x.magnitude := by
  rw [halfway_eq]
  rfl

/-- Below a power of two the step is half as long, as it leads up to it. -/
theorem lowerEnd_eq {x : Number} {m : Nat} (h : x.magnitude = m + 1) : x.lowerEnd = halfway m := by
  change 4 * x.units - (if x.magnitude % 2 ^ 52 = 0 ∧ 0 < x.step then 2 ^ x.step else 2 * 2 ^ x.step) = _
  rw [halfway, units_eq, step_eq, h, unitsAt_succ]
  split
  · next hp =>
      have hs : stepAt (m + 1) = stepAt m + 1 := by
        unfold stepAt at hp ⊢
        omega
      rw [hs, Nat.pow_succ]
      omega
  · next hp =>
      have hs : stepAt (m + 1) = stepAt m := by
        unfold stepAt at hp ⊢
        omega
      rw [hs]
      omega

/-- Half a step below the infinities lies the point from which sizes round to them. -/
theorem halfway_infinity : halfway (infinity - 1) = 4 * (2 ^ 2098 - 2 ^ 2044) := by
  have hlast : infinity - 1 = 2045 * 2 ^ 52 + (2 ^ 53 - 1) := by decide
  have hnext : infinity - 1 + 1 = 2046 * 2 ^ 52 + 2 ^ 52 := by decide
  rw [halfway, hnext, hlast, unitsAt_mantissa (by decide) (by decide), unitsAt_mantissa (by decide) (by decide)]
  decide +kernel

end Treewalk.Number
