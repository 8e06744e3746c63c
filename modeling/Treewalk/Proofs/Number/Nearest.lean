import Mathlib.Tactic.FieldSimp
import Treewalk.Proofs.Number.Rounding

/- Numbers as rationals: the one that a ratio is read as is the nearest of all finite ones, of two equally near ones the
even, and an infinity from half a step above the largest. -/

namespace Treewalk.Number

theorem cast_halfway (m : Nat) : (halfway m : ℚ) = 2 * (unitsAt m + unitsAt (m + 1)) := by
  rw [halfway]
  push_cast
  rfl

section
variable {q : ℚ} {m k : Nat}

/-- What rounds to a magnitude lies at most halfway to any size above it. -/
theorem Near.le_above (h : Near q m) (hk : m < k) :
    2 * q ≤ unitsAt m + unitsAt k ∧ (2 * q = unitsAt m + unitsAt k → m % 2 = 0) := by
  have hstep : (unitsAt (m + 1) : ℚ) ≤ unitsAt k := Nat.cast_le.2 (unitsAt_strictMono.monotone hk)
  have hhalf := cast_halfway m
  have hup := h.upper
  exact ⟨by linarith, fun he => h.upper_even (by linarith)⟩

/-- What rounds to a magnitude lies at least halfway from any size below it. -/
theorem Near.below_le (h : Near q m) (hk : k < m) :
    unitsAt k + unitsAt m ≤ 2 * q ∧ (unitsAt k + unitsAt m = 2 * q → m % 2 = 0) := by
  obtain ⟨j, rfl⟩ : ∃ j, m = j + 1 := ⟨m - 1, by omega⟩
  have hstep : (unitsAt k : ℚ) ≤ unitsAt j := Nat.cast_le.2 (unitsAt_strictMono.monotone (Nat.le_of_lt_succ hk))
  have hhalf := cast_halfway j
  have hlow := h.lower rfl
  exact ⟨by linarith, fun he => h.lower_even rfl (by linarith)⟩

/-- No magnitude is nearer than the one rounded to. -/
theorem Near.abs_sub_le (h : Near q m) (k : Nat) : |unitsAt m - q| ≤ |unitsAt k - q| := by
  rcases Nat.lt_trichotomy k m with hk | rfl | hk
  · have hlt : (unitsAt k : ℚ) < unitsAt m := Nat.cast_lt.2 (unitsAt_strictMono hk)
    have hlow := (h.below_le hk).1
    exact (abs_le.2 ⟨by linarith, by linarith⟩).trans (neg_le_abs _)
  · exact le_rfl
  · have hlt : (unitsAt m : ℚ) < unitsAt k := Nat.cast_lt.2 (unitsAt_strictMono hk)
    have hup := (h.le_above hk).1
    exact (abs_le.2 ⟨by linarith, by linarith⟩).trans (le_abs_self _)

/-- Of two equally near magnitudes the even is rounded to. -/
theorem Near.even_of_abs_sub_eq (h : Near q m) (he : |unitsAt m - q| = |unitsAt k - q|) (hk : k ≠ m) :
    m % 2 = 0 := by
  have hsum : (unitsAt m : ℚ) + unitsAt k = 2 * q := by
    rcases abs_eq_abs.1 he with he | he
    · exact absurd (unitsAt_strictMono.injective (Nat.cast_injective (sub_left_injective he))).symm hk
    · linarith
  rcases Nat.lt_or_gt_of_ne hk with hk | hk
  · exact (h.below_le hk).2 (by linarith)
  · exact (h.le_above hk).2 hsum.symm

end

/-- The exact value of a finite number: fifty-two bits after the point, and a one before it except at the least
exponent. -/
def value (x : Number) : ℚ :=
  let exponent : Nat := x.magnitude / 2 ^ 52
  let fraction : ℚ := (x.magnitude % 2 ^ 52 : Nat) / 2 ^ 52
  let size := if exponent = 0 then fraction * 2 ^ (-1022 : ℤ) else (1 + fraction) * 2 ^ ((exponent : ℤ) - 1023)
  if x.isNegative then -size else size

/-- The number that a size rounds to: no finite one is nearer, of two equally near ones it is the even, and sizes from
half a step above the largest on go to infinity. -/
inductive Rounded (q : ℚ) : Number → Prop
  | finite {x : Number} (bounded : q < 2 ^ 1024 - 2 ^ 970) (finite : x.magnitude < infinity)
      (nearest : ∀ y : Number, y.magnitude < infinity → |x.value - q| ≤ |y.value - q|)
      (even : ∀ y : Number, y.magnitude < infinity → |x.value - q| = |y.value - q| → y.value ≠ x.value →
        x.magnitude % 2 = 0) : Rounded q x
  | infinite (large : 2 ^ 1024 - 2 ^ 970 ≤ q) : Rounded q (ofMagnitude infinity)

theorem magnitude_ofMagnitude {m : Nat} (h : m ≤ infinity) : (ofMagnitude m).magnitude = m := by
  have hlt : infinity < 2 ^ 63 := by decide
  change m % 2 ^ 64 % 2 ^ 63 = m
  omega

theorem isNegative_ofMagnitude {m : Nat} (h : m ≤ infinity) : (ofMagnitude m).isNegative = false := by
  have hlt : infinity < 2 ^ 63 := by decide
  refine decide_eq_false ?_
  change ¬2 ^ 63 ≤ m % 2 ^ 64
  omega

/-- A number without a sign is its magnitude. -/
theorem eq_ofMagnitude {x : Number} (h : x.isNegative = false) : x = ofMagnitude x.magnitude := by
  have hlt : x.bits.toNat < 2 ^ 63 := Nat.not_le.1 (of_decide_eq_false h)
  have hm : x.magnitude = x.bits.toNat := Nat.mod_eq_of_lt hlt
  rw [ofMagnitude, hm, UInt64.ofNat_toNat]

/-- Least units lie at `2 ^ (-1074)`. -/
theorem value_eq (x : Number) :
    x.value =
      if x.isNegative then -((unitsAt x.magnitude : ℚ) / 2 ^ 1074) else (unitsAt x.magnitude : ℚ) / 2 ^ 1074 := by
  have hpoint : (2 : ℚ) ^ 1074 = 2 ^ 52 * 2 ^ 1022 := by rw [← pow_add]
  have hleast : (2 : ℚ) ^ (-1022 : ℤ) = (2 ^ 1022)⁻¹ := by rw [zpow_neg]; rfl
  have hsize : (unitsAt x.magnitude : ℚ) / 2 ^ 1074 =
      if x.magnitude / 2 ^ 52 = 0 then ((x.magnitude % 2 ^ 52 : Nat) : ℚ) / 2 ^ 52 * 2 ^ (-1022 : ℤ)
      else (1 + ((x.magnitude % 2 ^ 52 : Nat) : ℚ) / 2 ^ 52) * 2 ^ (((x.magnitude / 2 ^ 52 : Nat) : ℤ) - 1023) := by
    rw [hpoint]
    generalize x.magnitude = m
    split
    · next he =>
        rw [unitsAt, if_pos (by omega), Nat.mod_eq_of_lt (by omega), hleast]
        field_simp
    · next he =>
        obtain ⟨e, he⟩ : ∃ e, m / 2 ^ 52 = e + 1 := ⟨m / 2 ^ 52 - 1, by omega⟩
        rw [unitsAt, if_neg (by omega), he]
        have hexp : (((e + 1 : Nat) : ℤ) - 1023) = (e : ℤ) + (-1022) := by omega
        rw [hexp, zpow_add₀ two_ne_zero, hleast, zpow_natCast, Nat.add_sub_cancel]
        push_cast
        field_simp
        norm_num
  rw [hsize]
  rfl

/-- Distances between finite numbers and a size, in least units. -/
theorem abs_value_sub (x : Number) (q : ℚ) :
    |x.value - q| * 2 ^ 1074 =
      if x.isNegative then |-(unitsAt x.magnitude : ℚ) - q * 2 ^ 1074| else |unitsAt x.magnitude - q * 2 ^ 1074| := by
  have hscale : (0 : ℚ) < 2 ^ 1074 := pow_pos two_pos _
  rw [value_eq]
  generalize (2 : ℚ) ^ 1074 = scale at hscale ⊢
  have hmul : ∀ a : ℚ, |a / scale - q| * scale = |a - q * scale| := fun a => by
    rw [← abs_of_pos hscale, ← abs_mul, abs_of_pos hscale, sub_mul, div_mul_cancel₀ _ hscale.ne']
  split
  · rw [← neg_div, hmul]
  · rw [hmul]

section
variable {q : ℚ} {m : Nat}

theorem halfway_infinity_rat : (halfway (infinity - 1) : ℚ) = 4 * ((2 ^ 1024 - 2 ^ 970) * 2 ^ 1074) := by
  have h : 2 ^ 2044 ≤ 2 ^ 2098 := Nat.pow_le_pow_right Nat.two_pos (by decide)
  rw [halfway_infinity, Nat.cast_mul, Nat.cast_sub h, sub_mul, ← pow_add, ← pow_add]
  push_cast
  rfl

/-- What rounds to a finite magnitude lies below half a step above the largest, as the largest is odd. -/
theorem Near.bounded (h : Near (q * 2 ^ 1074) m) (hm : m < infinity) : q < 2 ^ 1024 - 2 ^ 970 := by
  have hscale : (0 : ℚ) < 2 ^ 1074 := pow_pos two_pos _
  have hlast : (halfway m : ℚ) ≤ halfway (infinity - 1) :=
    Nat.cast_le.2 (halfway_strictMono.monotone (Nat.le_sub_one_of_lt hm))
  have hlimit := halfway_infinity_rat
  have hup := h.upper
  have heven := h.upper_even
  generalize (2 : ℚ) ^ 1024 - 2 ^ 970 = limit, (2 : ℚ) ^ 1074 = scale at hscale hlimit hup heven ⊢
  refine lt_of_mul_lt_mul_right ?_ hscale.le
  refine lt_of_le_of_ne (by linarith) fun he => ?_
  have heq : (halfway m : ℚ) = halfway (infinity - 1) := by linarith
  have hmax : m = infinity - 1 := halfway_strictMono.injective (Nat.cast_injective heq)
  have heven := heven (by linarith)
  rw [hmax] at heven
  exact absurd heven (by decide)

/-- What rounds to no finite magnitude lies half a step or more above the largest. -/
theorem Near.large (h : Near (q * 2 ^ 1074) m) (hm : infinity ≤ m) : 2 ^ 1024 - 2 ^ 970 ≤ q := by
  have hscale : (0 : ℚ) < 2 ^ 1074 := pow_pos two_pos _
  have hpos : 0 < infinity := by decide
  obtain ⟨k, rfl⟩ : ∃ k, m = k + 1 := ⟨m - 1, by omega⟩
  have hlast : (halfway (infinity - 1) : ℚ) ≤ halfway k := Nat.cast_le.2 (halfway_strictMono.monotone (by omega))
  have hlimit := halfway_infinity_rat
  have hlow := h.lower rfl
  generalize (2 : ℚ) ^ 1024 - 2 ^ 970 = limit, (2 : ℚ) ^ 1074 = scale at hscale hlimit hlow ⊢
  exact le_of_mul_le_mul_right (by linarith) hscale

/-- Sizes of the other sign are no nearer. -/
theorem Near.abs_sub_le_neg (h : Near q m) (hq : 0 ≤ q) (k : Nat) : |unitsAt m - q| ≤ |-(unitsAt k : ℚ) - q| := by
  have hk : (0 : ℚ) ≤ unitsAt k := Nat.cast_nonneg _
  refine (h.abs_sub_le k).trans ?_
  rw [← neg_add', abs_neg, abs_of_nonneg (add_nonneg hk hq)]
  exact abs_le.2 ⟨by linarith, by linarith⟩

/-- Of two equally near sizes of either sign the even is rounded to, unless both are zero. -/
theorem Near.even_of_abs_sub_eq_neg (h : Near q m) (hq : 0 ≤ q) (he : |unitsAt m - q| = |-(unitsAt k : ℚ) - q|)
    (hne : -(unitsAt k : ℚ) ≠ unitsAt m) : m % 2 = 0 := by
  have hk : (0 : ℚ) ≤ unitsAt k := Nat.cast_nonneg _
  have hle := h.abs_sub_le k
  rw [← neg_add', abs_neg, abs_of_nonneg (add_nonneg hk hq)] at he
  rcases le_total (unitsAt k : ℚ) q with hkq | hqk
  · have hk0 : (unitsAt k : ℚ) = 0 := by
      rw [abs_sub_comm (unitsAt k : ℚ), abs_of_nonneg (sub_nonneg.2 hkq)] at hle
      linarith
    refine h.even_of_abs_sub_eq (k := k) ?_ fun hkm => hne (by rw [← hkm, hk0, neg_zero])
    rw [he, hk0, zero_add, zero_sub, abs_neg, abs_of_nonneg hq]
  · have hq0 : q = (unitsAt 0 : Nat) := by
      rw [abs_of_nonneg (sub_nonneg.2 hqk)] at hle
      have hzero : ((unitsAt 0 : Nat) : ℚ) = 0 := Nat.cast_zero
      linarith
    rw [hq0] at h
    rw [h.unique (near_unitsAt 0)]

theorem Near.rounded_finite (h : Near (q * 2 ^ 1074) m) (hq : 0 ≤ q) (hm : m < infinity) :
    Rounded q (ofMagnitude m) := by
  have hmag := magnitude_ofMagnitude hm.le
  have hscale : (0 : ℚ) < 2 ^ 1074 := pow_pos two_pos _
  have hbound := h.bounded hm
  have hvalue : (ofMagnitude m).value = unitsAt m / 2 ^ 1074 := by
    rw [value_eq, isNegative_ofMagnitude hm.le, hmag]
    rfl
  have hself : |(ofMagnitude m).value - q| * 2 ^ 1074 = |unitsAt m - q * 2 ^ 1074| := by
    rw [abs_value_sub, isNegative_ofMagnitude hm.le, hmag]
    rfl
  have hdist := fun y => abs_value_sub y q
  have hvalues := value_eq
  generalize (2 : ℚ) ^ 1074 = scale at h hscale hself hvalue hdist hvalues
  have hQ : 0 ≤ q * scale := mul_nonneg hq hscale.le
  refine .finite hbound (by rwa [hmag]) (fun y _ => ?_) (fun y _ he hne => ?_)
  · refine le_of_mul_le_mul_right ?_ hscale
    rw [hself, hdist]
    split
    · exact h.abs_sub_le_neg hQ y.magnitude
    · exact h.abs_sub_le y.magnitude
  · have he' := congrArg (· * scale) he
    simp only [hself, hdist] at he'
    rw [hvalues, hvalue] at hne
    rw [hmag]
    split at he'
    · next hy =>
        rw [if_pos hy, ← neg_div] at hne
        exact h.even_of_abs_sub_eq_neg hQ he' fun h0 => hne (by rw [h0])
    · next hy =>
        rw [if_neg hy] at hne
        exact h.even_of_abs_sub_eq he' fun h0 => hne (by rw [h0])

theorem Near.rounded (h : Near (q * 2 ^ 1074) m) (hq : 0 ≤ q) : Rounded q (ofMagnitude (min m infinity)) := by
  rcases Nat.lt_or_ge m infinity with hm | hm
  · rw [Nat.min_eq_left hm.le]
    exact h.rounded_finite hq hm
  · rw [Nat.min_eq_right hm]
    exact .infinite (h.large hm)

end

/-- What a ratio is read as has no sign and is a number. -/
theorem nearest_range (n d : Nat) : (nearest n d).magnitude ≤ infinity ∧ (nearest n d).isNegative = false := by
  obtain ⟨m, hm⟩ : ∃ m, nearest n d = ofMagnitude (min m infinity) := ⟨_, rfl⟩
  rw [hm, magnitude_ofMagnitude (Nat.min_le_right m infinity)]
  exact ⟨Nat.min_le_right m infinity, isNegative_ofMagnitude (Nat.min_le_right m infinity)⟩

section
variable (n : Nat) {d : Nat} (hd : 0 < d)

include hd

/-- A ratio is read as the magnitude that it rounds to, if that is finite. -/
theorem exists_near : ∃ m, Near ((n : ℚ) / d * 2 ^ 1074) m ∧ nearest n d = ofMagnitude (min m infinity) := by
  have h := near_mantissa (n * 2 ^ 1074) hd
  rw [Nat.cast_mul, Nat.cast_pow, Nat.cast_ofNat, mul_div_right_comm] at h
  exact ⟨_, h, rfl⟩

theorem rounded_nearest : Rounded ((n : ℚ) / d) (nearest n d) := by
  obtain ⟨m, hnear, he⟩ := exists_near n hd
  rw [he]
  exact hnear.rounded (div_nonneg (Nat.cast_nonneg n) (Nat.cast_nonneg d))

theorem nearest_eq_iff {m : Nat} (hm : m < infinity) :
    nearest n d = ofMagnitude m ↔ Near ((n : ℚ) / d * 2 ^ 1074) m := by
  obtain ⟨k, hnear, he⟩ := exists_near n hd
  rw [he]
  constructor
  · intro h
    have hk := congrArg magnitude h
    rw [magnitude_ofMagnitude (Nat.min_le_right k infinity), magnitude_ofMagnitude hm.le] at hk
    obtain rfl : k = m := by omega
    exact hnear
  · intro h
    rw [hnear.unique h, Nat.min_eq_left hm.le]

end

end Treewalk.Number
