import Mathlib.Algebra.Order.Field.Basic
import Mathlib.Data.Rat.Cast.Order
import Mathlib.Tactic.Linarith
import Treewalk.Proofs.Number.Size

/- Rounding: a ratio rounds to the magnitude that it lies near to, between the points halfway to the magnitudes below
and above; such a point itself belongs to the even of the two. -/

namespace Treewalk

/-- An integer is at most half from the ratio it was rounded from, and just half only if it is even. -/
theorem roundEven_bounds (n : Nat) {d : Nat} (hd : 0 < d) :
    2 * n ≤ 2 * (roundEven n d * d) + d ∧ (2 * n = 2 * (roundEven n d * d) + d → roundEven n d % 2 = 0) ∧
      2 * (roundEven n d * d) ≤ 2 * n + d ∧ (2 * (roundEven n d * d) = 2 * n + d → roundEven n d % 2 = 0) := by
  have hn := Nat.div_add_mod' n d
  have hr := Nat.mod_lt n hd
  unfold roundEven
  dsimp only
  generalize n / d = q, n % d = r at hn hr ⊢
  split
  · omega
  · rw [Nat.add_one_mul q d]
    omega

namespace Number

/-- So many units round to the magnitude `m`. -/
structure Near (q : ℚ) (m : Nat) : Prop where
  upper : 4 * q ≤ halfway m
  upper_even : 4 * q = halfway m → m % 2 = 0
  lower {k : Nat} (hk : m = k + 1) : halfway k ≤ 4 * q
  lower_even {k : Nat} (hk : m = k + 1) : halfway k = 4 * q → m % 2 = 0

/-- The same for a ratio, without division. -/
theorem near_div_iff {u d m : Nat} (hd : 0 < d) :
    Near ((u : ℚ) / d) m ↔
      4 * u ≤ halfway m * d ∧ (4 * u = halfway m * d → m % 2 = 0) ∧
        ∀ k, m = k + 1 → halfway k * d ≤ 4 * u ∧ (halfway k * d = 4 * u → m % 2 = 0) := by
  have hd' : (0 : ℚ) < d := Nat.cast_pos.2 hd
  have le_iff : ∀ h : Nat, 4 * ((u : ℚ) / d) ≤ h ↔ 4 * u ≤ h * d := fun h => by
    rw [← mul_div_assoc, div_le_iff₀ hd']
    exact_mod_cast Iff.rfl
  have ge_iff : ∀ h : Nat, (h : ℚ) ≤ 4 * ((u : ℚ) / d) ↔ h * d ≤ 4 * u := fun h => by
    rw [← mul_div_assoc, le_div_iff₀ hd']
    exact_mod_cast Iff.rfl
  have eq_iff : ∀ h : Nat, (h : ℚ) = 4 * ((u : ℚ) / d) ↔ h * d = 4 * u := fun h => by
    rw [← mul_div_assoc, eq_div_iff hd'.ne']
    exact_mod_cast Iff.rfl
  constructor
  · intro h
    refine ⟨(le_iff _).1 h.upper, fun he => h.upper_even ((eq_iff _).2 he.symm).symm, fun k hk => ?_⟩
    exact ⟨(ge_iff _).1 (h.lower hk), fun he => h.lower_even hk ((eq_iff _).2 he)⟩
  · rintro ⟨hu, hue, hl⟩
    exact ⟨(le_iff _).2 hu, fun he => hue ((eq_iff _).1 he.symm).symm, fun hk => (ge_iff _).2 (hl _ hk).1,
      fun hk he => (hl _ hk).2 ((eq_iff _).1 he)⟩

section
variable {q q' : ℚ} {m m' : Nat}

theorem Near.lt_of_lt (h : Near q m) (h' : Near q m') : ¬m < m' := by
  intro hm
  obtain ⟨k, rfl⟩ : ∃ k, m' = k + 1 := ⟨m' - 1, by omega⟩
  have hu := h.upper
  have hl := h'.lower rfl
  have hmk : m = k := by
    by_contra hne
    have hlt : (halfway m : ℚ) < halfway k := Nat.cast_lt.2 (halfway_strictMono (by omega))
    linarith
  subst hmk
  have he := le_antisymm hu hl
  have h₁ := h.upper_even he
  have h₂ := h'.lower_even rfl he.symm
  omega

/-- A size rounds to one magnitude only. -/
theorem Near.unique (h : Near q m) (h' : Near q m') : m = m' :=
  Nat.le_antisymm (Nat.le_of_not_lt (h'.lt_of_lt h)) (Nat.le_of_not_lt (h.lt_of_lt h'))

/-- What lies between sizes that round to a magnitude does so too. -/
theorem Near.between {a b c : ℚ} (ha : Near a m) (hc : Near c m) (hab : a ≤ b) (hbc : b ≤ c) : Near b m where
  upper := by linarith [hc.upper]
  upper_even he := hc.upper_even (by linarith [hc.upper])
  lower hk := by linarith [ha.lower hk]
  lower_even hk he := ha.lower_even hk (by linarith [ha.lower hk])

theorem unitsAt_lt_halfway (m : Nat) : 4 * unitsAt m < halfway m := by
  have h := unitsAt_strictMono (Nat.lt_succ_self m)
  rw [halfway]
  simp only [Nat.succ_eq_add_one] at h
  omega

theorem halfway_lt_unitsAt (m : Nat) : halfway m < 4 * unitsAt (m + 1) := by
  have h := unitsAt_strictMono (Nat.lt_succ_self m)
  rw [halfway]
  simp only [Nat.succ_eq_add_one] at h
  omega

/-- A size rounds to itself. -/
theorem near_unitsAt (m : Nat) : Near (unitsAt m) m := by
  have h := near_div_iff (u := unitsAt m) (m := m) Nat.one_pos
  rw [Nat.cast_one, div_one] at h
  have hu := unitsAt_lt_halfway m
  refine h.2 ⟨by omega, fun he => by omega, fun k hk => ?_⟩
  have hl := halfway_lt_unitsAt k
  rw [hk]
  exact ⟨by omega, fun he => by omega⟩

end

/-- The step that a ratio is rounded at holds it in fifty-three bits before the point; only at the least step may it
take fewer. -/
theorem step_bounds (u : Nat) {d : Nat} (hd : 0 < d) :
    u < 2 ^ 53 * (d * 2 ^ ((u / d).log2 - 52)) ∧
      ((u / d).log2 - 52 = 0 ∨ 2 ^ 52 * (d * 2 ^ ((u / d).log2 - 52)) ≤ u) := by
  generalize ht : (u / d).log2 - 52 = t
  constructor
  · have hlog : u / d < 2 ^ (t + 53) :=
      Nat.lt_of_lt_of_le Nat.lt_log2_self (Nat.pow_le_pow_right Nat.two_pos (by omega))
    calc u < 2 ^ (t + 53) * d := (Nat.div_lt_iff_lt_mul hd).1 hlog
      _ = 2 ^ 53 * (d * 2 ^ t) := by ring
  · rw [or_iff_not_imp_left]
    intro hpos
    have hne : u / d ≠ 0 := fun h0 => by
      rw [h0, Nat.log2_zero] at ht
      omega
    have hlog : 2 ^ (t + 52) ≤ u / d := (Nat.le_log2 hne).1 (by omega)
    calc 2 ^ 52 * (d * 2 ^ t) = 2 ^ (t + 52) * d := by ring
      _ ≤ u := (Nat.le_div_iff_mul_le hd).1 hlog

/-- What fills its step rounds to a mantissa that fills it, if not the one that carries into the next. -/
theorem roundEven_mantissa {u d t : Nat} (hd : 0 < d) (hbelow : u < 2 ^ 53 * d) (habove : t = 0 ∨ 2 ^ 52 * d ≤ u) :
    roundEven u d ≤ 2 ^ 53 ∧ (t = 0 ∨ 2 ^ 52 ≤ roundEven u d) := by
  obtain ⟨hu, -, hl, -⟩ := roundEven_bounds u hd
  generalize roundEven u d = r at hu hl ⊢
  constructor
  · by_contra hr
    have : (2 ^ 53 + 1) * d ≤ r * d := Nat.mul_le_mul_right _ (by omega)
    omega
  · refine habove.imp_right fun habove => ?_
    by_contra hr
    have : (r + 1) * d ≤ 2 ^ 52 * d := Nat.mul_le_mul_right _ (by omega)
    rw [Nat.succ_mul] at this
    omega

/-- The mantissa that a ratio rounds to at its step, though it may carry into the next. -/
theorem near_mantissa (u : Nat) {d : Nat} (hd : 0 < d) :
    Near ((u : ℚ) / d)
      (((u / d).log2 - 52) * 2 ^ 52 + roundEven u (d * 2 ^ ((u / d).log2 - 52))) := by
  obtain ⟨hbelow, habove⟩ := step_bounds u hd
  generalize (u / d).log2 - 52 = t at hbelow habove ⊢
  have hD : 0 < d * 2 ^ t := Nat.mul_pos hd (Nat.two_pow_pos t)
  obtain ⟨hu, hue, hl, hle⟩ := roundEven_bounds u hD
  obtain ⟨hr, hn⟩ := roundEven_mantissa hD hbelow habove
  generalize roundEven u (d * 2 ^ t) = r at hu hue hl hle hr hn ⊢
  have hm : unitsAt (t * 2 ^ 52 + r) * d = r * (d * 2 ^ t) := by
    rw [unitsAt_mantissa hr hn, Nat.mul_assoc, Nat.mul_comm d]
  generalize hmag : t * 2 ^ 52 + r = m at hm ⊢
  rw [near_div_iff hd]
  have hup : halfway m * d = 4 * (unitsAt m * d) + 2 * (2 ^ stepAt m * d) := by
    rw [halfway_eq]
    ring
  -- A mantissa that carries has a longer step above it.
  have hlong : d * 2 ^ t ≤ 2 ^ stepAt m * d := by
    rw [Nat.mul_comm]
    exact Nat.mul_le_mul_right d (Nat.pow_le_pow_right Nat.two_pos (by unfold stepAt; omega))
  refine ⟨by omega, fun he => ?_, fun k hk => ?_⟩
  · have := hue (by omega)
    omega
  · have hdown : halfway k * d + 2 * (2 ^ stepAt k * d) = 4 * (unitsAt m * d) := by
      rw [hk, ← Nat.mul_assoc 4, ← halfway_add]
      ring
    by_cases hs : stepAt k = t
    · rw [hs, Nat.mul_comm (2 ^ t)] at hdown
      refine ⟨by omega, fun he => ?_⟩
      have := hle (by omega)
      omega
    · -- The least mantissa of a step has a shorter step below it, but the ratio does not lie there.
      have hleast : r = 2 ^ 52 ∧ t ≠ 0 := by
        unfold stepAt at hs
        omega
      have hshort : 0 < 2 ^ stepAt k * d := Nat.mul_pos (Nat.two_pow_pos _) hd
      have hge := habove.resolve_left hleast.2
      rw [← hleast.1] at hge
      omega

end Number

end Treewalk
