import Treewalk.Proofs.Number.Nearest

/- The decimal of a number is the shortest that reads back: it lies on the coarsest grid of powers of ten with a point
that rounds to the number. -/

namespace Treewalk.Number

/-- A multiple of `10 ^ (-324)` in least units. -/
def gridPoint (n : Nat) : ℚ := ((n * 2 ^ 1074 : Nat) : ℚ) / (10 ^ 324 : Nat)

theorem gridPoint_mono {n n' : Nat} (h : n ≤ n') : gridPoint n ≤ gridPoint n' :=
  div_le_div_of_nonneg_right (Nat.cast_le.2 (Nat.mul_le_mul_right _ h)) (Nat.cast_nonneg _)

variable {x : Number}

theorem roundsTo_iff (hx : 0 < x.magnitude) (n : Nat) : x.roundsTo n ↔ Near (gridPoint n) x.magnitude := by
  obtain ⟨k, hk⟩ : ∃ k, x.magnitude = k + 1 := ⟨x.magnitude - 1, by omega⟩
  have hv : n * 2 ^ 1076 = 4 * (n * 2 ^ 1074) := by rw [Nat.pow_add 2 1074 2, Nat.mul_comm 4, Nat.mul_assoc]
  have hr : x.roundsTo n =
      if x.magnitude % 2 = 0 then
        decide (halfway k * 10 ^ 324 ≤ 4 * (n * 2 ^ 1074) ∧ 4 * (n * 2 ^ 1074) ≤ halfway x.magnitude * 10 ^ 324)
      else
        decide (halfway k * 10 ^ 324 < 4 * (n * 2 ^ 1074) ∧ 4 * (n * 2 ^ 1074) < halfway x.magnitude * 10 ^ 324) := by
    rw [← hv, ← upperEnd_eq, ← lowerEnd_eq hk]
    rfl
  have hl : ∀ j, x.magnitude = j + 1 ↔ j = k := fun j => by omega
  rw [hr, gridPoint, near_div_iff (Nat.pow_pos (by decide : 0 < 10))]
  simp only [hl, forall_eq]
  generalize 4 * (n * 2 ^ 1074) = v, halfway k * 10 ^ 324 = low, halfway x.magnitude * 10 ^ 324 = high
  split
  · simp only [decide_eq_true_eq]
    omega
  · simp only [decide_eq_true_eq]
    omega

/-- What lies up to a number on the grid is up to its floor. -/
theorem gridPoint_le_iff (n : Nat) : gridPoint n ≤ unitsAt x.magnitude ↔ n ≤ x.floor := by
  have hd : (0 : ℚ) < (10 ^ 324 : Nat) := Nat.cast_pos.2 (Nat.pow_pos (by decide))
  have hf : x.floor = unitsAt x.magnitude * 10 ^ 324 / 2 ^ 1074 := rfl
  rw [gridPoint, div_le_iff₀ hd, hf, Nat.le_div_iff_mul_le (Nat.two_pow_pos _), ← Nat.cast_mul, Nat.cast_le]

/-- The grid is so fine that its first point above a number rounds to it. -/
theorem near_floor_succ (x : Number) : Near (gridPoint (x.floor + 1)) x.magnitude := by
  have hfine : 2 * 2 ^ 1074 < 10 ^ 324 := by decide +kernel
  have hscale : 0 < 2 ^ 1074 := Nat.two_pow_pos _
  have hf : x.floor = unitsAt x.magnitude * 10 ^ 324 / 2 ^ 1074 := rfl
  have hstep : 1 * 10 ^ 324 ≤ 2 ^ stepAt x.magnitude * 10 ^ 324 := Nat.mul_le_mul_right _ (Nat.two_pow_pos _)
  have hhigh : halfway x.magnitude * 10 ^ 324 =
      4 * (unitsAt x.magnitude * 10 ^ 324) + 2 * (2 ^ stepAt x.magnitude * 10 ^ 324) := by
    rw [halfway_eq, Nat.add_mul, Nat.mul_assoc, Nat.mul_assoc]
  have hlow : ∀ k, x.magnitude = k + 1 → halfway k * 10 ^ 324 ≤ 4 * (unitsAt x.magnitude * 10 ^ 324) := by
    intro k hk
    rw [← Nat.mul_assoc, hk]
    exact Nat.mul_le_mul_right _ (halfway_lt_unitsAt k).le
  have hle : x.floor * 2 ^ 1074 ≤ unitsAt x.magnitude * 10 ^ 324 := by
    rw [hf]
    exact Nat.div_mul_le_self _ _
  have hlt : unitsAt x.magnitude * 10 ^ 324 < (x.floor + 1) * 2 ^ 1074 := by
    rw [hf]
    exact (Nat.div_lt_iff_lt_mul hscale).1 (Nat.lt_succ_self _)
  rw [gridPoint, near_div_iff (Nat.pow_pos (by decide : 0 < 10))]
  rw [Nat.add_one_mul x.floor] at hlt ⊢
  generalize 2 ^ 1074 = scale, 10 ^ 324 = d at *
  refine ⟨by omega, fun he => by omega, fun k hk => ?_⟩
  have := hlow k hk
  exact ⟨by omega, fun he => by omega⟩

/-- A hit on a grid lies on it and rounds to the number. -/
theorem near_of_onGrid? (hx : 0 < x.magnitude) {j : Nat} {d : Decimal} (h : x.onGrid? j = some d) :
    d.place = j ∧ d.digits ≤ x.floor / 10 ^ j + 1 ∧ Near (gridPoint (d.digits * 10 ^ j)) x.magnitude := by
  unfold onGrid? at h
  dsimp only at h
  split at h
  · next hn hm =>
      obtain rfl := Option.some.inj h
      refine ⟨rfl, ?_, ?_⟩
      · dsimp only
        split
        · exact Nat.le_succ _
        · exact Nat.le_refl _
      · dsimp only
        split
        · exact (roundsTo_iff hx _).1 hn
        · exact (roundsTo_iff hx _).1 hm
  · next hn _ =>
      obtain rfl := Option.some.inj h
      exact ⟨rfl, Nat.le_succ _, (roundsTo_iff hx _).1 hn⟩
  · next _ hm =>
      obtain rfl := Option.some.inj h
      exact ⟨rfl, Nat.le_refl _, (roundsTo_iff hx _).1 hm⟩
  · cases h

/-- A grid with a point that rounds to the number has a hit: one of the neighbours of the number. -/
theorem not_near_of_onGrid? (hx : 0 < x.magnitude) {j : Nat} (h : x.onGrid? j = none) (n : Nat) :
    ¬Near (gridPoint (n * 10 ^ j)) x.magnitude := by
  intro hnear
  have hj : 0 < 10 ^ j := Nat.pow_pos (by decide)
  unfold onGrid? at h
  dsimp only at h
  split at h
  · cases h
  · cases h
  · cases h
  · next hbelow habove =>
      rcases Nat.lt_or_ge (x.floor / 10 ^ j) n with hn | hn
      · -- The neighbour above lies between the number and the point.
        have hfloor : x.floor < (x.floor / 10 ^ j + 1) * 10 ^ j := (Nat.div_lt_iff_lt_mul hj).1 (Nat.lt_succ_self _)
        have hge : unitsAt x.magnitude ≤ gridPoint ((x.floor / 10 ^ j + 1) * 10 ^ j) :=
          le_of_not_ge fun hle => Nat.not_le.2 hfloor ((gridPoint_le_iff _).1 hle)
        have hmid := (near_unitsAt x.magnitude).between hnear hge (gridPoint_mono (Nat.mul_le_mul_right _ hn))
        exact Bool.false_ne_true (habove.symm.trans ((roundsTo_iff hx _).2 hmid))
      · -- The neighbour below lies between the point and the number.
        have hle : gridPoint (x.floor / 10 ^ j * 10 ^ j) ≤ unitsAt x.magnitude :=
          (gridPoint_le_iff _).2 (Nat.div_mul_le_self _ _)
        have hmid := hnear.between (near_unitsAt x.magnitude) (gridPoint_mono (Nat.mul_le_mul_right _ hn)) hle
        exact Bool.false_ne_true (hbelow.symm.trans ((roundsTo_iff hx _).2 hmid))

/-- The search ends at the coarsest grid that is hit. -/
theorem search_spec (hx : 0 < x.magnitude) (start : Nat) :
    ∃ j ≤ start, x.onGrid? j = some (x.search start) ∧ ∀ i, j < i → i ≤ start → x.onGrid? i = none := by
  induction start with
  | zero =>
      refine ⟨0, Nat.le_refl _, ?_, fun i hi hi' => absurd hi (Nat.not_lt.2 hi')⟩
      cases h : x.onGrid? 0 with
      | none =>
          have hnear := near_floor_succ x
          rw [← Nat.mul_one (x.floor + 1)] at hnear
          exact absurd hnear (not_near_of_onGrid? hx h _)
      | some d => rw [search, h, Option.getD_some]
  | succ start ih =>
      cases h : x.onGrid? (start + 1) with
      | none =>
          obtain ⟨j, hj, hd, hnone⟩ := ih
          refine ⟨j, Nat.le_succ_of_le hj, by rw [search, h, Option.getD_none, hd], fun i hi hi' => ?_⟩
          rcases Nat.lt_or_eq_of_le hi' with hi' | rfl
          · exact hnone i hi (Nat.le_of_lt_succ hi')
          · exact h
      | some d =>
          refine ⟨start + 1, Nat.le_refl _, by rw [search, h, Option.getD_some], fun i hi hi' => ?_⟩
          exact absurd hi (Nat.not_lt.2 hi')

/-- No multiple of the coarsest grid but zero lies up to a number. -/
theorem floor_lt (x : Number) : x.floor < 10 ^ (x.floor.log2 / 3 + 1) :=
  calc x.floor < 2 ^ (x.floor.log2 + 1) := Nat.lt_log2_self
    _ ≤ 2 ^ (3 * (x.floor.log2 / 3 + 1)) := Nat.pow_le_pow_right Nat.two_pos (by omega)
    _ = 8 ^ (x.floor.log2 / 3 + 1) := Nat.pow_mul 2 3 _
    _ ≤ 10 ^ (x.floor.log2 / 3 + 1) := Nat.pow_le_pow_left (by decide) _

/-- Zero rounds to no other number. -/
theorem not_near_zero (hx : 0 < x.magnitude) : ¬Near 0 x.magnitude := by
  have hzero : Near 0 0 := by
    have h := near_unitsAt 0
    rwa [show unitsAt 0 = 0 from rfl, Nat.cast_zero] at h
  exact fun h => Nat.ne_of_lt hx (hzero.unique h)

/-- The shortest decimal rounds to the number. -/
theorem near_shortest (hx : 0 < x.magnitude) :
    Near (gridPoint (x.shortest.digits * 10 ^ x.shortest.place)) x.magnitude := by
  obtain ⟨j, -, hd, -⟩ := search_spec hx (x.floor.log2 / 3 + 1)
  obtain ⟨hplace, -, hnear⟩ := near_of_onGrid? hx hd
  rw [← hplace] at hnear
  exact hnear

/-- Unless the shortest decimal is one digit, nothing on a coarser grid rounds to the number. -/
theorem shortest_coarsest (hx : 0 < x.magnitude) (hd : 10 ≤ x.shortest.digits) {j : Nat} (hj : x.shortest.place < j)
    (n : Nat) : ¬Near (gridPoint (n * 10 ^ j)) x.magnitude := by
  obtain ⟨i, hi, hs, hnone⟩ := search_spec hx (x.floor.log2 / 3 + 1)
  obtain ⟨hplace, hle, -⟩ := near_of_onGrid? hx hs
  change x.shortest.digits ≤ _ at hle
  change x.shortest.place = i at hplace
  have hlt := floor_lt x
  generalize x.floor.log2 / 3 + 1 = start at hi hnone hlt
  -- On the coarsest grid only one digit can be found.
  have hstart : i < start := by
    refine Nat.lt_of_le_of_ne hi fun he => ?_
    rw [he, Nat.div_eq_of_lt hlt] at hle
    omega
  rcases Nat.le_total j start with hjs | hsj
  · exact not_near_of_onGrid? hx (hnone j (hplace ▸ hj) hjs) n
  · intro hnear
    have hn : n ≠ 0 := by
      rintro rfl
      rw [Nat.zero_mul, gridPoint, Nat.zero_mul, Nat.cast_zero, zero_div] at hnear
      exact not_near_zero hx hnear
    have hge : unitsAt x.magnitude ≤ gridPoint (1 * 10 ^ start) :=
      le_of_not_ge fun hle => Nat.not_le.2 hlt ((Nat.one_mul _).ge.trans ((gridPoint_le_iff _).1 hle))
    have hmono : 1 * 10 ^ start ≤ n * 10 ^ j :=
      Nat.mul_le_mul (Nat.pos_of_ne_zero hn) (Nat.pow_le_pow_right (by decide) hsj)
    have hmid := (near_unitsAt x.magnitude).between hnear hge (gridPoint_mono hmono)
    exact not_near_of_onGrid? hx (hnone start hstart (Nat.le_refl _)) 1 hmid

theorem gridPoint_eq (n j : Nat) : gridPoint (n * 10 ^ j) = n * 10 ^ ((j : ℤ) - 324) * 2 ^ 1074 := by
  have hten : (10 : ℚ) ≠ 0 := by norm_num
  have hj : (10 : ℚ) ^ ((j : ℤ) - 324) = 10 ^ j / 10 ^ 324 := by
    rw [zpow_sub₀ hten, zpow_natCast]
    rfl
  rw [hj, gridPoint, Nat.cast_mul, Nat.cast_mul, Nat.cast_pow, Nat.cast_pow, Nat.cast_pow, Nat.cast_ofNat,
    Nat.cast_ofNat]
  generalize (10 : ℚ) ^ 324 = d, (2 : ℚ) ^ 1074 = scale
  ring

/-- No decimal that rounds to the number has fewer digits. -/
theorem shortest_minimal (hx : 0 < x.magnitude) {b : Nat} {e : ℤ} (h : Near (b * 10 ^ e * 2 ^ 1074) x.magnitude) :
    (Nat.toDigits 10 x.shortest.digits).length ≤ (Nat.toDigits 10 b).length := by
  have hten : (1 : ℚ) ≤ 10 := by norm_num
  have hpos : 0 < (Nat.toDigits 10 b).length := Nat.length_toDigits_pos
  have hb := (Nat.length_toDigits_le_iff (n := b) (by decide) hpos).1 (Nat.le_refl _)
  rw [Nat.length_toDigits_le_iff (by decide) hpos]
  generalize (Nat.toDigits 10 b).length = k at hpos hb
  by_contra hk
  have hd : 10 ≤ x.shortest.digits := by
    calc 10 = 10 ^ 1 := rfl
      _ ≤ 10 ^ k := Nat.pow_le_pow_right (by decide) hpos
      _ ≤ x.shortest.digits := Nat.not_lt.1 hk
  rcases le_or_gt e (x.shortest.place - 324) with he | he
  · -- A power of ten lies between the two decimals, on a coarser grid.
    refine shortest_coarsest hx hd (j := k + x.shortest.place) (by omega) 1 (h.between (near_shortest hx) ?_ ?_)
    · have hb' : (b : ℚ) ≤ 10 ^ k := by exact_mod_cast hb.le
      have he' : (10 : ℚ) ^ e ≤ 10 ^ ((x.shortest.place : ℤ) - 324) := zpow_le_zpow_right₀ hten he
      have hsum : ((k + x.shortest.place : Nat) : ℤ) - 324 = k + (x.shortest.place - 324) := by omega
      rw [gridPoint_eq, Nat.cast_one, one_mul, hsum, zpow_add₀ (by norm_num), zpow_natCast]
      have hprod := mul_le_mul hb' he' (zpow_nonneg (by norm_num) e) (pow_nonneg (by norm_num) k)
      exact mul_le_mul_of_nonneg_right hprod (pow_pos two_pos _).le
    · refine gridPoint_mono ?_
      rw [Nat.one_mul, Nat.pow_add]
      exact Nat.mul_le_mul_right _ (Nat.not_lt.1 hk)
  · obtain ⟨j, rfl⟩ : ∃ j : Nat, e = j - 324 := ⟨(e + 324).toNat, by omega⟩
    rw [← gridPoint_eq] at h
    exact shortest_coarsest hx hd (by omega) b h

end Treewalk.Number
