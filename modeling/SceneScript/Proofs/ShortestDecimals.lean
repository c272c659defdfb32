import Mathlib
import SceneScript.Decimal.Shortest

/-!
# Shortest decimals tell doubles apart

The shortest decimal of a double lies among the numbers that round to it (`contains_ofFloat`): the
grids that are searched become so fine that one of them has a point there. The numbers that round to
a double end where those that round to the next one start (`upper_eq_lower`), and an end belongs to
the even one of both, so no number rounds to two doubles (`eq_of_contains`).
-/

namespace SceneScript.Decimal

/-- The number that a decimal stands for. -/
def toRat (d : Decimal) : ℚ :=
  d.significand * 10 ^ d.exponent

namespace Interval

/-- The lower end. -/
def lower (i : Interval) : ℚ :=
  i.low * 2 ^ i.scale

/-- The upper end. -/
def upper (i : Interval) : ℚ :=
  i.high * 2 ^ i.scale

/-- A number lies in an interval. -/
def Contains (i : Interval) (q : ℚ) : Prop :=
  if i.closed then i.lower ≤ q ∧ q ≤ i.upper else i.lower < q ∧ q < i.upper

theorem Contains.le {i : Interval} {q : ℚ} (h : i.Contains q) : i.lower ≤ q ∧ q ≤ i.upper := by
  unfold Contains at h
  split at h
  · exact h
  · exact ⟨h.1.le, h.2.le⟩

/-- Only a closed interval has its ends. -/
theorem Contains.closed_of_eq {i : Interval} {q : ℚ} (h : i.Contains q)
    (hend : q = i.lower ∨ q = i.upper) : i.closed = true := by
  unfold Contains at h
  split at h
  · assumption
  · rcases hend with rfl | rfl
    · exact absurd h.1 (lt_irrefl _)
    · exact absurd h.2 (lt_irrefl _)

/-! ## Points of grids -/

theorem zpow_mul_toNat {a : ℚ} (ha : a ≠ 0) (n : ℤ) : a ^ n * a ^ (-n).toNat = a ^ n.toNat := by
  rw [← zpow_natCast, ← zpow_natCast, ← zpow_add₀ ha]
  congr 1
  omega

/-- Both factors are the sizes that they stand for, multiplied by the same number. -/
theorem exists_factor (i : Interval) (k : ℤ) :
    ∃ f : ℚ, 0 < f ∧ (i.unitFactor k : ℚ) = 2 ^ i.scale * f ∧ (i.gridFactor k : ℚ) = 10 ^ k * f := by
  refine ⟨2 ^ (-i.scale).toNat * 10 ^ (-k).toNat, by positivity, ?_, ?_⟩
  · have hunit : (i.unitFactor k : ℚ) = 2 ^ i.scale.toNat * 10 ^ (-k).toNat := by
      exact_mod_cast rfl
    rw [hunit, ← zpow_mul_toNat two_ne_zero i.scale]
    ring
  · have hgrid : (i.gridFactor k : ℚ) = 2 ^ (-i.scale).toNat * 10 ^ k.toNat := by
      exact_mod_cast rfl
    rw [hgrid, ← zpow_mul_toNat (a := 10) (by norm_num) k]
    ring

/-- A point of a grid and a number of units compare as what they stand for. -/
theorem units_le_point_iff (i : Interval) (k : ℤ) (n d : ℕ) :
    n * i.unitFactor k ≤ d * i.gridFactor k ↔ (n : ℚ) * 2 ^ i.scale ≤ d * 10 ^ k := by
  obtain ⟨f, hf, hunit, hgrid⟩ := i.exists_factor k
  rw [← Nat.cast_le (α := ℚ), Nat.cast_mul, Nat.cast_mul, hunit, hgrid, ← mul_assoc, ← mul_assoc,
    mul_le_mul_iff_left₀ hf]

theorem point_le_units_iff (i : Interval) (k : ℤ) (n d : ℕ) :
    d * i.gridFactor k ≤ n * i.unitFactor k ↔ (d : ℚ) * 10 ^ k ≤ n * 2 ^ i.scale := by
  obtain ⟨f, hf, hunit, hgrid⟩ := i.exists_factor k
  rw [← Nat.cast_le (α := ℚ), Nat.cast_mul, Nat.cast_mul, hunit, hgrid, ← mul_assoc, ← mul_assoc,
    mul_le_mul_iff_left₀ hf]

theorem holds_iff {i : Interval} {k : ℤ} {d : ℕ} :
    i.holds k d = true ↔ i.Contains (d * 10 ^ k) := by
  unfold holds Contains lower upper
  dsimp only
  split
  · rw [Bool.and_eq_true, decide_eq_true_eq, decide_eq_true_eq, units_le_point_iff,
      point_le_units_iff]
  · rw [Bool.and_eq_true, decide_eq_true_eq, decide_eq_true_eq, ← not_le, ← not_le,
      units_le_point_iff, point_le_units_iff, not_le, not_le]

/-- What is found on a grid lies in the interval. -/
theorem holds_of_nearest? {i : Interval} {k : ℤ} {d : ℕ} (h : i.nearest? k = some d) :
    i.holds k d = true := by
  unfold nearest? at h
  dsimp only at h
  split at h
  · rename_i hbelow habove
    split_ifs at h <;> cases h <;> assumption
  · cases h
    assumption
  · cases h
    assumption
  · cases h

/-- The search finds a number in the interval if one of the grids has one. -/
theorem contains_search {i : Interval} {grids n : ℕ} {k : ℤ} (hn : n < grids)
    (h : i.nearest? (k - n) ≠ none) : i.Contains (i.search grids k).toRat := by
  induction grids generalizing n k with
  | zero => exact absurd hn (Nat.not_lt_zero n)
  | succ grids ih =>
    unfold search
    cases hnearest : i.nearest? k with
    | some d => exact holds_iff.1 (holds_of_nearest? hnearest)
    | none =>
      cases n with
      | zero =>
        rw [Nat.cast_zero, sub_zero] at h
        exact absurd hnearest h
      | succ n =>
        refine ih (Nat.lt_of_succ_lt_succ hn) ?_
        rwa [Nat.cast_succ, add_comm, ← sub_sub] at h

/-- A grid that is finer than a unit has a point between the lower end and the value. -/
theorem nearest?_ne_none {i : Interval} {k : ℤ} (hlow : i.low < i.value) (hhigh : i.value < i.high)
    (hfine : i.gridFactor k ≤ i.unitFactor k) (hgrid : 0 < i.gridFactor k) :
    i.nearest? k ≠ none := by
  have hunit : 0 < i.unitFactor k := hgrid.trans_le hfine
  have hbelow : i.holds k (i.value * i.unitFactor k / i.gridFactor k) = true := by
    have hfloor := Nat.div_mul_le_self (i.value * i.unitFactor k) (i.gridFactor k)
    have hceil := Nat.lt_div_mul_add hgrid (a := i.value * i.unitFactor k)
    have hstep : (i.low + 1) * i.unitFactor k ≤ i.value * i.unitFactor k :=
      Nat.mul_le_mul_right _ hlow
    have hlast : i.value * i.unitFactor k < i.high * i.unitFactor k :=
      Nat.mul_lt_mul_of_pos_right hhigh hunit
    rw [Nat.succ_mul] at hstep
    unfold holds
    dsimp only
    split
    · rw [Bool.and_eq_true, decide_eq_true_eq, decide_eq_true_eq]
      omega
    · rw [Bool.and_eq_true, decide_eq_true_eq, decide_eq_true_eq]
      omega
  unfold nearest?
  dsimp only
  rw [hbelow]
  split
  · split_ifs <;> exact Option.some_ne_none _
  · exact Option.some_ne_none _
  · rename_i hfalse _
    cases hfalse
  · rename_i hfalse _
    cases hfalse

end Interval

/-! ## Sizes of powers -/

/-- Powers of ten between powers of two. -/
theorem pow_ten_bounds : ∀ n < 330,
    2 ^ (n * 33219 / 10000) ≤ 10 ^ n ∧ 10 ^ n ≤ 2 ^ (n * 33220 / 10000 + 1) := by
  decide +kernel

/-- The first grid of a search is about as coarse as the value is large. -/
theorem zpow_ten_le {size : ℤ} (hmin : -1074 ≤ size) (hmax : size ≤ 1024) :
    (10 : ℚ) ^ (size * 30103 / 100000) ≤ 2 ^ (size + 2) := by
  obtain ⟨n, hn | hn⟩ := Int.eq_nat_or_neg (size * 30103 / 100000)
  · have hpow : (10 : ℚ) ^ n ≤ 2 ^ (n * 33220 / 10000 + 1) := by
      exact_mod_cast (pow_ten_bounds n (by omega)).2
    calc (10 : ℚ) ^ (size * 30103 / 100000)
        = 10 ^ n := by rw [hn, zpow_natCast]
      _ ≤ 2 ^ (n * 33220 / 10000 + 1) := hpow
      _ = 2 ^ ((n * 33220 / 10000 + 1 : ℕ) : ℤ) := (zpow_natCast _ _).symm
      _ ≤ 2 ^ (size + 2) := zpow_le_zpow_right₀ one_le_two (by omega)
  · have hpow : (2 : ℚ) ^ (n * 33219 / 10000) ≤ 10 ^ n := by
      exact_mod_cast (pow_ten_bounds n (by omega)).1
    calc (10 : ℚ) ^ (size * 30103 / 100000)
        = (10 ^ n)⁻¹ := by rw [hn, zpow_neg, zpow_natCast]
      _ ≤ (2 ^ (n * 33219 / 10000))⁻¹ := inv_anti₀ (by positivity) hpow
      _ = 2 ^ (-((n * 33219 / 10000 : ℕ) : ℤ)) := by rw [zpow_neg, zpow_natCast]
      _ ≤ 2 ^ (size + 2) := zpow_le_zpow_right₀ one_le_two (by omega)

/-! ## Doubles in their order -/

/-- The mantissa of the double at a place in the order of those that are not negative. -/
def mantissaAt (n : ℕ) : ℕ :=
  if n / 2 ^ 52 = 0 then n % 2 ^ 52 else 2 ^ 52 + n % 2 ^ 52

/-- The exponent of the double at a place. -/
def exponentAt (n : ℕ) : ℤ :=
  max (n / 2 ^ 52 : ℕ) 1 - 1075

/-- The numbers that round to the double at a place. -/
def intervalAt (n : ℕ) : Interval :=
  .ofDouble (mantissaAt n) (exponentAt n) (n % 2 ^ 52 = 0 && 1 < n / 2 ^ 52)

theorem lower_lt_upper (n : ℕ) : (intervalAt n).lower < (intervalAt n).upper := by
  have hscale : (0 : ℚ) < 2 ^ (exponentAt n - 2) := by positivity
  refine mul_lt_mul_of_pos_right ?_ hscale
  have hlow : (intervalAt n).low < (intervalAt n).high := by
    simp only [intervalAt, Interval.ofDouble]
    split <;> omega
  exact_mod_cast hlow

/-- The numbers that round to a double end where those that round to the next one start. -/
theorem upper_eq_lower (n : ℕ) : (intervalAt n).upper = (intervalAt (n + 1)).lower := by
  by_cases hsame : exponentAt (n + 1) = exponentAt n
  · have hpower : ((n + 1) % 2 ^ 52 = 0 && 1 < (n + 1) / 2 ^ 52) = false := by
      simp only [exponentAt] at hsame
      simp only [Bool.and_eq_false_iff, decide_eq_false_iff_not]
      omega
    have hmantissa : mantissaAt (n + 1) = mantissaAt n + 1 := by
      simp only [exponentAt] at hsame
      simp only [mantissaAt]
      split <;> split <;> omega
    have hlow : 4 * (mantissaAt n + 1) - 2 = 4 * mantissaAt n + 2 := by omega
    simp only [Interval.upper, Interval.lower, intervalAt, Interval.ofDouble, hpower, hsame,
      hmantissa, hlow, Bool.false_eq_true, if_false]
  · -- the exponent changes, and with it the unit
    have hexponent : exponentAt (n + 1) = exponentAt n + 1 ∧ mantissaAt n = 2 ^ 53 - 1 ∧
        mantissaAt (n + 1) = 2 ^ 52 ∧ (n + 1) % 2 ^ 52 = 0 ∧ 1 < (n + 1) / 2 ^ 52 := by
      simp only [exponentAt] at hsame ⊢
      simp only [mantissaAt]
      split <;> split <;> omega
    obtain ⟨hexponent, hmantissa, hnext, hfraction, hfield⟩ := hexponent
    simp only [Interval.upper, Interval.lower, intervalAt, Interval.ofDouble, hmantissa, hnext,
      hexponent, hfraction, hfield, decide_true, Bool.and_true, if_true]
    rw [add_sub_right_comm, zpow_add_one₀ two_ne_zero]
    push_cast
    ring

theorem strictMono_lower : StrictMono fun n => (intervalAt n).lower :=
  strictMono_nat_of_lt_succ fun n => (lower_lt_upper n).trans_eq (upper_eq_lower n)

theorem closed_iff (n : ℕ) : (intervalAt n).closed = true ↔ n % 2 = 0 := by
  simp only [intervalAt, Interval.ofDouble, mantissaAt, beq_iff_eq]
  split <;> omega

/-- No number rounds to a double and to a greater one. -/
theorem not_contains_of_lt {m n : ℕ} {q : ℚ} (h : m < n) (hm : (intervalAt m).Contains q) :
    ¬ (intervalAt n).Contains q := by
  intro hn
  have hends : (intervalAt m).upper ≤ (intervalAt n).lower := by
    rw [upper_eq_lower]
    exact strictMono_lower.monotone h
  have hupper : q = (intervalAt m).upper := le_antisymm hm.le.2 (hends.trans hn.le.1)
  have hlower : q = (intervalAt n).lower := le_antisymm (hm.le.2.trans hends) hn.le.1
  have hnext : n = m + 1 := by
    refine strictMono_lower.injective ?_
    show (intervalAt n).lower = (intervalAt (m + 1)).lower
    rw [← hlower, ← upper_eq_lower, hupper]
  -- the end that both have belongs to the even one only
  have heven := (closed_iff m).1 (hm.closed_of_eq (.inr hupper))
  have heven' := (closed_iff n).1 (hn.closed_of_eq (.inl hlower))
  omega

/-- No number rounds to two doubles. -/
theorem eq_of_contains {m n : ℕ} {q : ℚ} (hm : (intervalAt m).Contains q)
    (hn : (intervalAt n).Contains q) : m = n := by
  rcases lt_trichotomy m n with h | h | h
  · exact absurd hn (not_contains_of_lt h hm)
  · exact h
  · exact absurd hm (not_contains_of_lt h hn)

/-! ## The shortest decimal of a double -/

/-- The place of a double among those of its sign. -/
def place (x : Float) : ℕ :=
  x.toBits.toNat % 2 ^ 63

theorem ofFloat_eq (x : Float) :
    ofFloat x = shortest (mantissaAt (place x)) (exponentAt (place x))
      (place x % 2 ^ 52 = 0 && 1 < place x / 2 ^ 52) := by
  have hbits := x.toBits.toNat_lt
  have hfield : x.toBits.toNat / Nat.pow 2 52 % Nat.pow 2 11 = place x / 2 ^ 52 := by
    show x.toBits.toNat / 4503599627370496 % 2048 = _
    unfold place
    omega
  have hfraction : x.toBits.toNat % Nat.pow 2 52 = place x % 2 ^ 52 := by
    show x.toBits.toNat % 4503599627370496 = _
    unfold place
    omega
  simp only [ofFloat, hfield, hfraction]
  unfold mantissaAt exponentAt
  split
  · rename_i hzero
    rw [hzero]
    have hnormal : (place x % 2 ^ 52 = 0 && 1 < 0) = false := by simp
    rw [hnormal]
    rfl
  · rename_i hzero
    rw [max_eq_left (by omega)]
    rfl

theorem mantissaAt_pos {n : ℕ} (h : n ≠ 0) : 0 < mantissaAt n := by
  unfold mantissaAt
  split <;> omega

theorem mantissaAt_lt (n : ℕ) : mantissaAt n < 2 ^ 53 := by
  unfold mantissaAt
  split <;> omega

/-- The grid at the end of the search is finer than a unit. -/
theorem gridFactor_le {m : ℕ} {e : ℤ} (hm : 0 < m) (hmax : m < 2 ^ 53) (he : -1074 ≤ e)
    (hemax : e ≤ 972) (p : Bool) :
    let i := Interval.ofDouble m e p
    let k := (m.log2 + e) * 30103 / 100000 + 2 - (21 : ℕ)
    i.gridFactor k ≤ i.unitFactor k := by
  intro i k
  have hlog : m.log2 < 53 := (Nat.log2_lt hm.ne').2 hmax
  have hscaled : (10 : ℚ) ^ k ≤ 2 ^ i.scale := by
    calc (10 : ℚ) ^ k
        = 10 ^ ((m.log2 + e) * 30103 / 100000) * 10 ^ (-19 : ℤ) := by
          rw [← zpow_add₀ (by norm_num)]
          congr 1
          omega
      _ ≤ 2 ^ (m.log2 + e + 2) * 2 ^ (-63 : ℤ) := by
          have hten : (10 : ℚ) ^ (-19 : ℤ) ≤ 2 ^ (-63 : ℤ) := by norm_num
          have hsize : (10 : ℚ) ^ ((m.log2 + e) * 30103 / 100000) ≤ 2 ^ (m.log2 + e + 2) :=
            zpow_ten_le (by omega) (by omega)
          gcongr
      _ = 2 ^ (m.log2 + e + 2 + -63) := (zpow_add₀ two_ne_zero _ _).symm
      _ ≤ 2 ^ i.scale := zpow_le_zpow_right₀ one_le_two (by show _ ≤ e - 2; omega)
  have hone := i.point_le_units_iff k 1 1
  rw [one_mul, one_mul, Nat.cast_one, one_mul, one_mul] at hone
  exact hone.2 hscaled

theorem contains_ofFloat {x : Float} (h : place x ≠ 0) :
    (intervalAt (place x)).Contains (ofFloat x).toRat := by
  have hpos := mantissaAt_pos h
  have hplace : place x < 2 ^ 63 := Nat.mod_lt _ (by norm_num)
  have hmin : -1074 ≤ exponentAt (place x) := by
    unfold exponentAt
    omega
  have hmax : exponentAt (place x) ≤ 972 := by
    unfold exponentAt
    omega
  have hfine := gridFactor_le hpos (mantissaAt_lt _) hmin hmax
    (place x % 2 ^ 52 = 0 && 1 < place x / 2 ^ 52)
  rw [ofFloat_eq]
  refine Interval.contains_search (by norm_num : 21 < 22) (Interval.nearest?_ne_none ?_ ?_ hfine ?_)
  · simp only [intervalAt, Interval.ofDouble]
    split <;> omega
  · exact Nat.lt_add_of_pos_right two_pos
  · exact Nat.mul_pos (Nat.pow_pos two_pos) (Nat.pow_pos (by norm_num))

/-- The shortest decimal of a double other than zero is greater than zero. -/
theorem toRat_pos {x : Float} (h : place x ≠ 0) : 0 < (ofFloat x).toRat := by
  have hlow : 0 < (intervalAt (place x)).low := by
    have hpos := mantissaAt_pos h
    simp only [intervalAt, Interval.ofDouble]
    split <;> omega
  have hlower : 0 < (intervalAt (place x)).lower :=
    mul_pos (Nat.cast_pos.2 hlow) (zpow_pos two_pos _)
  exact hlower.trans_le (contains_ofFloat h).le.1

/-- Different doubles of one sign have different shortest decimals. -/
theorem place_eq_of_toRat_eq {x y : Float} (hx : place x ≠ 0) (hy : place y ≠ 0)
    (h : (ofFloat x).toRat = (ofFloat y).toRat) : place x = place y := by
  refine eq_of_contains (contains_ofFloat hx) ?_
  rw [h]
  exact contains_ofFloat hy

/-! ## The zeros -/

theorem place_eq_zero_iff (x : Float) : place x = 0 ↔ x = 0 ∨ x = -0 := by
  have hbits := x.toBits.toNat_lt
  have hzero : x = 0 ↔ x.toBits.toNat = 0 := by
    rw [← Float.toBits_inj, ← UInt64.toNat_inj]
    rfl
  have hminus : x = -0 ↔ x.toBits.toNat = 2 ^ 63 := by
    rw [← Float.toBits_inj, ← UInt64.toNat_inj]
    rfl
  rw [hzero, hminus, place]
  omega

/-- A double is equal to zero exactly if it is at the first place. -/
theorem beq_zero_iff (x : Float) : (x == 0.0) = true ↔ place x = 0 := by
  have hzero : (0.0 : Float) = 0 := by decide +kernel
  have hnan : (0 : Float) ≠ .nan ∧ (-0 : Float) ≠ .nan ∧ (0 : Float) ≠ -0 := by decide +kernel
  rw [Float.beq_iff_ne_nan_and_eq, place_eq_zero_iff, hzero]
  constructor
  · rintro ⟨-, -, rfl | ⟨rfl, -⟩ | ⟨rfl, -⟩⟩
    · exact .inl rfl
    · exact .inl rfl
    · exact .inr rfl
  · rintro (rfl | rfl)
    · exact ⟨hnan.1, hnan.1, .inl rfl⟩
    · exact ⟨hnan.2.1, hnan.1, .inr (.inr ⟨rfl, rfl⟩)⟩

end SceneScript.Decimal
