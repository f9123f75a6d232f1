import Mathlib

/-! Binary floating point on the rationals: rounding to the nearest number of a given precision,
ties to even. The exponent is not bounded, so there are neither subnormal numbers nor overflows. -/
namespace AdScheduler.Rounding

/-- The nearest integer, and of two the even one. -/
def nearest (x : ℚ) : ℤ :=
  if x - ⌊x⌋ < 1 / 2 then ⌊x⌋
  else if 1 / 2 < x - ⌊x⌋ then ⌊x⌋ + 1
  else if ⌊x⌋ % 2 = 0 then ⌊x⌋ else ⌊x⌋ + 1

lemma nearest_intCast (n : ℤ) : nearest n = n := by
  simp [nearest]

lemma abs_nearest_sub_le (x : ℚ) : |(nearest x : ℚ) - x| ≤ 1 / 2 := by
  have hfloor := Int.floor_le x
  have hlt := Int.lt_floor_add_one x
  unfold nearest
  rw [abs_le]
  split_ifs <;> push_cast <;> constructor <;> linarith

lemma floor_le_nearest (x : ℚ) : ⌊x⌋ ≤ nearest x := by
  unfold nearest
  split_ifs <;> omega

lemma nearest_le_floor_add_one (x : ℚ) : nearest x ≤ ⌊x⌋ + 1 := by
  unfold nearest
  split_ifs <;> omega

lemma nearest_mono : Monotone nearest := by
  intro x y hxy
  rcases (Int.floor_mono hxy).lt_or_eq with hlt | heq
  · have := nearest_le_floor_add_one x
    have := floor_le_nearest y
    omega
  · unfold nearest
    rw [heq]
    split_ifs <;> first | omega | linarith

/-- The distance of the numbers with `p` binary digits after the first one, around a number. -/
def spacing (p : ℕ) (x : ℚ) : ℚ := 2 ^ (Int.log 2 x - p)

def roundMagnitude (p : ℕ) (x : ℚ) : ℚ := nearest (x / spacing p x) * spacing p x

/-- The nearest number with `p` binary digits after the first one, as sign and magnitude. -/
def round (p : ℕ) (x : ℚ) : ℚ := if x < 0 then -roundMagnitude p (-x) else roundMagnitude p x

section Magnitude
variable {p : ℕ} {x y : ℚ}

lemma spacing_pos (p : ℕ) (x : ℚ) : 0 < spacing p x := zpow_pos two_pos _

lemma zpow_log_eq (p : ℕ) (x : ℚ) : (2 : ℚ) ^ Int.log 2 x = 2 ^ p * spacing p x := by
  rw [spacing, zpow_sub₀ two_ne_zero, zpow_natCast]
  field_simp

lemma zpow_log_le (hx : 0 < x) : 2 ^ p * spacing p x ≤ x := by
  rw [← zpow_log_eq]
  exact_mod_cast Int.zpow_log_le_self one_lt_two hx

lemma lt_zpow_log (p : ℕ) (x : ℚ) : x < 2 ^ (p + 1) * spacing p x := by
  have hlt : x < (2 : ℚ) ^ (Int.log 2 x + 1) := mod_cast Int.lt_zpow_succ_log_self one_lt_two x
  rwa [zpow_add_one₀ two_ne_zero, zpow_log_eq p, mul_right_comm, ← pow_succ] at hlt

lemma abs_roundMagnitude_sub_le (hx : 0 < x) : |roundMagnitude p x - x| ≤ x / 2 ^ (p + 1) := by
  have hs := spacing_pos p x
  have hnear := abs_nearest_sub_le (x / spacing p x)
  have hlog := zpow_log_le (p := p) hx
  calc |roundMagnitude p x - x|
      = |((nearest (x / spacing p x) : ℚ) - x / spacing p x) * spacing p x| := by
        rw [roundMagnitude, sub_mul, div_mul_cancel₀ x hs.ne']
    _ = |(nearest (x / spacing p x) : ℚ) - x / spacing p x| * spacing p x := by
        rw [abs_mul, abs_of_pos hs]
    _ ≤ 1 / 2 * spacing p x := by gcongr
    _ ≤ x / 2 ^ (p + 1) := by
        rw [le_div_iff₀ (by positivity), pow_succ]
        linarith

lemma zpow_log_le_roundMagnitude (hx : 0 < x) : (2 : ℚ) ^ Int.log 2 x ≤ roundMagnitude p x := by
  have hs := spacing_pos p x
  have hle : ((2 ^ p : ℤ) : ℚ) ≤ x / spacing p x := by
    rw [le_div_iff₀ hs]
    exact_mod_cast zpow_log_le hx
  have hnear : (2 ^ p : ℤ) ≤ nearest (x / spacing p x) := by
    simpa only [nearest_intCast] using nearest_mono hle
  rw [zpow_log_eq p, roundMagnitude]
  gcongr
  exact_mod_cast hnear

lemma roundMagnitude_le_zpow_log (p : ℕ) (x : ℚ) :
    roundMagnitude p x ≤ (2 : ℚ) ^ (Int.log 2 x + 1) := by
  have hs := spacing_pos p x
  have hle : x / spacing p x ≤ ((2 ^ (p + 1) : ℤ) : ℚ) := by
    rw [div_le_iff₀ hs]
    exact_mod_cast (lt_zpow_log p x).le
  have hnear : nearest (x / spacing p x) ≤ (2 ^ (p + 1) : ℤ) := by
    simpa only [nearest_intCast] using nearest_mono hle
  rw [zpow_add_one₀ two_ne_zero, zpow_log_eq p, mul_right_comm, ← pow_succ, roundMagnitude]
  gcongr
  exact_mod_cast hnear

lemma roundMagnitude_mono (hx : 0 < x) (hxy : x ≤ y) : roundMagnitude p x ≤ roundMagnitude p y := by
  rcases (Int.log_mono_right (b := 2) hx hxy).lt_or_eq with hlt | heq
  · calc roundMagnitude p x ≤ (2 : ℚ) ^ (Int.log 2 x + 1) := roundMagnitude_le_zpow_log p x
      _ ≤ (2 : ℚ) ^ Int.log 2 y := zpow_le_zpow_right₀ one_le_two hlt
      _ ≤ roundMagnitude p y := zpow_log_le_roundMagnitude (hx.trans_le hxy)
  · have hs : spacing p x = spacing p y := by rw [spacing, heq, spacing]
    have hpos := spacing_pos p y
    rw [roundMagnitude, roundMagnitude, hs]
    gcongr
    exact nearest_mono (by gcongr)

lemma roundMagnitude_natCast {n : ℕ} (h : n < 2 ^ (p + 1)) : roundMagnitude p n = n := by
  have hs := spacing_pos p n
  have hlog : Nat.log 2 n ≤ p := Nat.lt_succ_iff.mp (Nat.log_lt_of_lt_pow' p.succ_ne_zero h)
  have hscaled : (n : ℚ) / spacing p n = ((n * 2 ^ (p - Nat.log 2 n) : ℤ) : ℚ) := by
    rw [spacing, Int.log_natCast, div_eq_mul_inv, ← zpow_neg, neg_sub, ← Nat.cast_sub hlog,
      zpow_natCast]
    push_cast
    rfl
  rw [roundMagnitude, hscaled, nearest_intCast, ← hscaled, div_mul_cancel₀ _ hs.ne']

end Magnitude

section Round
variable {p : ℕ} {x y : ℚ}

lemma round_of_nonneg (hx : 0 ≤ x) : round p x = roundMagnitude p x := if_neg hx.not_gt

lemma round_natCast {n : ℕ} (h : n < 2 ^ (p + 1)) : round p n = n := by
  rw [round_of_nonneg n.cast_nonneg, roundMagnitude_natCast h]

@[simp] lemma round_zero : round p 0 = 0 := by
  simpa using round_natCast (p := p) (n := 0) (by positivity)

@[simp] lemma round_one : round p 1 = 1 := by
  simpa using round_natCast (p := p) (n := 1) (Nat.one_lt_two_pow p.succ_ne_zero)

lemma round_neg (p : ℕ) (x : ℚ) : round p (-x) = -round p x := by
  rcases lt_trichotomy x 0 with hx | rfl | hx
  · rw [round_of_nonneg (by linarith), round, if_pos hx, neg_neg]
  · simp
  · rw [round, if_pos (by linarith), neg_neg, round_of_nonneg hx.le]

lemma round_mono : Monotone (round p) := by
  refine monotone_of_odd_of_monotoneOn_nonneg (round_neg p) fun x hx y hy hxy => ?_
  rw [round_of_nonneg hx, round_of_nonneg hy]
  rcases (Set.mem_Ici.mp hx).eq_or_lt with rfl | hx
  · rcases (Set.mem_Ici.mp hy).eq_or_lt with rfl | hy
    · rfl
    · have hpos := (zpow_pos two_pos _).trans_le (zpow_log_le_roundMagnitude (p := p) hy)
      simpa [roundMagnitude, nearest] using hpos.le
  · exact roundMagnitude_mono hx hxy

lemma round_nonneg (hx : 0 ≤ x) : 0 ≤ round p x := by
  simpa using round_mono (p := p) hx

lemma abs_round_sub_le (hx : 0 ≤ x) : |round p x - x| ≤ x / 2 ^ (p + 1) := by
  rcases hx.eq_or_lt with rfl | hx
  · simp
  · rw [round_of_nonneg hx.le]
    exact abs_roundMagnitude_sub_le hx

end Round

end AdScheduler.Rounding
