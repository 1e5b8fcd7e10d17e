import Mathlib

/-!
Rounding of rational numbers to a binary floating-point format: to the nearest
multiple of the spacing the format has at the number, and of two to the even
one. Results of several roundings are compared by the factor they may be off.
-/

namespace CpuMinerSv2.BinaryRounding

/-- The nearest integer, and of two the even one. -/
def roundEven (q : ℚ) : ℤ :=
  if Int.fract q < 1 / 2 then ⌊q⌋
  else if 1 / 2 < Int.fract q then ⌊q⌋ + 1
  else if ⌊q⌋ % 2 = 0 then ⌊q⌋
  else ⌊q⌋ + 1

theorem roundEven_error (q : ℚ) : |(roundEven q : ℚ) - q| ≤ 1 / 2 := by
  have hq : (⌊q⌋ : ℚ) + Int.fract q = q := Int.floor_add_fract q
  have hlow := Int.fract_nonneg q
  have hhigh := Int.fract_lt_one q
  rw [abs_le]
  unfold roundEven
  split_ifs <;> push_cast <;> constructor <;> linarith

theorem roundEven_intCast (n : ℤ) : roundEven n = n := by
  simp [roundEven]

/-- The bits of the significand, the hidden one included, and the exponents of
the smallest and the largest normal numbers. -/
structure Format where
  precision : ℕ
  minExponent : ℤ
  maxExponent : ℤ

namespace Format

variable (F : Format)

/-- The distance of neighbouring numbers of the format. -/
def spacing (q : ℚ) : ℚ := 2 ^ (max (Int.log 2 |q|) F.minExponent - (F.precision - 1))

def round (q : ℚ) : ℚ := roundEven (q / F.spacing q) * F.spacing q

/-- The largest number of the format. -/
def largest : ℚ := (2 - 2 ^ (1 - F.precision : ℤ)) * 2 ^ F.maxExponent

/-- The factor that one rounding may be off. -/
def slack : ℚ := 1 + 2 ^ (1 - F.precision : ℤ)

theorem spacing_pos (q : ℚ) : 0 < F.spacing q := by
  unfold spacing
  positivity

theorem round_error (q : ℚ) : |F.round q - q| ≤ F.spacing q / 2 := by
  have hpos := F.spacing_pos q
  have herror := roundEven_error (q / F.spacing q)
  have hscaled : F.round q - q =
      (roundEven (q / F.spacing q) - q / F.spacing q) * F.spacing q := by
    rw [sub_mul, div_mul_cancel₀ _ hpos.ne']
    rfl
  rw [hscaled, abs_mul, abs_of_pos hpos]
  calc _ ≤ 1 / 2 * F.spacing q := mul_le_mul_of_nonneg_right herror hpos.le
    _ = F.spacing q / 2 := by ring

theorem round_zero : F.round 0 = 0 := by
  have hzero : roundEven 0 = 0 := by exact_mod_cast roundEven_intCast 0
  simp [round, hzero]

/-- Whole numbers that the significand has room for are numbers of the format. -/
theorem round_natCast (hmin : F.minExponent < F.precision) {n : ℕ} (hn : n < 2 ^ F.precision) :
    F.round n = n := by
  rcases Nat.eq_zero_or_pos n with rfl | hpos
  · exact_mod_cast F.round_zero
  have hlog : Int.log 2 |(n : ℚ)| < F.precision := by
    have hlt : (n : ℚ) < 2 ^ (F.precision : ℤ) := by exact_mod_cast hn
    rw [Nat.abs_cast]
    exact (Int.lt_zpow_iff_log_lt (by norm_num) (by exact_mod_cast hpos)).mp hlt
  obtain ⟨k, hk⟩ : ∃ k : ℕ, (k : ℤ) =
      F.precision - 1 - max (Int.log 2 |(n : ℚ)|) F.minExponent :=
    ⟨_, Int.toNat_of_nonneg (by omega)⟩
  have hspacing : F.spacing n * 2 ^ k = 1 := by
    unfold spacing
    rw [← zpow_natCast, ← zpow_add₀ (by norm_num : (2 : ℚ) ≠ 0), hk]
    norm_num
  have hne := (F.spacing_pos n).ne'
  have hmultiple : (n : ℚ) / F.spacing n = ((n * 2 ^ k : ℕ) : ℤ) := by
    rw [div_eq_iff hne]
    push_cast
    rw [mul_assoc, mul_comm (2 ^ k : ℚ), hspacing, mul_one]
  rw [round, hmultiple, roundEven_intCast, ← hmultiple, div_mul_cancel₀ _ hne]

theorem spacing_le {q : ℚ} (hq : 0 < q) (h : 2 ^ F.minExponent ≤ q) :
    F.spacing q ≤ q * 2 ^ (1 - F.precision : ℤ) := by
  have hmin : F.minExponent ≤ Int.log 2 q :=
    (Int.zpow_le_iff_le_log (by norm_num) hq).mp (by exact_mod_cast h)
  have hlog : (2 : ℚ) ^ Int.log 2 q ≤ q := by
    exact_mod_cast Int.zpow_log_le_self (by norm_num : 1 < 2) hq
  unfold spacing
  rw [abs_of_pos hq, max_eq_left hmin]
  calc (2 : ℚ) ^ (Int.log 2 q - (F.precision - 1)) =
        2 ^ Int.log 2 q * 2 ^ (1 - F.precision : ℤ) := by
        rw [← zpow_add₀ (by norm_num : (2 : ℚ) ≠ 0)]
        congr 1
        ring
    _ ≤ _ := mul_le_mul_of_nonneg_right hlog (by positivity)

end Format

/-- Neither of two numbers is more than this factor above the other. -/
structure Close (r x y : ℚ) : Prop where
  left : 0 ≤ x
  right : 0 ≤ y
  above : y ≤ x * r
  below : x ≤ y * r

theorem Close.refl {x : ℚ} (hx : 0 ≤ x) : Close 1 x x :=
  ⟨hx, hx, (mul_one x).ge, (mul_one x).ge⟩

theorem Close.mono {r s x y : ℚ} (h : Close r x y) (hrs : r ≤ s) : Close s x y :=
  ⟨h.left, h.right, h.above.trans (mul_le_mul_of_nonneg_left hrs h.left),
    h.below.trans (mul_le_mul_of_nonneg_left hrs h.right)⟩

theorem Close.trans {r s x y z : ℚ} (hr : 0 ≤ r) (hs : 0 ≤ s) (hxy : Close r x y)
    (hyz : Close s y z) : Close (r * s) x z := by
  refine ⟨hxy.left, hyz.right, ?_, ?_⟩
  · calc z ≤ y * s := hyz.above
      _ ≤ x * r * s := mul_le_mul_of_nonneg_right hxy.above hs
      _ = x * (r * s) := mul_assoc _ _ _
  · calc x ≤ y * r := hxy.below
      _ ≤ z * s * r := mul_le_mul_of_nonneg_right hyz.below hr
      _ = z * (r * s) := by ring

theorem Close.add {r x y x' y' : ℚ} (hx : Close r x x') (hy : Close r y y') :
    Close r (x + y) (x' + y') := by
  refine ⟨add_nonneg hx.left hy.left, add_nonneg hx.right hy.right, ?_, ?_⟩
  · rw [add_mul]
    exact add_le_add hx.above hy.above
  · rw [add_mul]
    exact add_le_add hx.below hy.below

theorem Close.inv {r x y : ℚ} (h : Close r x y) (hx : 0 < x) (hy : 0 < y) :
    Close r x⁻¹ y⁻¹ := by
  have habove : y * x⁻¹ ≤ r := by
    rw [mul_inv_le_iff₀ hx, mul_comm]
    exact h.above
  have hbelow : x * y⁻¹ ≤ r := by
    rw [mul_inv_le_iff₀ hy, mul_comm]
    exact h.below
  refine ⟨(inv_pos.mpr hx).le, (inv_pos.mpr hy).le, ?_, ?_⟩
  · calc y⁻¹ = x⁻¹ * (x * y⁻¹) := by rw [inv_mul_cancel_left₀ hx.ne']
      _ ≤ x⁻¹ * r := mul_le_mul_of_nonneg_left hbelow (inv_pos.mpr hx).le
  · calc x⁻¹ = y⁻¹ * (y * x⁻¹) := by rw [inv_mul_cancel_left₀ hy.ne']
      _ ≤ y⁻¹ * r := mul_le_mul_of_nonneg_left habove (inv_pos.mpr hy).le

theorem Close.mul {r s x y x' y' : ℚ} (hr : 0 ≤ r) (hx : Close r x x')
    (hy : Close s y y') : Close (r * s) (x * y) (x' * y') := by
  refine ⟨mul_nonneg hx.left hy.left, mul_nonneg hx.right hy.right, ?_, ?_⟩
  · calc x' * y' ≤ x * r * (y * s) :=
          mul_le_mul hx.above hy.above hy.right (mul_nonneg hx.left hr)
      _ = x * y * (r * s) := by ring
  · calc x * y ≤ x' * r * (y' * s) :=
          mul_le_mul hx.below hy.below hy.left (mul_nonneg hx.right hr)
      _ = x' * y' * (r * s) := by ring

theorem Close.error {r x y : ℚ} (h : Close r x y) (hr : 1 ≤ r) : |y - x| ≤ x * (r - 1) := by
  have habove := h.above
  have hbelow := h.below
  rw [abs_le, mul_sub, mul_one]
  refine ⟨?_, by linarith⟩
  by_cases hyx : y ≤ x
  · have hscaled : y * (r - 1) ≤ x * (r - 1) :=
      mul_le_mul_of_nonneg_right hyx (sub_nonneg.mpr hr)
    linarith
  · have hgrows : x * 1 ≤ x * r := mul_le_mul_of_nonneg_left hr h.left
    linarith

/-- A normal number and its rounding. -/
theorem Format.round_close (F : Format) (hp : 0 < F.precision) {q : ℚ} (hq : 0 < q)
    (h : 2 ^ F.minExponent ≤ q) : Close F.slack q (F.round q) := by
  have herror := abs_le.mp (F.round_error q)
  have hspacing := F.spacing_le hq h
  have hunit : (2 : ℚ) ^ (1 - F.precision : ℤ) ≤ 1 :=
    zpow_le_one_of_nonpos₀ (by norm_num) (by omega)
  have hpos : (0 : ℚ) < 2 ^ (1 - F.precision : ℤ) := by positivity
  unfold Format.slack
  set u : ℚ := 2 ^ (1 - F.precision : ℤ)
  have hlow : q * (1 - u / 2) ≤ F.round q := by linarith [herror.1]
  have hhalf : 0 ≤ 1 - u / 2 := by linarith
  refine ⟨hq.le, (mul_nonneg hq.le hhalf).trans hlow, ?_, ?_⟩
  · have hextra : 0 ≤ q * u := by positivity
    linarith [herror.2]
  · calc q ≤ q * ((1 - u / 2) * (1 + u)) := by
          refine le_mul_of_one_le_right hq.le ?_
          nlinarith
      _ = q * (1 - u / 2) * (1 + u) := by ring
      _ ≤ F.round q * (1 + u) := mul_le_mul_of_nonneg_right hlow (by linarith)

end CpuMinerSv2.BinaryRounding
