import CpuMinerSv2.BinaryRounding
import CpuMinerSv2.Messages

/-!
The single precision arithmetic of the hashrates. Every operation rounds its
exact result. Nothing negative is ever computed, so a zero has no sign.
-/

namespace CpuMinerSv2.SinglePrecision

open Messages BinaryRounding

def binary32 : Format := ⟨24, -126, 127⟩

/-- The exact result, rounded. -/
def ofRat (q : ℚ) : F32 :=
  if |binary32.round q| ≤ binary32.largest then .finite (binary32.round q)
  else .infinite (q < 0)

/-- `as f32`. -/
def ofNat (n : ℕ) : F32 := ofRat n

def add : F32 → F32 → F32
  | .finite x, .finite y => ofRat (x + y)
  | .infinite s, .infinite t => if s = t then .infinite s else .nan
  | .infinite s, .finite _ => .infinite s
  | .finite _, .infinite s => .infinite s
  | _, _ => .nan

def mul : F32 → F32 → F32
  | .finite x, .finite y => ofRat (x * y)
  | .infinite s, .infinite t => .infinite (s != t)
  | .infinite s, .finite y => if y = 0 then .nan else .infinite (s != (y < 0))
  | .finite x, .infinite t => if x = 0 then .nan else .infinite ((x < 0) != t)
  | _, _ => .nan

def div : F32 → F32 → F32
  | .finite x, .finite y =>
    if y ≠ 0 then ofRat (x / y)
    else if x = 0 then .nan
    else .infinite (x < 0)
  | .finite _, .infinite _ => .finite 0
  | .infinite s, .finite y => .infinite (s != (y < 0))
  | _, _ => .nan

/-- `Duration::as_secs_f32` of this many nanoseconds. -/
def asSecsF32 (elapsed : ℕ) : F32 :=
  add (ofNat (elapsed / 1000000000)) (div (ofNat (elapsed % 1000000000)) (ofNat 1000000000))

example : asSecsF32 1500000000 = .finite (3 / 2) := by decide +kernel

example : div (.finite 1) (.finite 3) = .finite (11184811 / 33554432) := by decide +kernel

theorem ofNat_of_lt {n : ℕ} (hn : n < 2 ^ 24) : ofNat n = .finite n := by
  have hround : binary32.round n = n := binary32.round_natCast (by decide) hn
  have hlargest : (2 : ℚ) ^ 24 ≤ binary32.largest := by decide +kernel
  have hn' : (n : ℚ) ≤ 2 ^ 24 := by exact_mod_cast hn.le
  rw [ofNat, ofRat, hround, Nat.abs_cast, if_pos (hn'.trans hlargest)]

theorem add_ofNat {a b : ℕ} (h : a + b < 2 ^ 24) :
    add (ofNat a) (ofNat b) = .finite ((a + b : ℕ) : ℚ) := by
  rw [ofNat_of_lt (Nat.lt_of_le_of_lt (Nat.le_add_right a b) h),
    ofNat_of_lt (Nat.lt_of_le_of_lt (Nat.le_add_left b a) h), ← ofNat_of_lt h, add, ofNat,
    Nat.cast_add]

/-- The factor that one rounding may be off. -/
def slack : ℚ := 1 + 1 / 2 ^ 23

/-- A finite number and the exact one it stands for. -/
def Near (k : ℕ) (x : ℚ) (f : F32) : Prop := ∃ y, f = .finite y ∧ Close (slack ^ k) x y

theorem one_le_slack_pow (k : ℕ) : 1 ≤ slack ^ k := one_le_pow₀ (by norm_num [slack])

/-- Neither so small nor so large that a rounding leaves the normal numbers. -/
def InRange (q : ℚ) : Prop := q = 0 ∨ 1 / 2 ^ 126 ≤ q ∧ q ≤ 2 ^ 127

theorem ofRat_near {q : ℚ} (hq : InRange q) : Near 1 q (ofRat q) := by
  rcases hq with rfl | ⟨hlow, hhigh⟩
  · refine ⟨0, by decide +kernel, le_refl _, le_refl _, ?_, ?_⟩ <;> simp
  have hpos : 0 < q := lt_of_lt_of_le (by norm_num) hlow
  have hclose : Close binary32.slack q (binary32.round q) := by
    refine binary32.round_close (by decide) hpos ?_
    have hmin : (2 : ℚ) ^ binary32.minExponent = 1 / 2 ^ 126 := by decide +kernel
    rw [hmin]
    exact hlow
  have hslack : binary32.slack = slack ^ 1 := by decide +kernel
  have hlargest : 2 ^ 127 * binary32.slack ≤ binary32.largest := by decide +kernel
  refine ⟨binary32.round q, ?_, hslack ▸ hclose⟩
  have hscaled : q * binary32.slack ≤ 2 ^ 127 * binary32.slack :=
    mul_le_mul_of_nonneg_right hhigh (by decide +kernel)
  rw [ofRat, abs_of_nonneg hclose.right, if_pos (hclose.above.trans (hscaled.trans hlargest))]

/-- Far enough from the bounds of the normal numbers for some roundings. -/
def Moderate (x : ℚ) : Prop := x = 0 ∨ 1 / 2 ^ 125 ≤ x ∧ x ≤ 2 ^ 126

theorem inRange_of_close {k : ℕ} {x y : ℚ} (hk : k ≤ 8) (h : Close (slack ^ k) x y)
    (hx : Moderate x) : InRange y := by
  have hpow : slack ^ k ≤ 2 := by
    calc slack ^ k ≤ slack ^ 8 := pow_le_pow_right₀ (by norm_num [slack]) hk
      _ ≤ 2 := by norm_num [slack]
  have hdouble := h.mono hpow
  rcases hx with rfl | ⟨hlow, hhigh⟩
  · exact .inl (le_antisymm (by linarith [hdouble.above]) hdouble.right)
  · refine .inr ⟨?_, by linarith [hdouble.above]⟩
    have hhalf : (1 : ℚ) / 2 ^ 126 * 2 = 1 / 2 ^ 125 := by norm_num
    linarith [hdouble.below]

theorem Near.rounded {k : ℕ} {x y : ℚ} (hk : k ≤ 8) (h : Close (slack ^ k) x y)
    (hx : Moderate x) : Near (k + 1) x (ofRat y) := by
  obtain ⟨z, hz, hround⟩ := ofRat_near (inRange_of_close hk h hx)
  refine ⟨z, hz, ?_⟩
  have hpos : ∀ j : ℕ, 0 ≤ slack ^ j := fun j => zero_le_one.trans (one_le_slack_pow j)
  rw [pow_succ, ← pow_one slack, ← pow_mul, one_mul]
  exact h.trans (hpos k) (hpos 1) hround

theorem Near.mono {j k : ℕ} {x : ℚ} {f : F32} (h : Near j x f) (hjk : j ≤ k) : Near k x f := by
  obtain ⟨y, hy, hclose⟩ := h
  exact ⟨y, hy, hclose.mono (pow_le_pow_right₀ (by norm_num [slack]) hjk)⟩

theorem near_finite {x : ℚ} (hx : 0 ≤ x) : Near 0 x (.finite x) :=
  ⟨x, rfl, pow_zero slack ▸ Close.refl hx⟩

theorem ofNat_near {n : ℕ} (hn : n ≤ 2 ^ 126) : Near 1 n (ofNat n) := by
  refine Near.rounded (Nat.zero_le _) (pow_zero slack ▸ Close.refl (Nat.cast_nonneg n)) ?_
  rcases Nat.eq_zero_or_pos n with rfl | hpos
  · exact .inl Nat.cast_zero
  · have hone : (1 : ℚ) ≤ n := by exact_mod_cast hpos
    exact .inr ⟨le_trans (by norm_num) hone, by exact_mod_cast hn⟩

theorem Near.add {k : ℕ} {x y : ℚ} {f g : F32} (hk : k ≤ 8) (hf : Near k x f) (hg : Near k y g)
    (hsum : Moderate (x + y)) : Near (k + 1) (x + y) (SinglePrecision.add f g) := by
  obtain ⟨x', rfl, hx⟩ := hf
  obtain ⟨y', rfl, hy⟩ := hg
  exact Near.rounded hk (hx.add hy) hsum

theorem Near.div {j k : ℕ} {x y : ℚ} {f g : F32} (hjk : j + k ≤ 8) (hf : Near j x f)
    (hg : Near k y g) (hy : 0 < y) (hquotient : Moderate (x / y)) :
    Near (j + k + 1) (x / y) (SinglePrecision.div f g) := by
  obtain ⟨x', rfl, hx⟩ := hf
  obtain ⟨y', rfl, hclose⟩ := hg
  have hpos : ∀ i : ℕ, 0 ≤ slack ^ i := fun i => zero_le_one.trans (one_le_slack_pow i)
  have hy' : 0 < y' := by
    by_contra hle
    have hzero := le_antisymm (not_lt.mp hle) hclose.right
    have hbelow := hclose.below
    rw [hzero, zero_mul] at hbelow
    exact absurd hy (not_lt.mpr hbelow)
  rw [SinglePrecision.div, if_pos hy'.ne']
  refine Near.rounded hjk ?_ hquotient
  rw [div_eq_mul_inv, div_eq_mul_inv, pow_add]
  exact hx.mul (hpos j) (hclose.inv hy hy')

theorem asSecsF32_near {elapsed : ℕ} (h : elapsed < 2 ^ 64 * 1000000000) :
    Near 3 (elapsed / 1000000000 : ℚ) (asSecsF32 elapsed) := by
  have hsplit : (elapsed / 1000000000 : ℚ) =
      (elapsed / 1000000000 : ℕ) + (elapsed % 1000000000 : ℕ) / 1000000000 := by
    rw [div_eq_iff (by norm_num), add_mul, div_mul_cancel₀ _ (by norm_num)]
    exact_mod_cast (Nat.div_add_mod' elapsed 1000000000).symm
  have hsecs : elapsed / 1000000000 < 2 ^ 64 := Nat.div_lt_of_lt_mul (by omega)
  have hnanos : elapsed % 1000000000 < 1000000000 := Nat.mod_lt _ (by norm_num)
  have hbillion : Near 0 1000000000 (ofNat 1000000000) := by
    have hexact : ofNat 1000000000 = .finite 1000000000 := by decide +kernel
    rw [hexact]
    exact near_finite (by norm_num)
  have hfraction : Near 2 ((elapsed % 1000000000 : ℕ) / 1000000000 : ℚ)
      (div (ofNat (elapsed % 1000000000)) (ofNat 1000000000)) := by
    refine Near.div (by norm_num) (ofNat_near (by omega)) hbillion (by norm_num) ?_
    generalize elapsed % 1000000000 = nanos at hnanos
    rcases Nat.eq_zero_or_pos nanos with rfl | hpos
    · exact .inl (by norm_num)
    · have hone : (1 : ℚ) ≤ nanos := by exact_mod_cast hpos
      have hmost : (nanos : ℚ) ≤ 1000000000 := by exact_mod_cast hnanos.le
      exact .inr ⟨by linarith, by linarith⟩
  rw [hsplit]
  refine Near.add (by norm_num) ((ofNat_near (by omega)).mono (by norm_num)) hfraction ?_
  rw [← hsplit]
  rcases Nat.eq_zero_or_pos elapsed with rfl | hpos
  · exact .inl (by norm_num)
  · have hone : (1 : ℚ) ≤ elapsed := by exact_mod_cast hpos
    have hmost : (elapsed : ℚ) ≤ 2 ^ 64 * 1000000000 := by exact_mod_cast h.le
    exact .inr ⟨by linarith, by linarith⟩

/-- A count over a time. -/
theorem rate_near {n elapsed : ℕ} (hn : n < 2 ^ 64) (hpos : 0 < elapsed)
    (h : elapsed < 2 ^ 64 * 1000000000) :
    Near 5 (n / (elapsed / 1000000000) : ℚ) (div (ofNat n) (asSecsF32 elapsed)) := by
  have hone : (1 : ℚ) ≤ elapsed := by exact_mod_cast hpos
  have hmost : (elapsed : ℚ) ≤ 2 ^ 64 * 1000000000 := by exact_mod_cast h.le
  have hsecs : (0 : ℚ) < elapsed / 1000000000 := by linarith
  refine Near.div (by norm_num) (ofNat_near (by omega)) (asSecsF32_near h) hsecs ?_
  rcases Nat.eq_zero_or_pos n with rfl | hcount
  · exact .inl (by norm_num)
  · have hleast : (1 : ℚ) ≤ n := by exact_mod_cast hcount
    have hlimit : (n : ℚ) ≤ 2 ^ 64 := by exact_mod_cast hn.le
    refine .inr ⟨?_, ?_⟩
    · rw [le_div_iff₀ hsecs]
      linarith
    · rw [div_le_iff₀ hsecs]
      linarith

theorem Near.error {x : ℚ} {f : F32} (h : Near 5 x f) :
    ∃ q, f = .finite q ∧ |q - x| ≤ x / 2 ^ 20 := by
  obtain ⟨q, hq, hclose⟩ := h
  refine ⟨q, hq, (hclose.error (one_le_slack_pow 5)).trans ?_⟩
  rw [div_eq_mul_inv]
  refine mul_le_mul_of_nonneg_left ?_ hclose.left
  norm_num [slack]

end CpuMinerSv2.SinglePrecision
