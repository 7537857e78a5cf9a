import Workbay.Data.Number
import Mathlib.Algebra.Order.Field.Power
import Mathlib.Tactic.Linarith

/-!
# Rounding to a binary64 is monotone

Two values between the same powers of two are rounded to multiples of one distance; a power of
two between two values is a multiple of both distances, so neither is rounded past it.
-/

namespace Workbay

/-! ## Powers of two -/

theorem powerOfTwo_eq (e : Int) : powerOfTwo e = (2 : ℚ) ^ e := by
  unfold powerOfTwo
  split
  · rename_i h
    obtain ⟨n, rfl⟩ := Int.eq_ofNat_of_zero_le h
    simp
  · rename_i h
    obtain ⟨n, hn⟩ := Int.eq_ofNat_of_zero_le (a := -e) (by omega)
    have he : e = -(n : Int) := by omega
    subst he
    simp

/-- The exponent of the power of two at or below a value. -/
def exponent (q : ℚ) : Int :=
  let e : Int := (q.num.natAbs.log2 : Int) - (q.den.log2 : Int)
  if powerOfTwo e ≤ |q| then e else e - 1

theorem ulp_eq (q : ℚ) : ulp q = (2 : ℚ) ^ max (-1074) (exponent q - 52) := powerOfTwo_eq _

variable {q r : ℚ}

theorem exponent_spec (h : 0 < q) : (2 : ℚ) ^ exponent q ≤ q ∧ q < (2 : ℚ) ^ (exponent q + 1) := by
  have hnum : 0 < q.num := Rat.num_pos.mpr h
  have hn : q.num.natAbs ≠ 0 := by omega
  have hd : q.den ≠ 0 := q.den_ne_zero
  have hqn : ((q.num.natAbs : ℕ) : ℚ) = q * q.den := by
    have hcast : ((q.num.natAbs : ℕ) : ℚ) = (q.num : ℚ) := by
      rw [← Int.cast_natCast, Int.natAbs_of_nonneg hnum.le]
    rw [hcast, Rat.mul_den_eq_num]
  have hnlow : (2 : ℚ) ^ q.num.natAbs.log2 ≤ q * q.den := by
    rw [← hqn]
    exact_mod_cast Nat.log2_self_le hn
  have hnhigh : q * q.den < (2 : ℚ) ^ (q.num.natAbs.log2 + 1) := by
    rw [← hqn]
    exact_mod_cast Nat.lt_log2_self
  have hdlow : (2 : ℚ) ^ q.den.log2 ≤ q.den := by
    exact_mod_cast Nat.log2_self_le hd
  have hdhigh : (q.den : ℚ) < (2 : ℚ) ^ (q.den.log2 + 1) := by
    exact_mod_cast Nat.lt_log2_self
  have hdpos : (0 : ℚ) < q.den := by positivity
  have htwo : (2 : ℚ) ≠ 0 := by norm_num
  obtain ⟨e, he⟩ : ∃ e : Int, e = (q.num.natAbs.log2 : Int) - (q.den.log2 : Int) := ⟨_, rfl⟩
  have hpow : (2 : ℚ) ^ e * (2 : ℚ) ^ q.den.log2 = (2 : ℚ) ^ q.num.natAbs.log2 := by
    rw [← zpow_natCast, ← zpow_natCast, ← zpow_add₀ htwo]
    congr 1
    omega
  have hpos : (0 : ℚ) < (2 : ℚ) ^ e := by positivity
  have hhigh : q < (2 : ℚ) ^ (e + 1) := by
    rw [zpow_add₀ htwo, zpow_one]
    have hle : q * (2 : ℚ) ^ q.den.log2 < (2 : ℚ) ^ e * 2 * (2 : ℚ) ^ q.den.log2 := by
      calc q * (2 : ℚ) ^ q.den.log2 ≤ q * q.den := mul_le_mul_of_nonneg_left hdlow h.le
        _ < (2 : ℚ) ^ (q.num.natAbs.log2 + 1) := hnhigh
        _ = (2 : ℚ) ^ e * 2 * (2 : ℚ) ^ q.den.log2 := by
          rw [pow_succ, ← hpow]
          ring
    exact lt_of_mul_lt_mul_right hle (by positivity)
  have hlow : (2 : ℚ) ^ (e - 1) ≤ q := by
    rw [zpow_sub₀ htwo, zpow_one]
    have hle : (2 : ℚ) ^ e / 2 * (2 : ℚ) ^ (q.den.log2 + 1) ≤ q * (2 : ℚ) ^ (q.den.log2 + 1) := by
      calc (2 : ℚ) ^ e / 2 * (2 : ℚ) ^ (q.den.log2 + 1) = (2 : ℚ) ^ q.num.natAbs.log2 := by
            rw [pow_succ, ← hpow]
            ring
        _ ≤ q * q.den := hnlow
        _ ≤ q * (2 : ℚ) ^ (q.den.log2 + 1) := mul_le_mul_of_nonneg_left hdhigh.le h.le
    exact le_of_mul_le_mul_right hle (by positivity)
  unfold exponent
  simp only [← he, powerOfTwo_eq, abs_of_pos h]
  split
  · rename_i hge
    exact ⟨hge, hhigh⟩
  · rename_i hlt
    rw [sub_add_cancel]
    exact ⟨hlow, not_le.mp hlt⟩

theorem exponent_mono (hq : 0 < q) (h : q ≤ r) : exponent q ≤ exponent r := by
  by_contra hlt
  have hle : (2 : ℚ) ^ (exponent r + 1) ≤ (2 : ℚ) ^ exponent q :=
    zpow_le_zpow_right₀ (by norm_num) (by omega)
  have hlow := (exponent_spec hq).1
  have hhigh := (exponent_spec (hq.trans_le h)).2
  linarith

/-! ## Rounding to an integer -/

theorem roundHalfEven_bounds (q : ℚ) : ⌊q⌋ ≤ roundHalfEven q ∧ roundHalfEven q ≤ ⌈q⌉ := by
  have hle := Int.floor_le_ceil q
  unfold roundHalfEven
  by_cases hint : q = ⌊q⌋
  · have hhalf : q - ⌊q⌋ < 1 / 2 := by
      rw [← hint, sub_self]
      norm_num
    rw [if_pos hhalf]
    exact ⟨le_rfl, hle⟩
  · have hceil : ⌊q⌋ + 1 ≤ ⌈q⌉ := by
      have hlt : (⌊q⌋ : ℚ) < q := lt_of_le_of_ne (Int.floor_le q) (Ne.symm hint)
      have hlt' := hlt.trans_le (Int.le_ceil q)
      exact_mod_cast hlt'
    split_ifs <;> omega

theorem roundHalfEven_mono (h : q ≤ r) : roundHalfEven q ≤ roundHalfEven r := by
  by_cases hfloor : ⌊q⌋ = ⌊r⌋
  · unfold roundHalfEven
    rw [hfloor]
    split_ifs <;> first | omega | linarith
  · have hlt : ⌊q⌋ + 1 ≤ ⌊r⌋ := by
      have hle := Int.floor_le_floor h
      omega
    have hceil : ⌈q⌉ ≤ ⌊q⌋ + 1 := Int.ceil_le_floor_add_one q
    have hq := (roundHalfEven_bounds q).2
    have hr := (roundHalfEven_bounds r).1
    omega

theorem roundHalfEven_le {n : Int} (h : q ≤ n) : roundHalfEven q ≤ n :=
  (roundHalfEven_bounds q).2.trans (Int.ceil_le.mpr h)

theorem le_roundHalfEven {n : Int} (h : (n : ℚ) ≤ q) : n ≤ roundHalfEven q :=
  (Int.le_floor.mpr h).trans (roundHalfEven_bounds q).1

/-! ## Rounding to a binary64 -/

/-- The multiple of the distance that is nearest to a value. -/
def rounded (q : ℚ) : ℚ := (roundHalfEven (q / ulp q) : ℚ) * ulp q

theorem ulp_pos (q : ℚ) : 0 < ulp q := powerOfTwo_pos _

theorem rounded_nonneg (h : 0 ≤ q) : 0 ≤ rounded q :=
  mul_nonneg (Int.cast_nonneg (roundHalfEven_nonneg (div_nonneg h (ulp_pos q).le))) (ulp_pos q).le

theorem rounded_nonpos (h : q ≤ 0) : rounded q ≤ 0 := by
  have hdiv : q / ulp q ≤ ((0 : Int) : ℚ) := by
    rw [Int.cast_zero]
    exact div_nonpos_of_nonpos_of_nonneg h (ulp_pos q).le
  have hround : ((roundHalfEven (q / ulp q) : Int) : ℚ) ≤ 0 := by
    exact_mod_cast roundHalfEven_le hdiv
  exact mul_nonpos_of_nonpos_of_nonneg hround (ulp_pos q).le

theorem rounded_le {p : ℚ} {n : Nat} (hp : p = (2 : ℚ) ^ n * ulp q) (h : q ≤ p) :
    rounded q ≤ p := by
  have hle : q / ulp q ≤ ((2 ^ n : Int) : ℚ) := by
    rw [div_le_iff₀ (ulp_pos q)]
    push_cast
    exact h.trans hp.le
  calc rounded q ≤ ((2 ^ n : Int) : ℚ) * ulp q :=
        mul_le_mul_of_nonneg_right (by exact_mod_cast roundHalfEven_le hle) (ulp_pos q).le
    _ = p := by
      push_cast
      exact hp.symm

@[inherit_doc rounded_le]
theorem le_rounded {p : ℚ} {n : Nat} (hp : p = (2 : ℚ) ^ n * ulp q) (h : p ≤ q) :
    p ≤ rounded q := by
  have hle : ((2 ^ n : Int) : ℚ) ≤ q / ulp q := by
    rw [le_div_iff₀ (ulp_pos q)]
    push_cast
    exact hp.ge.trans h
  calc p = ((2 ^ n : Int) : ℚ) * ulp q := by
        push_cast
        exact hp
    _ ≤ rounded q :=
      mul_le_mul_of_nonneg_right (by exact_mod_cast le_roundHalfEven hle) (ulp_pos q).le

theorem rounded_mono (hq : 0 ≤ q) (h : q ≤ r) : rounded q ≤ rounded r := by
  rcases hq.eq_or_lt with rfl | hpos
  · have hzero : rounded 0 = 0 := by
      have hround : roundHalfEven 0 = 0 := by decide +kernel
      unfold rounded
      rw [zero_div, hround, Int.cast_zero, zero_mul]
    rw [hzero]
    exact rounded_nonneg h
  have hexp := exponent_mono hpos h
  by_cases hsame : max (-1074) (exponent q - 52) = max (-1074) (exponent r - 52)
  · have hulp : ulp q = ulp r := by rw [ulp_eq, ulp_eq, hsame]
    unfold rounded
    rw [hulp]
    have hdiv : q / ulp r ≤ r / ulp r := div_le_div_of_nonneg_right h (ulp_pos r).le
    exact mul_le_mul_of_nonneg_right (by exact_mod_cast roundHalfEven_mono hdiv) (ulp_pos r).le
  · have htwo : (2 : ℚ) ≠ 0 := by norm_num
    have hmultiple : ∀ s : ℚ, max (-1074) (exponent s - 52) ≤ exponent r →
        ∃ n : Nat, (2 : ℚ) ^ exponent r = (2 : ℚ) ^ n * ulp s := by
      intro s hs
      refine ⟨(exponent r - max (-1074) (exponent s - 52)).toNat, ?_⟩
      rw [ulp_eq, ← zpow_natCast, ← zpow_add₀ htwo]
      congr 1
      omega
    obtain ⟨n, hn⟩ := hmultiple q (by omega)
    obtain ⟨m, hm⟩ := hmultiple r (by omega)
    have hbelow : q ≤ (2 : ℚ) ^ exponent r := by
      have hle : (2 : ℚ) ^ (exponent q + 1) ≤ (2 : ℚ) ^ exponent r :=
        zpow_le_zpow_right₀ (by norm_num) (by omega)
      exact (exponent_spec hpos).2.le.trans hle
    exact (rounded_le hn hbelow).trans (le_rounded hm (exponent_spec (hpos.trans_le h)).1)

theorem binary64_eq_some {x : ℚ} : binary64 q = some x ↔ x = rounded q ∧ |x| < powerOfTwo 1024 := by
  unfold binary64 rounded
  simp only
  split
  · rename_i hlt
    constructor
    · rintro ⟨⟩
      exact ⟨rfl, hlt⟩
    · rintro ⟨rfl, -⟩
      rfl
  · rename_i hge
    constructor
    · rintro ⟨⟩
    · rintro ⟨rfl, hlt⟩
      exact absurd hlt hge

theorem binary64_mono {y : ℚ} (hq : 0 ≤ q) (h : q ≤ r) (hr : binary64 r = some y) :
    ∃ x, binary64 q = some x ∧ x ≤ y := by
  obtain ⟨rfl, hfinite⟩ := binary64_eq_some.mp hr
  have hle := rounded_mono hq h
  refine ⟨rounded q, binary64_eq_some.mpr ⟨rfl, ?_⟩, hle⟩
  rw [abs_of_nonneg (rounded_nonneg hq)]
  rw [abs_of_nonneg (rounded_nonneg (hq.trans h))] at hfinite
  exact hle.trans_lt hfinite

end Workbay
