import Workbay.Queue.Admission
import Mathlib.Tactic.Linarith
import Mathlib.Tactic.FieldSimp

/-!
# Proofs: what an admission guarantees
-/

namespace Workbay.Queue

variable {α : Type}

@[simp] theorem require_eq_ok {value : Option α} {reason : String} {a : α} :
    require value reason = .ok a ↔ value = some a := by
  cases value <;> simp [require]

@[simp] theorem refuseIf_eq_ok {condition : Prop} [Decidable condition] {reason : String} {u : Unit} :
    refuseIf condition reason = .ok u ↔ ¬ condition := by
  unfold refuseIf
  split <;> simp [*]

theorem bind_eq_ok {β : Type} {x : Except Halt α} {f : α → Except Halt β} {b : β} :
    x >>= f = .ok b ↔ ∃ a, x = .ok a ∧ f a = .ok b := by
  cases x with
  | error e => simp [bind, Except.bind]
  | ok a => simp [bind, Except.bind]

/-- The gauges of a reading. -/
structure Gauges.Of (values : Gauges) (gauges : Readings) : Prop where
  pidsCurrent : finiteInteger (gauges.read "pids_current") = some values.pidsCurrent
  memoryAnonBytes : finiteInteger (gauges.read "memory_anon_bytes") = some values.memoryAnonBytes
  diskFreeBytes : finiteInteger (gauges.read "disk_free_bytes") = some values.diskFreeBytes
  diskFloorBytes : finiteInteger (gauges.read "disk_floor_bytes") = some values.diskFloorBytes
  memoryHeadroomPct :
    finiteInteger (gauges.read "memory_headroom_pct") = some values.memoryHeadroomPct
  pidsReserve : finiteInteger (gauges.read "pids_reserve") = some values.pidsReserve

variable {gauges : Readings} {costs : Costs} {n : Nat}

theorem requiredGauges_ok {values : Gauges} (h : requiredGauges gauges = .ok values) :
    values.Of gauges := by
  unfold requiredGauges at h
  simp only [bind_eq_ok, require_eq_ok, pure, Except.pure, Except.ok.injEq] at h
  obtain ⟨pidsCurrent, h₁, anon, h₂, _, _, _, _, free, h₃, floor, h₄, pct, h₅, _, _, _, _, reserve,
    h₆, rfl⟩ := h
  exact ⟨h₁, h₂, h₃, h₄, h₅, h₆⟩

theorem requiredCosts_ok {cost : Readings} (h : requiredCosts cost = .ok costs) :
    finiteInteger (cost.read "pids") = some costs.pids ∧
      finiteInteger (cost.read "anon_bytes") = some costs.anonBytes ∧
      finiteInteger (cost.read "disk_bytes") = some costs.diskBytes := by
  unfold requiredCosts at h
  simp only [bind_eq_ok, require_eq_ok, pure, Except.pure, Except.ok.injEq] at h
  obtain ⟨pids, h₁, anon, h₂, disk, h₃, rfl⟩ := h
  exact ⟨h₁, h₂, h₃⟩

/-- What an admitted candidate satisfies. -/
structure Admitted (diskMaxPct : DiskMaxPct) (gauges : Readings) (pending : Pending)
    (values : Gauges) (costs : Costs) (pidsMax memoryMax : Limit) (pendingDisk : Nat) : Prop where
  readings : values.Of gauges
  pidsLimit : limitValue gauges "pids_max" = some pidsMax
  memoryLimit : limitValue gauges "memory_max_bytes" = some memoryMax
  waiting : pendingDiskCost costs.diskBytes pending = some pendingDisk
  pids : admitPids values costs pidsMax = .ok ()
  memory : admitMemory values costs memoryMax = .ok ()
  disk : pendingDisk + costs.diskBytes + values.diskFloorBytes ≤ values.diskFreeBytes
  diskPct : admitDiskPct diskMaxPct gauges (pendingDisk + costs.diskBytes) = .ok ()

theorem admit_ok {diskMaxPct : DiskMaxPct} {pending : Pending} {cost : Readings} {phases : Phases}
    (h : admitGauges diskMaxPct gauges pending cost phases = .ok ()) :
    ∃ values costs pidsMax memoryMax pendingDisk, requiredCosts cost = .ok costs ∧
      Admitted diskMaxPct gauges pending values costs pidsMax memoryMax pendingDisk := by
  unfold admitGauges at h
  simp only [bind_eq_ok, require_eq_ok, refuseIf_eq_ok] at h
  obtain ⟨values, hvalues, pidsMax, hpidsMax, memoryMax, hmemoryMax, costs, hcosts, pendingDisk,
    hpending, _, _, _, hpids, _, hmemory, _, _, _, _, _, hdisk, _, hpct, _⟩ := h
  exact ⟨values, costs, pidsMax, memoryMax, pendingDisk, hcosts, requiredGauges_ok hvalues,
    hpidsMax, hmemoryMax, hpending, hpids, hmemory, by omega, hpct⟩

theorem admitPids_ok {values : Gauges} (h : admitPids values costs (.atMost n) = .ok ()) :
    values.pidsCurrent + costs.pids + values.pidsReserve ≤ n := by
  have hnot := refuseIf_eq_ok.mp h
  omega

theorem admitMemory_ok {values : Gauges} (h : admitMemory values costs (.atMost n) = .ok ()) :
    ∃ limit, memoryLimit n values.memoryHeadroomPct = .ok limit ∧
      ((values.memoryAnonBytes + costs.anonBytes : Nat) : ℚ) ≤ limit := by
  unfold admitMemory at h
  simp only [bind_eq_ok, refuseIf_eq_ok, not_lt] at h
  exact h

theorem le_of_projectedDiskPct {used available pending projection : Nat}
    (h : projectedDiskPct used available pending = some projection) {most : Nat}
    (hmost : projection ≤ most) : 100 * (used + pending) ≤ most * (used + available) := by
  unfold projectedDiskPct at h
  split at h
  · cases h
  · obtain rfl := Option.some.inj h
    generalize hd : used + available = d at *
    have hlt := (Nat.div_lt_iff_lt_mul (k := d) (by omega)).mp (Nat.lt_succ_of_le hmost)
    have hexpand : (most + 1) * d = most * d + d := by ring
    rw [Nat.succ_eq_add_one, hexpand] at hlt
    omega

theorem admitDiskPct_ok {diskMax : Option Nat} {projected : Nat}
    (h : admitDiskPct (some diskMax) gauges projected = .ok ()) :
    ∃ used available most, finiteInteger (gauges.read "disk_used_bytes") = some used ∧
      finiteInteger (gauges.read "disk_available_bytes") = some available ∧ diskMax = some most ∧
      100 * (used + projected) ≤ most * (used + available) := by
  unfold admitDiskPct at h
  simp only [bind_eq_ok, require_eq_ok, refuseIf_eq_ok, not_lt] at h
  obtain ⟨used, hused, available, havailable, projection, hprojection, most, hmost, hle⟩ := h
  exact ⟨used, available, most, hused, havailable, hmost, le_of_projectedDiskPct hprojection hle⟩

/-! ## The rounding of the memory limit -/

theorem roundHalfEven_le (q : ℚ) : (roundHalfEven q : ℚ) ≤ q + 1 / 2 := by
  have hfloor := Int.floor_le q
  unfold roundHalfEven
  split_ifs <;> push_cast <;> linarith

theorem powerOfTwo_eq (e : Int) : powerOfTwo e = (2 : ℚ) ^ e := by
  unfold powerOfTwo
  split
  · rename_i h
    obtain ⟨n, rfl⟩ := Int.eq_ofNat_of_zero_le h
    simp
  · rename_i h
    obtain ⟨n, hn⟩ := Int.eq_ofNat_of_zero_le (show 0 ≤ -e by omega)
    rw [hn, show e = -(n : Int) by omega]
    simp

theorem ulp_le {q : ℚ} {k : Nat} (hpos : 0 < q) (hle : q ≤ 2 ^ k) : ulp q ≤ 2 ^ ((k : Int) - 52) := by
  have hden : (q.den : ℚ) < 2 ^ (q.den.log2 + 1) := by
    exact_mod_cast Nat.lt_log2_self
  have hnum : (2 : ℚ) ^ q.num.natAbs.log2 ≤ q.num.natAbs := by
    have hne : q.num.natAbs ≠ 0 := by
      simpa using (Rat.num_pos.mpr hpos).ne'
    exact_mod_cast Nat.log2_self_le hne
  have hq : q * q.den = q.num.natAbs := by
    rw [Rat.mul_den_eq_num, ← Int.cast_natCast, Int.natCast_natAbs,
      abs_of_pos (Rat.num_pos.mpr hpos)]
  unfold ulp
  simp only [powerOfTwo_eq]
  refine zpow_le_zpow_right₀ (by norm_num) (max_le (by omega) ?_)
  have hbound : ∀ e : Int, (2 : ℚ) ^ e ≤ q → e ≤ k := by
    intro e he
    have h := he.trans hle
    rw [← zpow_natCast] at h
    exact (zpow_le_zpow_iff_right₀ (by norm_num)).mp h
  split
  · rename_i h
    rw [abs_of_pos hpos] at h
    have := hbound _ h
    omega
  · have hbelow : (2 : ℚ) ^ ((q.num.natAbs.log2 : Int) - q.den.log2 - 1) ≤ q := by
      have hsplit : (2 : ℚ) ^ ((q.num.natAbs.log2 : Int) - q.den.log2 - 1) * 2 ^ (q.den.log2 + 1) =
          2 ^ q.num.natAbs.log2 := by
        rw [← zpow_natCast, ← zpow_natCast, ← zpow_add₀ (by norm_num)]
        congr 1
        push_cast
        ring
      have hpow : (0 : ℚ) < 2 ^ (q.den.log2 + 1) := by positivity
      nlinarith
    have := hbound _ hbelow
    omega

/-- Below `2 ^ 46` the rounding of a number of hundredths does not reach the next integer. -/
theorem le_of_memoryLimit {memoryMax pct : Nat} {limit : ℚ}
    (h : memoryLimit memoryMax pct = .ok limit) (hn : (n : ℚ) ≤ limit)
    (hsmall : memoryMax * pct ≤ 100 * 2 ^ 46) : 100 * n ≤ memoryMax * pct := by
  unfold memoryLimit at h
  split at h
  · rename_i x hx
    obtain rfl := Except.ok.inj h
    unfold binary64 at hx
    simp only at hx
    split at hx
    · obtain rfl := Option.some.inj hx
      generalize hm : memoryMax * pct = m at *
      have hm46 : ((m : Nat) : ℚ) ≤ 100 * 2 ^ 46 := by exact_mod_cast hsmall
      rcases Nat.eq_zero_or_pos m with rfl | hpos
      · have hzero : ((n : ℚ)) ≤ 0 := by simpa [roundHalfEven] using hn
        have : n = 0 := by exact_mod_cast le_antisymm hzero (Nat.cast_nonneg n)
        omega
      · have hq : (0 : ℚ) < (m : ℚ) / 100 := by positivity
        have hulp := ulp_le hq (show (m : ℚ) / 100 ≤ 2 ^ 46 by linarith)
        have hulpPos : 0 < ulp ((m : ℚ) / 100) := powerOfTwo_pos _
        have hround := mul_le_mul_of_nonneg_right (roundHalfEven_le ((m : ℚ) / 100 / ulp ((m : ℚ) / 100)))
          hulpPos.le
        rw [add_mul, div_mul_cancel₀ _ hulpPos.ne'] at hround
        have hunit : (2 : ℚ) ^ (((46 : Nat) : Int) - 52) = 1 / 64 := by norm_num
        rw [hunit] at hulp
        have hlt : (100 * n : ℚ) < m + 1 := by linarith
        have : 100 * n < m + 1 := by exact_mod_cast hlt
        omega
    · cases hx
  · cases h

end Workbay.Queue
