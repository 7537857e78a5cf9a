import Workbay.Queue.Burst
import Workbay.Queue.Proofs.AdmissionProofs

/-!
# Proofs: a burst never over-commits

What a reading is charged with covers every launch of the pass: the reservation of a launch is
charged in full, and a credit takes away no more than the reading already shows of the same
launch.
-/

namespace Workbay.Queue

open Effects List

theorem jobCredit_le (launch : Accepted) (sample : Option Readings) (began ended : Int)
    (r : Resource) : (jobCredit launch sample began ended).credit r ≤ launch.cost r := by
  cases sample with
  | none => exact Nat.zero_le _
  | some sample =>
    unfold jobCredit
    simp only
    split
    · show ((sampleValue launch sample r).map (min (launch.cost r))).getD 0 ≤ launch.cost r
      cases sampleValue launch sample r with
      | none => exact Nat.zero_le _
      | some value => exact Nat.min_le_left _ _
    · exact Nat.zero_le _

theorem ownCredit_le (accepted : List Accepted) (began ended : Int)
    (entry : Accepted × Option Readings) (r : Resource) :
    (ownCredit accepted began ended entry).credit r ≤ entry.1.cost r := by
  unfold ownCredit
  simp only
  split
  · exact jobCredit_le entry.1 entry.2 began ended r
  · exact Nat.zero_le _

theorem withdraw_le (a : Attribution) (r r' : Resource) (known : Bool) :
    (a.withdraw r known).credit r' ≤ a.credit r' := by
  unfold Attribution.withdraw
  split
  · simp only [Function.update_apply]
    split
    · exact Nat.zero_le _
    · exact le_refl _
  · exact le_refl _

/-- No launch is credited more than its reservation. -/
def Covered (launches : List Accepted) (attributions : List Attribution) : Prop :=
  List.Forall₂ (fun launch a => ∀ r, a.credit r ≤ launch.cost r) launches attributions

variable {launches : List Accepted}

theorem Covered.checkTotal {attributions : List Attribution} (h : Covered launches attributions)
    (measure : Readings) (samples : List (Option Readings)) (r : Resource) :
    Covered launches (checkTotal measure samples r attributions) := by
  have hwithdraw : ∀ known, Covered launches (attributions.map (·.withdraw r known)) := by
    intro known
    refine forall₂_map_right_iff.mpr (h.imp fun launch a hle r' => ?_)
    exact (withdraw_le a r r' known).trans (hle r')
  unfold Queue.checkTotal
  split
  · split
    · exact h
    · exact hwithdraw true
  · exact hwithdraw false

theorem consistentJobCredits_covered {accepted : List Accepted} {samples : List (Option Readings)}
    (hlength : samples.length = accepted.length) (measure : Readings) (began ended : Int) :
    Covered accepted (consistentJobCredits accepted samples measure began ended) := by
  refine Covered.checkTotal (Covered.checkTotal ?_ _ _ _) _ _ _
  have hzip : ∀ (launches : List Accepted) (samples : List (Option Readings)),
      samples.length = launches.length →
      Covered launches ((launches.zip samples).map (ownCredit accepted began ended)) := by
    intro launches
    induction launches with
    | nil => exact fun _ _ => List.Forall₂.nil
    | cons launch launches ih =>
      intro samples hlength
      cases samples with
      | nil => cases hlength
      | cons sample samples =>
        exact .cons (ownCredit_le accepted began ended _) (ih samples (Nat.succ.inj hlength))
  exact hzip accepted samples hlength

/-- What a list of launches reserves of a resource. -/
def reservedBy (launches : List Accepted) (r : Resource) : Nat := (launches.map (·.cost r)).sum

/-- The sum of some amounts of a resource. -/
def total (amounts : List Amounts) (r : Resource) : Nat := (amounts.map (· r)).sum

/-- What launches hold of a resource: each its reservation or its share, whichever is more. -/
def held (launches : List Accepted) (shares : List Amounts) (r : Resource) : Nat :=
  ((launches.zip shares).map fun entry => max (entry.1.cost r) (entry.2 r)).sum

theorem total_le_reservedBy {credits : List Amounts}
    (h : List.Forall₂ (fun (launch : Accepted) (credit : Amounts) => ∀ r, credit r ≤ launch.cost r)
      launches credits) (r : Resource) : total credits r ≤ reservedBy launches r := by
  induction h with
  | nil => exact le_refl _
  | cons hle _ ih => exact Nat.add_le_add (hle r) ih

theorem held_le {credits shares : List Amounts}
    (hcost : List.Forall₂ (fun (launch : Accepted) (credit : Amounts) =>
      ∀ r, credit r ≤ launch.cost r) launches credits)
    (hshare : List.Forall₂ (fun credit share : Amounts => ∀ r, credit r ≤ share r) credits shares)
    (r : Resource) :
    held launches shares r + total credits r ≤ reservedBy launches r + total shares r := by
  induction hcost generalizing shares with
  | nil =>
    cases hshare
    exact le_refl _
  | @cons launch credit launches credits hle _ ih =>
    cases hshare with
    | @cons _ share _ shares hle' hshares =>
      have hrest := ih hshares
      have hcost := hle r
      have hshare := hle' r
      simp only [held, total, reservedBy, zip_cons_cons, map_cons, sum_cons] at *
      omega

variable (readings : Readings)

theorem read_set_self (key : String) (value : Reading) :
    Readings.read (readings.set key value) key = value :=
  Dict.getD_set_self readings key value .none

theorem charge_read_of_ne {gauge name : String} (amount : Int)
    (hne : name ≠ gauge) : (charge readings gauge amount).read name = readings.read name := by
  unfold charge
  split
  · exact Dict.getD_set_of_ne _ _ _ hne
  · rfl

theorem charge_read_self (gauge : String) (amount : Nat) :
    finiteInteger ((charge readings gauge amount).read gauge) =
      (finiteInteger (readings.read gauge)).map (· + amount) := by
  unfold charge
  split
  · rename_i current hcurrent
    rw [read_set_self, hcurrent]
    simp only [finiteInteger, Option.map_some]
    rw [if_pos (by omega)]
    rfl
  · rename_i hnone
    rw [hnone]
    rfl

/-- A gauge is raised by some amount in another reading, and the others are the same. -/
structure Raised (before after : Readings) (pids anonBytes : Nat) : Prop where
  pids : finiteInteger (after.read "pids_current") =
    (finiteInteger (before.read "pids_current")).map (· + pids)
  anonBytes : finiteInteger (after.read "memory_anon_bytes") =
    (finiteInteger (before.read "memory_anon_bytes")).map (· + anonBytes)
  other : ∀ name, name ≠ "pids_current" → name ≠ "memory_anon_bytes" →
    after.read name = before.read name

theorem raised_charge (pids anonBytes : Nat) :
    Raised readings (charge (charge readings Resource.pids.gauge pids) Resource.anonBytes.gauge
      anonBytes) pids anonBytes where
  pids := by
    rw [show Resource.anonBytes.gauge = "memory_anon_bytes" from rfl,
      show Resource.pids.gauge = "pids_current" from rfl, charge_read_of_ne _ _ (by decide),
      charge_read_self]
  anonBytes := by
    rw [show Resource.anonBytes.gauge = "memory_anon_bytes" from rfl,
      show Resource.pids.gauge = "pids_current" from rfl, charge_read_self,
      charge_read_of_ne _ _ (by decide)]
  other name hpids hanon := by
    rw [show Resource.anonBytes.gauge = "memory_anon_bytes" from rfl,
      show Resource.pids.gauge = "pids_current" from rfl, charge_read_of_ne _ _ hanon,
      charge_read_of_ne _ _ hpids]

theorem Raised.refl : Raised readings readings 0 0 where
  pids := by simp
  anonBytes := by simp
  other _ _ _ := rfl

theorem Raised.trans {first second third : Readings} {p p' a a' : Nat}
    (h : Raised first second p a) (h' : Raised second third p' a') :
    Raised first third (p + p') (a + a') where
  pids := by
    rw [h'.pids, h.pids, Option.map_map]
    exact congrArg (fun f => Option.map f _) (funext fun n => Nat.add_assoc n p p')
  anonBytes := by
    rw [h'.anonBytes, h.anonBytes, Option.map_map]
    exact congrArg (fun f => Option.map f _) (funext fun n => Nat.add_assoc n a a')
  other name hpids hanon := (h'.other name hpids hanon).trans (h.other name hpids hanon)

/-- No reservation is credited in more than full. -/
def Credited (launches : List Accepted) (credits : List Amounts) : Prop :=
  List.Forall₂ (fun (launch : Accepted) (credit : Amounts) => ∀ r, credit r ≤ launch.cost r)
    launches credits

/-- The reading that candidates are judged against is charged with every launch. -/
structure Burst.Fresh (b : Burst) : Prop where
  credited : Credited b.accepted b.credits
  unobserved : ∀ r, b.unobserved r = (reservedBy b.accepted r - total b.credits r : Nat)
  raised : Raised b.measure b.decisionMeasure
    (reservedBy b.accepted .pids - total b.credits .pids)
    (reservedBy b.accepted .anonBytes - total b.credits .anonBytes)

/-- What holds whenever a row is visited. -/
structure Burst.Charged (b : Burst) : Prop where
  reserved : ∀ r, b.reserved r = reservedBy b.accepted r
  fresh : b.remeasure = false → b.Fresh

theorem charged_baseline (queuedRows : List String) (baseline : Readings) :
    Burst.Charged { rest := queuedRows, measure := baseline, decisionMeasure := baseline } where
  reserved _ := rfl
  fresh _ := ⟨.nil, fun _ => rfl, Raised.refl baseline⟩

theorem Burst.Charged.withRest {b : Burst} (h : b.Charged) (rest : List String)
    (costs : Dict String Readings) : Burst.Charged { b with rest := rest, costs := costs } where
  reserved := h.reserved
  fresh hfresh := ⟨(h.fresh hfresh).credited, (h.fresh hfresh).unobserved, (h.fresh hfresh).raised⟩

theorem Burst.Charged.launched {b : Burst} (h : b.Charged) (cfg : Settings) (job : String)
    (candidate : Candidate) (latest : Option JobState) :
    (b.launched cfg job candidate latest).Charged where
  reserved r := by
    simp only [Burst.launched, reservedBy, map_append, sum_append, map_cons,
      map_nil, sum_cons, sum_nil, Nat.add_zero, h.reserved r]
  fresh hfresh := by cases hfresh

theorem Burst.Charged.charged {b : Burst} (h : b.Charged) {samples : List (Option Readings)}
    (hlength : samples.length = b.accepted.length) (began ended : Int) (measure : Readings) :
    (b.charged samples began ended measure).Charged ∧
      (b.charged samples began ended measure).remeasure = false := by
  have hcredited : Credited b.accepted
      ((consistentJobCredits b.accepted samples measure began ended).map (·.credit)) :=
    forall₂_map_right_iff.mpr (consistentJobCredits_covered hlength measure began ended)
  have hunobserved : ∀ r, (b.charged samples began ended measure).unobserved r =
      (reservedBy b.accepted r - total ((consistentJobCredits b.accepted samples measure began
        ended).map (·.credit)) r : Nat) := by
    intro r
    have hle := total_le_reservedBy hcredited r
    show ((b.reserved r : Int) - (total _ r : Nat)) = _
    rw [h.reserved r]
    omega
  refine ⟨⟨h.reserved, fun _ => ⟨hcredited, hunobserved, ?_⟩⟩, rfl⟩
  show Raised measure (charge (charge measure Resource.pids.gauge
    ((b.charged samples began ended measure).unobserved .pids)) Resource.anonBytes.gauge
    ((b.charged samples began ended measure).unobserved .anonBytes)) _ _
  rw [hunobserved .pids, hunobserved .anonBytes]
  exact raised_charge measure _ _

/-- What a reading is made of: the share of every launch of the pass, and everything else. -/
structure Truth where
  base : Amounts
  shares : List Amounts

/-- The gauge that shows how much of a resource is used. -/
def usageGauge : Resource → String
  | .pids => "pids_current"
  | .anonBytes => "memory_anon_bytes"
  | .diskBytes => "disk_used_bytes"

/-- A reading shows the base and the shares together, and no credit exceeds the share of its
job. -/
structure Admission.Truthful (a : Admission) (truth : Truth) : Prop where
  usage : ∀ r n, finiteInteger (a.measure.read (usageGauge r)) = some n →
    n = truth.base r + total truth.shares r
  credits : List.Forall₂ (fun credit share : Amounts => ∀ r, credit r ≤ share r) a.credits
    truth.shares

/-- What a candidate asks for. -/
def Admission.request (a : Admission) (r : Resource) : Nat :=
  (finiteInteger (a.cost.read r.key)).getD 0

/-- What is taken once a candidate is started: the base, what every launch holds and the request
of the candidate. -/
def Admission.taken (a : Admission) (truth : Truth) (r : Resource) : Nat :=
  truth.base r + held a.accepted truth.shares r + a.request r

/-- What is taken stays within every limit. -/
structure Admission.Within (a : Admission) (diskMaxPct : DiskMaxPct) (truth : Truth) : Prop where
  pids : ∃ limit reserve, limitValue a.measure "pids_max" = some limit ∧
    finiteInteger (a.measure.read "pids_reserve") = some reserve ∧
    ∀ n, limit = .atMost n → a.taken truth .pids + reserve ≤ n
  memory : ∃ limit pct, limitValue a.measure "memory_max_bytes" = some limit ∧
    finiteInteger (a.measure.read "memory_headroom_pct") = some pct ∧
    ∀ n, limit = .atMost n → ∃ most, memoryLimit n pct = .ok most ∧
      (a.taken truth .anonBytes : ℚ) ≤ most ∧
      (n * pct ≤ 100 * 2 ^ 46 → 100 * a.taken truth .anonBytes ≤ n * pct)
  /-- The disk has as much as the base, the shares and the free space together. -/
  disk : ∃ free floor, finiteInteger (a.measure.read "disk_free_bytes") = some free ∧
    finiteInteger (a.measure.read "disk_floor_bytes") = some floor ∧
    a.taken truth .diskBytes + floor ≤ truth.base .diskBytes + total truth.shares .diskBytes + free
  diskPct : ∀ setting, diskMaxPct = some setting → ∃ used available most,
    finiteInteger (a.measure.read "disk_used_bytes") = some used ∧
    finiteInteger (a.measure.read "disk_available_bytes") = some available ∧
    setting = some most ∧ 100 * a.taken truth .diskBytes ≤ most * (used + available)

theorem le_pendingDiskCost {candidate unobserved pendingDisk : Nat} {pending : List Reading}
    (h : pendingDiskCost candidate (.entries (.num (.int unobserved) :: pending)) =
      some pendingDisk) : unobserved ≤ pendingDisk := by
  simp only [pendingDiskCost, mapM_cons] at h
  rw [show finiteInteger (.num (.int unobserved)) = some unobserved by simp [finiteInteger]] at h
  cases hrest : pending.mapM finiteInteger with
  | none => simp [hrest] at h
  | some rest =>
    simp [hrest] at h
    omega

section

variable {cfg : Settings} {b : Burst} {cost : Readings} {truth : Truth}

theorem taken_le (hb : b.Fresh)
    (htruth : Admission.Truthful ⟨b.measure, b.accepted, b.credits, cost⟩ truth) (r : Resource) :
    Admission.taken ⟨b.measure, b.accepted, b.credits, cost⟩ truth r ≤
      truth.base r + total truth.shares r + (reservedBy b.accepted r - total b.credits r) +
        (finiteInteger (cost.read r.key)).getD 0 := by
  have hheld := held_le hb.credited htruth.credits r
  have hcredits := total_le_reservedBy hb.credited r
  unfold Admission.taken Admission.request
  simp only
  omega

variable {holder : HolderUsage} {pending : List Reading}

theorem raised_candidateMeasure (hb : b.Fresh) (holder : HolderUsage) :
    Raised b.measure (b.candidateMeasure holder)
      (reservedBy b.accepted .pids - total b.credits .pids + holder.pids)
      (reservedBy b.accepted .anonBytes - total b.credits .anonBytes + holder.anonBytes) :=
  hb.raised.trans (raised_charge b.decisionMeasure holder.pids holder.anonBytes)

theorem within_of_admitCandidate (hb : b.Fresh)
    (h : admitCandidate cfg b holder pending cost = .ok ())
    (htruth : Admission.Truthful ⟨b.measure, b.accepted, b.credits, cost⟩ truth) :
    Admission.Within ⟨b.measure, b.accepted, b.credits, cost⟩ cfg.diskMaxPct truth := by
  obtain ⟨values, costs, pidsMax, memoryMax, pendingDisk, hcosts, hadmitted⟩ := admit_ok h
  obtain ⟨hcostPids, hcostAnon, hcostDisk⟩ := requiredCosts_ok hcosts
  have hraised := raised_candidateMeasure hb holder
  have hread : ∀ name, name ≠ "pids_current" → name ≠ "memory_anon_bytes" →
      (b.candidateMeasure holder).read name = b.measure.read name := hraised.other
  have hwaits : reservedBy b.accepted .diskBytes - total b.credits .diskBytes ≤ pendingDisk := by
    have hpending := hadmitted.waiting
    rw [hb.unobserved .diskBytes] at hpending
    exact le_pendingDiskCost hpending
  constructor
  · refine ⟨pidsMax, values.pidsReserve, ?_, ?_, fun n hn => ?_⟩
    · rw [← hadmitted.pidsLimit]
      simp only [limitValue, hread "pids_max" (by decide) (by decide)]
    · rw [← hadmitted.readings.pidsReserve, hread "pids_reserve" (by decide) (by decide)]
    · subst hn
      have hle := admitPids_ok hadmitted.pids
      have hcurrent := hadmitted.readings.pidsCurrent
      rw [hraised.pids] at hcurrent
      obtain ⟨usage, husage, hvalue⟩ := Option.map_eq_some_iff.mp hcurrent
      have hsplit := htruth.usage .pids usage husage
      have htaken := taken_le hb htruth .pids
      simp only [Resource.key, hcostPids, Option.getD_some] at htaken
      omega
  · refine ⟨memoryMax, values.memoryHeadroomPct, ?_, ?_, fun n hn => ?_⟩
    · rw [← hadmitted.memoryLimit]
      simp only [limitValue, hread "memory_max_bytes" (by decide) (by decide)]
    · rw [← hadmitted.readings.memoryHeadroomPct,
        hread "memory_headroom_pct" (by decide) (by decide)]
    · subst hn
      obtain ⟨most, hmost, hle⟩ := admitMemory_ok hadmitted.memory
      have hcurrent := hadmitted.readings.memoryAnonBytes
      rw [hraised.anonBytes] at hcurrent
      obtain ⟨usage, husage, hvalue⟩ := Option.map_eq_some_iff.mp hcurrent
      have hsplit := htruth.usage .anonBytes usage husage
      have htaken := taken_le hb htruth .anonBytes
      simp only [Resource.key, hcostAnon, Option.getD_some] at htaken
      have hbytes : Admission.taken ⟨b.measure, b.accepted, b.credits, cost⟩ truth .anonBytes ≤
          values.memoryAnonBytes + costs.anonBytes := by omega
      refine ⟨most, hmost, le_trans (by exact_mod_cast hbytes) hle, fun hsmall => ?_⟩
      have hexact := le_of_memoryLimit hmost hle hsmall
      omega
  · refine ⟨values.diskFreeBytes, values.diskFloorBytes, ?_, ?_, ?_⟩
    · rw [← hadmitted.readings.diskFreeBytes, hread "disk_free_bytes" (by decide) (by decide)]
    · rw [← hadmitted.readings.diskFloorBytes, hread "disk_floor_bytes" (by decide) (by decide)]
    · have hle := hadmitted.disk
      have htaken := taken_le hb htruth .diskBytes
      simp only [Resource.key, hcostDisk, Option.getD_some] at htaken
      omega
  · intro setting hsetting
    have hpct := hadmitted.diskPct
    rw [hsetting] at hpct
    obtain ⟨used, available, most, hused, havailable, hmost, hle⟩ := admitDiskPct_ok hpct
    rw [hread "disk_used_bytes" (by decide) (by decide)] at hused
    rw [hread "disk_available_bytes" (by decide) (by decide)] at havailable
    refine ⟨used, available, most, hused, havailable, hmost, le_trans ?_ hle⟩
    have hsplit := htruth.usage .diskBytes used hused
    have htaken := taken_le hb htruth .diskBytes
    simp only [Resource.key, hcostDisk, Option.getD_some] at htaken
    omega

end

/-- A launch stays within every limit, whatever its reading is made of. -/
def Committed (diskMaxPct : DiskMaxPct) : DrainOp → Prop
  | .launch _ admission => ∀ truth, admission.Truthful truth → admission.Within diskMaxPct truth
  | _ => True

/-- A visit launches its own row, within every limit. -/
def Starts (cfg : Settings) (row : String) : DrainOp → Prop
  | .launch job admission => job = row ∧ Committed cfg.diskMaxPct (.launch job admission)
  | _ => True

section

variable {cfg : Settings} {row : String}

theorem Starts.committed {op : DrainOp} (h : Starts cfg row op) : Committed cfg.diskMaxPct op := by
  cases op with
  | launch job admission => exact h.2
  | _ => trivial

theorem readSamples_ensures (deadline : Int) (launches : List Accepted) :
    (readSamples deadline launches).Ensures (Starts cfg row)
      fun r => ∀ samples, r = .ok samples → samples.length = launches.length := by
  induction launches with
  | nil =>
    intro samples h
    obtain rfl := Except.ok.inj h
    rfl
  | cons launch launches ih =>
    have hrest : ∀ sample, (readSamples deadline launches >>= fun samples =>
        (.ret (sample :: samples) : DrainM _)).Ensures (Starts cfg row)
        fun r => ∀ samples, r = .ok samples → samples.length = (launch :: launches).length := by
      intro sample
      refine Prog.Ensures.bind ih (fun samples hsamples result h => ?_) (fun x _ _ h => by cases h)
      obtain rfl := Except.ok.inj h
      exact congrArg Nat.succ (hsamples samples rfl)
    refine ⟨trivial, fun now => ?_⟩
    show Prog.Ensures _ _ (ite _ _ _)
    split
    · exact ⟨trivial, fun sample => hrest sample⟩
    · exact hrest none

/-- A program that starts nothing it may not start. -/
def Quiet (cfg : Settings) {α : Type} (p : DrainM α) : Prop :=
  p.Ensures (Committed cfg.diskMaxPct) fun _ => True

/-- A part of a visit. -/
def Calm (cfg : Settings) (row : String) {α : Type} (p : DrainM α) : Prop :=
  p.Ensures (Starts cfg row) fun _ => True

theorem Calm.bind {α β : Type} {p : DrainM α} {f : α → DrainM β} (h : Calm cfg row p)
    (hf : ∀ a, Calm cfg row (f a)) : Calm cfg row (p >>= f) :=
  Prog.Ensures.bind h (fun a _ => hf a) fun _ _ => trivial

theorem Calm.then {α β : Type} {post : Except DrainError β → Prop} {p : DrainM α}
    {f : α → DrainM β} (h : Calm cfg row p) (hf : ∀ a, (f a).Ensures (Starts cfg row) post)
    (hx : ∀ x, post (.error x)) : (p >>= f).Ensures (Starts cfg row) post :=
  Prog.Ensures.bind h (fun a _ => hf a) fun x _ => hx x

theorem calm_ret {α : Type} (a : α) : Calm cfg row (.ret a : DrainM α) := trivial

theorem calm_overdue (counts : Bool) : Calm cfg row (overdue counts) := by
  cases counts with
  | false => exact calm_ret false
  | true => exact ⟨trivial, fun _ => trivial⟩

variable (later : Bool)

theorem calm_stopRequested : Calm cfg row (stopRequested later) := by
  cases later with
  | false => exact calm_ret false
  | true => exact ⟨trivial, fun _ => trivial⟩

theorem calm_costForJob (job : String) : Calm cfg row (costForJob cfg job) := by
  unfold costForJob
  split
  · exact calm_ret _
  · exact ⟨trivial, fun _ => trivial⟩

theorem calm_cost (counts : Bool) (costs : Dict String Readings) (job : String) :
    Calm cfg row (cost cfg counts costs job) := by
  unfold cost
  split
  · exact calm_ret _
  · refine (calm_overdue counts).bind fun late => ?_
    cases late with
    | true => exact calm_ret none
    | false =>
      refine (calm_costForJob job).bind fun measured => (calm_overdue counts).bind fun late => ?_
      cases late with
      | true => exact calm_ret none
      | false => exact calm_ret _

theorem calm_diskCosts (counts : Bool) (jobs : List String) :
    ∀ costs, Calm cfg row (diskCosts cfg counts costs jobs) := by
  induction jobs with
  | nil => exact fun _ => calm_ret _
  | cons job jobs ih =>
    refine fun costs => (calm_cost counts costs job).bind fun known => ?_
    cases known with
    | none => exact calm_ret none
    | some known =>
      refine (ih known.2).bind fun rest => ?_
      cases rest with
      | none => exact calm_ret none
      | some rest => exact calm_ret _

theorem calm_eligible (job : String) : Calm cfg row (eligible cfg job) := by
  unfold eligible
  split
  · exact ⟨trivial, fun _ => trivial⟩
  · refine ⟨trivial, fun eligibility => ?_⟩
    cases eligibility with
    | gone => exact calm_ret false
    | queued _ | refused _ => exact calm_ret true

theorem calm_eligibleRows (jobs : List String) : Calm cfg row (eligibleRows cfg jobs) := by
  induction jobs with
  | nil => exact calm_ret []
  | cons job jobs ih =>
    exact (calm_eligible job).bind fun keep => ih.bind fun rest => calm_ret _

theorem calm_newlyQueued (known jobs : List String) : Calm cfg row (newlyQueued known jobs) := by
  induction jobs with
  | nil => exact calm_ret _
  | cons job jobs ih =>
    unfold newlyQueued
    split
    · exact ih
    · refine ⟨trivial, fun eligibility => ?_⟩
      cases eligibility with
      | refused reason => exact calm_ret _
      | gone => exact ih
      | queued state =>
        refine ih.bind fun rest => ?_
        cases rest <;> exact calm_ret _

theorem calm_pendingDirs (job : String) (rest : List String) :
    Calm cfg row (pendingDirs cfg job rest) := by
  unfold pendingDirs
  split
  · exact calm_ret _
  · refine ⟨trivial, fun jobs => (calm_newlyQueued (job :: rest) jobs).bind fun others => ?_⟩
    cases others <;> exact calm_ret _

theorem calm_diskBaseline (identity : Identity) : Calm cfg row (diskBaseline cfg identity) := by
  refine ⟨trivial, fun sample => ?_⟩
  cases sample with
  | none => exact calm_ret none
  | some sample =>
    refine ⟨trivial, fun now => ?_⟩
    show Prog.Ensures _ _ (ite _ _ _)
    split
    · exact calm_ret _
    · exact calm_ret none

/-- A candidate that is prepared has been admitted. -/
def Prepared (cfg : Settings) (b : Burst) (r : Except DrainError (Except String (Burst × Candidate))) :
    Prop :=
  ∀ b' candidate, r = .ok (.ok (b', candidate)) →
    (∃ rest costs, b' = { b with rest := rest, costs := costs }) ∧
    ∃ holder pending, admitCandidate cfg b' holder pending candidate.cost = .ok ()

theorem prepareLaunch_ensures (row : String) (b : Burst) (job : String) (measured : Readings)
    (state : JobState) : (prepareLaunch cfg later b job measured state).Ensures
      (Starts cfg row) fun r => ∀ b' candidate, r = .ok (.ok (b', candidate)) →
        b' = b ∧ candidate.cost = measured := by
  have herror : ∀ reason : String, ∀ b' candidate,
      (Except.ok (Except.error reason) : Except DrainError (Except String (Burst × Candidate))) =
        .ok (.ok (b', candidate)) → b' = b ∧ candidate.cost = measured := by
    intro reason b' candidate h
    cases h
  refine ⟨trivial, fun refusal => ?_⟩
  cases refusal with
  | some refusal => exact herror refusal
  | none =>
    refine ⟨trivial, fun launchNotBefore => ?_⟩
    refine (calm_diskBaseline _).then (fun diskBefore => ?_) (fun _ _ _ h => by cases h)
    refine (calm_stopRequested later).then (fun stop => ?_) (fun _ _ _ h => by cases h)
    cases stop with
    | true => exact herror stopped
    | false =>
      refine (calm_overdue _).then (fun late => ?_) (fun _ _ _ h => by cases h)
      cases late with
      | true => exact herror budgetExhausted
      | false =>
        intro b' candidate h
        obtain ⟨rfl, rfl⟩ := Prod.mk.inj (Except.ok.inj (Except.ok.inj h))
        exact ⟨rfl, rfl⟩

theorem prepare_ensures (b : Burst) (job : String) (holder : HolderUsage)
    (state : JobState) : (prepare cfg later b job holder state).Ensures
      (Starts cfg row) (Prepared cfg b) := by
  have herror : ∀ reason, Prepared cfg b (.ok (.error reason)) := fun _ _ _ h => by cases h
  have hraise : ∀ x, Prepared cfg b (.error x) := fun _ _ _ h => by cases h
  refine (calm_eligibleRows b.rest).then (fun rest => ?_) hraise
  refine (calm_cost _ _ job).then (fun known => ?_) hraise
  cases known with
  | none => exact herror budgetExhausted
  | some known =>
    obtain ⟨measured, costs⟩ := known
    refine (calm_pendingDirs job rest).then (fun dirs => ?_) hraise
    cases dirs with
    | error reason => exact herror reason
    | ok dirs =>
      refine (calm_diskCosts _ dirs costs).then (fun pending => ?_) hraise
      cases pending with
      | none => exact herror budgetExhausted
      | some pending =>
        obtain ⟨pending, costs⟩ := pending
        simp only
        split
        · exact herror _
        · exact hraise .overflow
        · rename_i hdecided
          refine (prepareLaunch_ensures later row _ job measured state).weaken ?_
          rintro r hr b' candidate rfl
          obtain ⟨rfl, hcost⟩ := hr b' candidate rfl
          rw [← hcost] at hdecided
          exact ⟨⟨rest, costs, rfl⟩, holder, pending, hdecided⟩

/-- What a visit leaves behind: unless it ends the pass, every launch is charged. -/
def Goes (r : Except DrainError Visited) : Prop := ∀ b, r = .ok (b, none) → b.Charged

/-- The reading is fresh. -/
def GoesFresh (r : Except DrainError Visited) : Prop :=
  ∀ b, r = .ok (b, none) → b.Charged ∧ b.remeasure = false

theorem freshReading_ensures {b : Burst} (hb : b.Charged) :
    (freshReading b).Ensures (Starts cfg row) GoesFresh := by
  refine ⟨trivial, fun began => ?_⟩
  refine Prog.Ensures.bind (readSamples_ensures _ b.accepted) (fun samples hsamples => ?_)
    (fun x _ _ h => by cases h)
  refine ⟨trivial, fun ended => ⟨trivial, fun measure => ?_⟩⟩
  cases measure with
  | error exception =>
    intro b' h
    cases h
  | ok measure =>
    intro b' h
    obtain ⟨rfl, -⟩ := Prod.mk.inj (Except.ok.inj h)
    exact hb.charged (hsamples samples rfl) began ended measure

theorem goes_refused (b : Burst) (refusal : String) : Goes (.ok (b, some refusal)) :=
  fun _ h => by cases h

theorem goes_on {b : Burst} (h : b.Charged) : Goes (.ok (b, none)) := by
  intro b' hb'
  obtain ⟨rfl, -⟩ := Prod.mk.inj (Except.ok.inj hb')
  exact h

theorem goes_raise (x : DrainError) : Goes (.error x) := fun _ h => by cases h

theorem startPrepared_ensures {b : Burst} (hb : b.Charged) (hfresh : b.remeasure = false)
    (job : String) {prepared : Except String (Burst × Candidate)}
    (h : Prepared cfg b (.ok prepared)) :
    (startPrepared cfg b job prepared).Ensures (Starts cfg job) Goes := by
  cases prepared with
  | error reason => exact goes_refused b reason
  | ok prepared =>
    obtain ⟨b', candidate⟩ := prepared
    obtain ⟨⟨rest, costs, rfl⟩, holder, pending, hdecided⟩ := h b' candidate rfl
    have hcharged := hb.withRest rest costs
    refine ⟨⟨rfl, fun truth htruth => ?_⟩, fun answer => ?_⟩
    · exact within_of_admitCandidate (hcharged.fresh hfresh) hdecided htruth
    · rcases answer with ⟨launched, _ | refusal⟩
      · cases launched with
        | false => exact goes_on hcharged
        | true =>
          exact ⟨trivial, fun _ => ⟨trivial, fun latest =>
            goes_on (hcharged.launched cfg job candidate latest)⟩⟩
      · exact goes_refused _ refusal

theorem visitQueued_ensures {b : Burst} (hb : b.Charged)
    (hfresh : b.remeasure = false) (job : String) (state : JobState) :
    (visitQueued cfg later b job state).Ensures (Starts cfg job) Goes := by
  have hprepared : ∀ holder state, (prepare cfg later b job holder state >>=
      startPrepared cfg b job).Ensures (Starts cfg job) Goes :=
    fun holder state => Prog.Ensures.bind (prepare_ensures later b job holder state)
      (fun prepared h => startPrepared_ensures hb hfresh job h) fun x _ => goes_raise x
  unfold visitQueued
  split
  · exact hprepared {} state
  · refine ⟨trivial, fun locked => ?_⟩
    cases locked with
    | error reason => exact goes_refused b reason
    | ok holder =>
      refine ⟨trivial, fun eligibility => ?_⟩
      cases eligibility with
      | refused reason => exact goes_refused b reason
      | gone => exact goes_on hb
      | queued latest => exact hprepared holder latest

theorem visit_ensures {b : Burst} (hb : b.Charged) (job : String) :
    (visit cfg later b job).Ensures (Starts cfg job) Goes := by
  have hmay : Calm cfg job (mayGoOn later) := by
    unfold mayGoOn
    split
    · refine ⟨trivial, fun stop => ?_⟩
      cases stop with
      | true => exact calm_ret _
      | false =>
        refine ⟨trivial, fun late => ?_⟩
        cases late <;> exact calm_ret _
    · exact calm_ret none
  have hreading : (if b.remeasure then freshReading b else .ret (b, none)).Ensures
      (Starts cfg job) GoesFresh := by
    split
    · exact freshReading_ensures hb
    · rename_i hnot
      intro b' h
      obtain ⟨rfl, -⟩ := Prod.mk.inj (Except.ok.inj h)
      exact ⟨hb, by simpa using hnot⟩
  refine hmay.then (fun refusal => ?_) goes_raise
  cases refusal with
  | some refusal => exact goes_refused b refusal
  | none =>
    refine Prog.Ensures.bind hreading (fun visited hvisited => ?_) fun x _ => goes_raise x
    rcases visited with ⟨b', _ | refusal⟩
    · obtain ⟨hb', hfresh⟩ := hvisited b' rfl
      refine ⟨trivial, fun found => ?_⟩
      rcases found with reason | eligibility
      · exact goes_refused b' reason
      · cases eligibility with
        | refused reason => exact goes_refused b' reason
        | gone => exact goes_on hb'
        | queued state => exact visitQueued_ensures later hb' hfresh job state
    · exact goes_refused b' refusal

theorem drainRows_ensures (fuel : Nat) : ∀ (later : Bool) {b : Burst}, b.Charged →
    Quiet cfg (drainRows cfg fuel later b) := by
  induction fuel with
  | zero => exact fun _ _ _ => trivial
  | succ fuel ih =>
    intro later b hb
    unfold drainRows
    split
    · exact trivial
    · rename_i job rest _
      refine Prog.Ensures.bind ((visit_ensures later (hb.withRest rest b.costs) job).mono
        fun _ => Starts.committed) (fun visited hvisited => ?_) fun _ _ => trivial
      rcases visited with ⟨b', _ | refusal⟩
      · exact ih true (hvisited b' rfl)
      · exact trivial

end

/-- A pass never over-commits: whatever the queue, the gauges, the samples and the clock say, what
the base takes, what every launch of the pass holds and what the candidate asks for stay within
every limit together. -/
theorem drain_within (cfg : Settings) (queuedRows : List String) (baseline : Readings)
    (env : List DrainOp → (op : DrainOp) → op.Answer) {job : String} {admission : Admission}
    (h : .launch job admission ∈ (drain cfg queuedRows baseline).trace env []) {truth : Truth}
    (htruth : admission.Truthful truth) : admission.Within cfg.diskMaxPct truth :=
  Prog.Ensures.of_mem_trace
    (drainRows_ensures queuedRows.length false (charged_baseline queuedRows baseline)) h truth
    htruth

/-- Gauges with some processes, some memory and limits for both. -/
def sampleGauges (pids memory memoryMax : Int) : Readings :=
  [("pids_current", .num (.int pids)), ("memory_anon_bytes", .num (.int memory)),
    ("memory_psi_avg60", .num (.int 0)), ("cpu_psi_avg60", .num (.int 0)),
    ("disk_free_bytes", .num (.int 100)), ("disk_floor_bytes", .num (.int 10)),
    ("memory_headroom_pct", .num (.int 100)), ("memory_psi_max", .num (.int 10)),
    ("cpu_psi_max", .num (.int 60)), ("pids_reserve", .num (.int 0)),
    ("pids_max", .num (.int 15)), ("memory_max_bytes", .num (.int memoryMax))]

/-- A cost of some processes. -/
def sampleCost (pids : Int) : Readings :=
  [("pids", .num (.int pids)), ("anon_bytes", .num (.int 1)), ("disk_bytes", .num (.int 1))]

/-- A queue with an explicit cost. -/
def sampleSettings (pids : Int) : Settings where
  jobsRoot := "jobs"
  budgeted := false
  measuredCost := some (sampleCost pids)
  diskMaxPct := none

/-- A sample that shows two processes of a job. -/
def sampleSample (job : String) : Readings :=
  [("job_id", .str job), ("unit", .str job), ("launch_not_before_ns", .num (.int 0)),
    ("observed_at_ns", .num (.int 0)), ("pids", .num (.int 2))]

/-- Every job is queued in a unit of its own and starts; a fresh reading is given. -/
def sampleEnv (gauges : Readings) (_ : List DrainOp) : (op : DrainOp) → op.Answer
  | .stopRequested | .pastDeadline => false
  | .eligibleReservationRow _ => true
  | .monotonicNs => (0 : Int)
  | .readAttribution identity _ _ => some (sampleSample identity.jobId)
  | .readGauges => .ok gauges
  | .lockedEligibility job => .ok (.queued ⟨.str job⟩)
  | .currentEligibility job => .queued ⟨.str job⟩
  | .queuedJobs => []
  | .defaultMeasuredCost _ => []
  | .hostAdmission _ => none
  | .lockPending .. => .ok {}
  | .launch .. => (true, none)
  | .loadJobState job => some ⟨.str job⟩
  | .chargeHostLaunch _ => ()

/-- The amounts of all resources. -/
def amounts (a : Amounts) : List Nat := [a .pids, a .anonBytes, a .diskBytes]

/-- What an admission holds, in a form that can be compared. -/
structure AdmissionView where
  measure : Readings
  cost : Readings
  reservations : List (List Nat)
  credits : List (List Nat)
deriving DecidableEq

/-- The view of an admission. -/
def Admission.view (a : Admission) : AdmissionView where
  measure := a.measure
  cost := a.cost
  reservations := a.accepted.map fun launch => amounts launch.cost
  credits := a.credits.map amounts

/-- The admission of a job in a trace. -/
def admissionOf (job : String) (ops : List DrainOp) : Option Admission :=
  ops.findSome? fun
    | .launch started admission => if started = job then some admission else none
    | _ => none

theorem mem_of_admissionOf {job : String} {ops : List DrainOp} {admission : Admission}
    (h : admissionOf job ops = some admission) : .launch job admission ∈ ops := by
  obtain ⟨op, hop, hsome⟩ := exists_of_findSome?_eq_some h
  split at hsome
  · rename_i started found
    split at hsome
    · rename_i heq
      obtain rfl := Option.some.inj hsome
      exact heq ▸ hop
    · cases hsome
  · cases hsome

theorem launch_of_view {job : String} {ops : List DrainOp}
    {view : AdmissionView}
    (h : (admissionOf job ops).map Admission.view = some view) :
    ∃ admission, .launch job admission ∈ ops ∧ admission.view = view := by
  obtain ⟨admission, hadmission, hview⟩ := Option.map_eq_some_iff.mp h
  exact ⟨admission, mem_of_admissionOf hadmission, hview⟩

/-- Two jobs that reserve five processes are launched: the second one is judged against three
processes that are measured, two of them the first job's, and three that are not observed yet. -/
theorem drain_within_sample : ∃ admission,
    .launch "b" admission ∈ (drain (sampleSettings 5) ["a", "b"] (sampleGauges 0 1 100)).trace
      (sampleEnv (sampleGauges 3 2 100)) [] ∧
    admission.Within none ⟨fun _ => 1, [fun r => if r = .pids then 2 else 1]⟩ := by
  have hview : (admissionOf "b" ((drain (sampleSettings 5) ["a", "b"] (sampleGauges 0 1 100)).trace
      (sampleEnv (sampleGauges 3 2 100)) [])).map Admission.view =
      some ⟨sampleGauges 3 2 100, sampleCost 5, [[5, 1, 1]], [[2, 0, 0]]⟩ := by decide +kernel
  obtain ⟨admission, hlaunch, hview⟩ := launch_of_view hview
  refine ⟨admission, hlaunch, drain_within (sampleSettings 5) ["a", "b"] (sampleGauges 0 1 100)
    (sampleEnv (sampleGauges 3 2 100)) hlaunch ⟨?_, ?_⟩⟩
  · have hmeasure : admission.measure = sampleGauges 3 2 100 := congrArg AdmissionView.measure hview
    rw [hmeasure]
    intro r n hn
    cases r with
    | pids =>
      have hthree : finiteInteger ((sampleGauges 3 2 100).read (usageGauge .pids)) = some 3 := by
        decide +kernel
      exact Option.some.inj (hn.symm.trans hthree)
    | anonBytes =>
      have htwo : finiteInteger ((sampleGauges 3 2 100).read (usageGauge .anonBytes)) = some 2 := by
        decide +kernel
      exact Option.some.inj (hn.symm.trans htwo)
    | diskBytes =>
      have hnone : finiteInteger ((sampleGauges 3 2 100).read (usageGauge .diskBytes)) = none := by
        decide +kernel
      cases hn.symm.trans hnone
  · have hcredits : admission.credits.map amounts = [[2, 0, 0]] := congrArg AdmissionView.credits hview
    obtain ⟨credit, rest, hsplit, hcredit, hrest⟩ := map_eq_cons_iff.mp hcredits
    obtain rfl := map_eq_nil_iff.mp hrest
    rw [hsplit]
    refine .cons (fun r => ?_) .nil
    simp only [amounts, List.cons.injEq] at hcredit
    cases r <;> simp [hcredit.1, hcredit.2.1, hcredit.2.2.1]

/-- A job of an earlier pass is charged with what it uses, not with what it has reserved; and the
memory limit is rounded to a float, which may be above it. -/
theorem commitments_exceeded :
    (∃ first second,
      .launch "a" first ∈ (drain (sampleSettings 10) ["a"] (sampleGauges 0 1 100)).trace
        (sampleEnv []) [] ∧
      .launch "b" second ∈ (drain (sampleSettings 10) ["b"] (sampleGauges 1 1 100)).trace
        (sampleEnv []) [] ∧
      finiteInteger (second.measure.read "pids_current") = some 1 ∧
      limitValue second.measure "pids_max" = some (.atMost 15) ∧
      15 < max (first.request .pids) 1 + second.request .pids) ∧
    ∃ admission,
      .launch "a" admission ∈ (drain (sampleSettings 1) ["a"]
        (sampleGauges 0 (2 ^ 53 + 3) (2 ^ 53 + 3))).trace (sampleEnv []) [] ∧
      finiteInteger (admission.measure.read "memory_headroom_pct") = some 100 ∧
      limitValue admission.measure "memory_max_bytes" = some (.atMost (2 ^ 53 + 3)) ∧
      2 ^ 53 + 3 < (2 ^ 53 + 3) + admission.request .anonBytes := by
  have hfirst : (admissionOf "a" ((drain (sampleSettings 10) ["a"] (sampleGauges 0 1 100)).trace
      (sampleEnv []) [])).map Admission.view =
      some ⟨sampleGauges 0 1 100, sampleCost 10, [], []⟩ := by decide +kernel
  have hsecond : (admissionOf "b" ((drain (sampleSettings 10) ["b"] (sampleGauges 1 1 100)).trace
      (sampleEnv []) [])).map Admission.view =
      some ⟨sampleGauges 1 1 100, sampleCost 10, [], []⟩ := by decide +kernel
  have hrounded : (admissionOf "a" ((drain (sampleSettings 1) ["a"]
      (sampleGauges 0 (2 ^ 53 + 3) (2 ^ 53 + 3))).trace (sampleEnv []) [])).map Admission.view =
      some ⟨sampleGauges 0 (2 ^ 53 + 3) (2 ^ 53 + 3), sampleCost 1, [], []⟩ := by decide +kernel
  obtain ⟨first, hfirstIn, hfirst⟩ := launch_of_view hfirst
  obtain ⟨second, hsecondIn, hsecond⟩ := launch_of_view hsecond
  obtain ⟨admission, hadmissionIn, hadmission⟩ := launch_of_view hrounded
  have hcostFirst : first.cost = sampleCost 10 := congrArg AdmissionView.cost hfirst
  have hcostSecond : second.cost = sampleCost 10 := congrArg AdmissionView.cost hsecond
  have hmeasureSecond : second.measure = sampleGauges 1 1 100 := congrArg AdmissionView.measure hsecond
  have hcost : admission.cost = sampleCost 1 := congrArg AdmissionView.cost hadmission
  have hmeasure : admission.measure = sampleGauges 0 (2 ^ 53 + 3) (2 ^ 53 + 3) :=
    congrArg AdmissionView.measure hadmission
  refine ⟨⟨first, second, hfirstIn, hsecondIn, ?_⟩, admission, hadmissionIn, ?_⟩
  · unfold Admission.request
    rw [hcostFirst, hcostSecond, hmeasureSecond]
    decide +kernel
  · unfold Admission.request
    rw [hcost, hmeasure]
    decide +kernel

end Workbay.Queue
