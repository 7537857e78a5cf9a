import Workbay.Reservation.Admission
import Workbay.Reservation.Proofs.ReceiptProofs

/-!
# Proofs: what fits the host

A lane that is admitted and a reservation that is granted fit beside what was counted. More
reservations admit no more lanes.
-/

namespace Workbay.Reservation

open List

variable {lib : Library} {gauges : Caps} {now : Number}

/-- The items ask for no more than there is, as the interpreter adds it up. -/
def Fits (lib : Library) (items : List (Option Caps)) (gauges : Caps) : Prop :=
  ∀ key ∈ capKeys, ∃ gauge total, gauge? (key.2 gauges) = some gauge ∧
    (∀ item ∈ items, (item.bind fun c => gauge? (key.2 c)).isSome = true) ∧
    lib.sum (items.filterMap fun item => item.bind fun c => gauge? (key.2 c)) = some total ∧
    total ≤ gauge

variable {items : List (Option Caps)} {rs : List Record} {r : Record} {s : Store}

theorem isExceeded_eq_false {key : String × (Caps → Value)} {gauge : Number}
    (hgauge : gauge? (key.2 gauges) = some gauge) :
    isExceeded lib items gauges key = .ok false ↔ ∃ total,
      lib.sum (items.filterMap fun item => item.bind fun c => gauge? (key.2 c)) = some total ∧
        total ≤ gauge := by
  unfold isExceeded
  rw [hgauge]
  cases lib.sum (items.filterMap fun item => item.bind fun c => gauge? (key.2 c)) with
  | none => simp
  | some total =>
    have hle : ¬ gauge < total ↔ total ≤ gauge :=
      (not_lt : ¬ gauge.value < total.value ↔ total.value ≤ gauge.value)
    simp [hle]

theorem firstExceeded_eq_none {keys : List (String × (Caps → Value))} :
    firstExceeded lib items gauges keys = .ok none ↔
      ∀ key ∈ keys, isExceeded lib items gauges key = .ok false := by
  induction keys with
  | nil => simp [firstExceeded]
  | cons key keys ih =>
    rw [forall_mem_cons, ← ih, firstExceeded]
    cases isExceeded lib items gauges key with
    | error e => simp
    | ok exceeded => cases exceeded <;> simp

theorem capacity_eq_none : capacity lib items gauges = .ok none ↔ Fits lib items gauges := by
  have hknown : ∀ key : String × (Caps → Value), ¬ isUnknown items gauges key = true ↔
      (∃ gauge, gauge? (key.2 gauges) = some gauge) ∧
        ∀ item ∈ items, (item.bind fun c => gauge? (key.2 c)).isSome = true := by
    intro key
    unfold isUnknown
    rw [Bool.or_eq_true, any_eq_true, not_or, Option.isNone_iff_eq_none, ← Ne,
      Option.ne_none_iff_exists']
    refine and_congr_right fun _ => ?_
    simp only [not_exists, not_and, Option.isNone_iff_eq_none]
    exact forall₂_congr fun item _ => Option.isSome_iff_ne_none.symm
  unfold capacity Fits
  cases hfind : capKeys.find? (isUnknown items gauges) with
  | some key =>
    refine ⟨fun h => (by cases h), fun h => ?_⟩
    obtain ⟨gauge, total, hgauge, hitems, -⟩ := h key (mem_of_find?_eq_some hfind)
    exact absurd (find?_some hfind) ((hknown key).mpr ⟨⟨gauge, hgauge⟩, hitems⟩)
  | none =>
    rw [find?_eq_none] at hfind
    rw [firstExceeded_eq_none]
    refine forall₂_congr fun key hkey => ?_
    obtain ⟨⟨gauge, hgauge⟩, hitems⟩ := (hknown key).mp (hfind key hkey)
    rw [isExceeded_eq_false hgauge]
    constructor
    · rintro ⟨total, hsum, hle⟩
      exact ⟨gauge, total, hgauge, hitems, hsum, hle⟩
    · rintro ⟨gauge', total, hgauge', -, hsum, hle⟩
      obtain rfl := Option.some.inj (hgauge.symm.trans hgauge')
      exact ⟨total, hsum, hle⟩

/-- The sum of some numbers, none of them negative, is no more than that of all of them. -/
def SumMonotone (lib : Library) : Prop :=
  ∀ part all : List Number, part.Sublist all → (∀ n ∈ all, .int 0 ≤ n) → ∀ total,
    lib.sum all = some total → ∃ sum, lib.sum part = some sum ∧ sum ≤ total

theorem Fits.sublist (hsum : SumMonotone lib) {part all : List (Option Caps)}
    (hsub : part.Sublist all) (h : Fits lib all gauges) : Fits lib part gauges := by
  intro key hkey
  obtain ⟨gauge, total, hgauge, hitems, htotal, hle⟩ := h key hkey
  have hnonneg : ∀ n ∈ all.filterMap (fun item => item.bind fun c => gauge? (key.2 c)),
      .int 0 ≤ n := by
    intro n hn
    obtain ⟨item, -, hitem⟩ := mem_filterMap.mp hn
    obtain ⟨c, -, hc⟩ := Option.bind_eq_some_iff.mp hitem
    exact isNumber_nonneg (gauge?_eq_some hc).1
  obtain ⟨sum, hpart, hless⟩ := hsum _ _ (hsub.filterMap _) hnonneg total htotal
  exact ⟨gauge, sum, hgauge, fun item hin => hitems item (hsub.subset hin), hpart, hless.trans hle⟩

variable {window : Option Number} {c : Candidate} {running : Option Caps}

/-- The candidate ends before the record begins. -/
def fitsBefore (lib : Library) (window : Option Number) (now : Number) (c : Candidate)
    (r : Record) : Bool :=
  (standing lib window now c r).toOption = some .fits

/-- The records that are counted: those that are current and not exclusive, and do not begin after
the candidate has ended. -/
def countedRecords (lib : Library) (window : Option Number) (now : Number) (c : Candidate)
    (rs : List Record) : List Record :=
  (Store.bySeq (rs.filter (isCurrent now))).filter fun r =>
    !r.exclusive && !fitsBefore lib window now c r

/-- What an admission says of the records. -/
structure Passed (lib : Library) (window : Option Number) (now : Number) (c : Candidate)
    (running : Option Caps) (gauges : Caps) (rs : List Record) : Prop where
  valid : ∀ r ∈ rs, validRecord lib r = true
  stand : ∀ r ∈ rs, isCurrent now r = true →
    standing lib window now c r = .ok .counted ∨ standing lib window now c r = .ok .fits
  beside : countedRecords lib window now c rs = [] ∨
    Fits lib (requests running (countedRecords lib window now c rs) c) gauges

theorem bySeq_sublist {all : List Record} (h : rs.Sublist all) :
    (Store.bySeq rs).Sublist (Store.bySeq all) := by
  induction h with
  | slnil => exact List.Sublist.refl _
  | cons r _ ih => exact ih.trans (sublist_orderedInsert r _)
  | cons_cons r _ ih =>
    have : IsTrans Record fun a b => a.seq ≤ b.seq := ⟨fun a b d => le_trans⟩
    have : Std.Total fun a b : Record => a.seq ≤ b.seq := ⟨fun a b => le_total a.seq b.seq⟩
    exact List.Sublist.orderedInsert_sublist r ih (pairwise_insertionSort _ _)

theorem Passed.sublist (hsum : SumMonotone lib) {all : List Record} (hsub : rs.Sublist all)
    (h : Passed lib window now c running gauges all) :
    Passed lib window now c running gauges rs := by
  have hcounted : (countedRecords lib window now c rs).Sublist
      (countedRecords lib window now c all) := (bySeq_sublist (hsub.filter _)).filter _
  refine ⟨fun r hr => h.valid r (hsub.subset hr), fun r hr => h.stand r (hsub.subset hr), ?_⟩
  rcases h.beside with hnone | hfits
  · rw [hnone, sublist_nil] at hcounted
    exact .inl hcounted
  · exact .inr (hfits.sublist hsum
      (((hcounted.map _).cons_cons running).append_right [some c.caps]))

theorem sweptStore_pending {d : Disk} (h : Inv lib d) {id : String} {old : Record}
    (hat : d.store.At id old) (hpending : old.state = .pending)
    (hswept : (sweptStore d d.store now).At id r) : r.state ≠ .granted := by
  intro hgranted
  obtain ⟨old', hat', rfl⟩ := at_sweptStore.mp hswept
  obtain rfl := Option.some.inj (hat.symm.trans hat')
  rw [swept_of_isLive h.sound h.receipts hat (by rw [hgranted]; rfl), hpending] at hgranted
  cases hgranted

/-- What a grant of a pending reservation says of the state that it leaves: the running lanes and the
live reservations up to the granted one fit. -/
structure GrantFits (lib : Library) (running : List (Option Caps)) (gauges : Caps) (s : Store)
    (r : Record) : Prop where
  granted : s.At r.id r ∧ r.state = .granted
  fits : ∃ counted : List Record, (counted.map Record.id).Nodup ∧
    (∀ x, x ∈ counted ↔ x ∈ s.records ∧ x.state.isLive = true ∧ x.seq ≤ r.seq) ∧
    Fits lib (running ++ counted.map fun x => some x.caps) gauges

theorem notGranted_fits {running : List (Option Caps)} {windowEnd : Option Number}
    (hshared : r.exclusive = false) (h : notGranted lib running gauges s r now windowEnd = .ok none) :
    Fits lib (running ++ (earlier s r ++ [r]).map fun x => some x.caps) gauges := by
  unfold notGranted at h
  split at h
  · cases h
  split at h
  · cases h
  split at h
  · cases h
  rw [if_neg (by rw [hshared]; exact Bool.false_ne_true)] at h
  obtain ⟨reason, hreason, heq⟩ := map_eq_ok.mp h
  cases reason with
  | none => exact capacity_eq_none.mp hreason
  | some reason => cases heq

theorem notGranted_ne_record {running : List (Option Caps)} {x : Record} {windowEnd : Option Number} :
    notGranted lib running gauges s r now windowEnd ≠ .ok (some (.record x)) := by
  intro h
  unfold notGranted at h
  split at h
  · cases h
  split at h
  · cases h
  split at h
  · cases h
  split at h
  · split at h <;> cases h
  · obtain ⟨reason, -, heq⟩ := map_eq_ok.mp h
    cases reason <;> cases heq

theorem grant_pending {env : Env} {id : Value} {running : List (Option Caps)} {s' : Store}
    {writes : List Write} (hs : Sound lib s) (hs' : Sound lib s') (hshared : r.exclusive = false)
    (hpending : ∀ {x}, s.At r.id x → x.state ≠ .granted)
    (h : grant lib env id running gauges s now = .ok (s', writes, .record r)) :
    GrantFits lib running gauges s'.sorted r := by
  unfold grant at h
  split at h
  · cases h
  rename_i x hfind
  obtain ⟨hat, -⟩ := find_at hs hfind
  split at h
  · rename_i hgranted
    obtain ⟨-, -, heq⟩ := Prod.mk.inj (Except.ok.inj h) |>.imp_right Prod.mk.inj
    obtain rfl := Answer.record.inj heq
    exact absurd hgranted (hpending hat)
  split at h
  · cases h
  obtain ⟨windowEnd, -, h⟩ := bind_eq_ok.mp h
  obtain ⟨refusal, hrefusal, h⟩ := bind_eq_ok.mp h
  split at h
  · obtain ⟨-, -, heq⟩ := Prod.mk.inj (Except.ok.inj h) |>.imp_right Prod.mk.inj
    rw [heq] at hrefusal
    exact absurd hrefusal notGranted_ne_record
  obtain ⟨hput, -, hrecord⟩ := Prod.mk.inj (Except.ok.inj h) |>.imp_right Prod.mk.inj
  have hr := Answer.record.inj hrecord
  rw [hr] at hput
  obtain ⟨hid, hseq, hstate, hcaps, hexclusive⟩ : r.id = x.id ∧ r.seq = x.seq ∧
      r.state = .granted ∧ r.caps = x.caps ∧ r.exclusive = x.exclusive := by
    rw [← hr]
    exact ⟨rfl, rfl, rfl, rfl, rfl⟩
  have hfits := notGranted_fits (hexclusive ▸ hshared) hrefusal
  have hatSorted : ∀ {id : String} {y : Record}, s'.sorted.At id y ↔
      (id = r.id ∧ y = r) ∨ (id ≠ r.id ∧ s.At id y) := by
    intro id y
    rw [at_sorted hs'.keys, ← hput, at_put]
  have hearlier : ∀ y, y ∈ earlier s x ↔ s.At y.id y ∧ y.state.isLive = true ∧ y.seq < r.seq := by
    intro y
    rw [earlier, mem_filter, hs.mem_records, Bool.and_eq_true, decide_eq_true_eq, hseq]
  have hne : ∀ y ∈ earlier s x, y.id ≠ r.id := by
    intro y hy heq
    obtain ⟨hy, -, hlt⟩ := (hearlier y).mp hy
    rw [heq, hid] at hy
    obtain rfl := Option.some.inj (hat.symm.trans hy)
    omega
  refine ⟨⟨hatSorted.mpr (.inl ⟨rfl, rfl⟩), hstate⟩, earlier s x ++ [r], ?_, fun y => ?_, ?_⟩
  · have hids : (s.records.map Record.id).Nodup := by
      rw [Store.records, map_map, map_congr_left fun entry hentry =>
        (hs.id (Dict.get?_of_mem hs.keys hentry) : _ = entry.1)]
      exact hs.keys
    rw [map_append, nodup_append]
    refine ⟨hids.sublist (filter_sublist.map _), nodup_singleton _, ?_⟩
    intro id hin other hother
    obtain ⟨y, hy, rfl⟩ := mem_map.mp hin
    rw [mem_singleton.mp hother]
    exact hne y hy
  · rw [mem_append, mem_singleton, hs'.sorted.mem_records, hatSorted, hearlier]
    constructor
    · rintro (hy | rfl)
      · exact ⟨.inr ⟨hne y ((hearlier y).mpr hy), hy.1⟩, hy.2.1, hy.2.2.le⟩
      · exact ⟨.inl ⟨rfl, rfl⟩, by rw [hstate]; rfl, le_refl _⟩
    · rintro ⟨⟨-, rfl⟩ | ⟨hneY, hy⟩, hlive, hle⟩
      · exact .inr rfl
      · refine .inl ⟨hy, hlive, lt_of_le_of_ne hle fun heq => hneY ?_⟩
        rw [hid]
        exact hs.seqs hy hat (heq.trans hseq)
  · rw [map_append] at hfits ⊢
    rw [map_singleton, hcaps]
    exact hfits

theorem Inv.fits_of_grant {d : Disk} (hinv : Inv lib d) {env : Env} {id time : Value}
    {running : List (Option Caps)} {old r : Record} (hold : d.store.At r.id old)
    (hpending : old.state = .pending) (hshared : r.exclusive = false)
    (hgrant : (operation lib env (.grant id time running gauges) d).2 = .record r) :
    GrantFits lib running gauges
      (d.applyAll (operation lib env (.grant id time running gauges) d).1).store r := by
  cases hlock : env.lockRefusal with
  | some reason =>
    unfold operation at hgrant
    rw [hlock] at hgrant
    cases hgrant
  | none =>
    cases hnow : gauge? ((Call.grant id time running gauges).time env) with
    | none =>
      unfold operation at hgrant
      rw [hlock, hinv.read] at hgrant
      simp only at hgrant
      rw [hnow] at hgrant
      cases hgrant
    | some now =>
      have hnumber := (gauge?_eq_some hnow).1
      have hs := sound_sweptStore hinv.sound hinv.receipts hnumber
      rw [operation_answer hinv _ hlock hnow] at hgrant ⊢
      simp only [Call.action] at hgrant ⊢
      cases hacted : grant lib env id running gauges (sweptStore d d.store now) now with
      | error e =>
        rw [hacted] at hgrant
        cases e <;> cases hgrant
      | ok acted =>
        obtain ⟨s', writes, answer⟩ := acted
        rw [hacted] at hgrant
        rcases grant_changes hs hnumber hacted with ⟨-, hnot⟩ | hchange
        · unfold finish at hgrant
          simp only at hgrant
          rw [if_neg (Bool.eq_false_iff.mp hnot)] at hgrant
          cases hgrant
        · have hs' := hchange.sound hs
          rw [finish_ok hs'] at hgrant ⊢
          obtain rfl : answer = .record r := hgrant
          rw [← append_assoc, applyAll_append, applyAll_cons, applyAll_nil]
          exact grant_pending hs hs' hshared
            (fun hswept => sweptStore_pending hinv hold hpending hswept) hacted

/-- In every run, a pending reservation that is granted, and is not exclusive, fits beside the
running lanes and every live reservation that was made before it. -/
theorem grant_fits {lib : Library} {is : List Input}
    (h : (machine lib).Along (Input.Proper lib) {} is) {env : Env} {id time : Value}
    {running : List (Option Caps)} {gauges : Caps} {old r : Record}
    (hold : ((machine lib).run {} is).store.At r.id old) (hpending : old.state = .pending)
    (hshared : r.exclusive = false)
    (hgrant : (operation lib env (.grant id time running gauges) ((machine lib).run {} is)).2 =
      .record r) :
    GrantFits lib running gauges (((machine lib).run {} is).applyAll
      (operation lib env (.grant id time running gauges) ((machine lib).run {} is)).1).store r :=
  (inv_run h).fits_of_grant hold hpending hshared hgrant

/-- A request for a part of the host. -/
def sharedRequest : Request :=
  { sampleRequest 5 with cpu := .num (.int 2), exclusive := .bool false }

/-- The capacity of a small host. -/
def sampleGauges (cpu : Int) : Caps := ⟨.num (.int cpu), .num (.int 8)⟩

def sharedReserve : Input := { env := sampleEnv 5 sampleId, call := .reserve sharedRequest }

/-- A grant, by what the gauges say. -/
def sharedGrant (now : Int) (id : HexId) (cpu : Int) : Input :=
  { env := sampleEnv now id, call := .grant (.str id.1) .none [] (sampleGauges cpu) }

/-- Two reservations are made, and the later one is granted. -/
def sharedRun : List Input :=
  [sharedReserve, { env := sampleEnv 5 otherId, call := .reserve sharedRequest },
    sharedGrant 6 otherId 4]

theorem sharedReserve_proper :
    (machine sampleLibrary).Along (Input.Proper sampleLibrary) {} [sharedReserve] := by
  have hterms : (sharedRequest.terms sampleLibrary).toOption =
      some { sampleTerms with cpu := .int 2, exclusive := false } := by decide +kernel
  have hnow' : gauge? (.num (.int 5)) = some (.int 5) := by decide +kernel
  refine ⟨⟨fun q s _ hread => ?_, ?_⟩, trivial⟩
  · obtain rfl := Option.some.inj hread
    exact not_mem_nil
  · intro t hold now ht hhold hnow expiresAt drainDeadline hexpires hdrain
    rw [ht] at hterms
    obtain rfl := Option.some.inj hterms
    obtain rfl : 100 = hold := Option.some.inj hhold
    obtain rfl := Option.some.inj (hnow'.symm.trans hnow)
    obtain rfl := Except.ok.inj hexpires
    obtain rfl := Except.ok.inj hdrain
    exact .inr (by decide +kernel)

theorem grant_fits_sample : ∃ r : Record,
    (operation sampleLibrary (sampleEnv 6 sampleId) (.grant (.str sampleId.1) .none []
      (sampleGauges 4)) ((machine sampleLibrary).run {} [sharedReserve])).2 = .record r ∧
    GrantFits sampleLibrary [] (sampleGauges 4) (((machine sampleLibrary).run {}
      [sharedReserve]).applyAll (operation sampleLibrary (sampleEnv 6 sampleId)
        (.grant (.str sampleId.1) .none [] (sampleGauges 4))
          ((machine sampleLibrary).run {} [sharedReserve])).1).store r := by
  have hchecked : ∃ old ∈ ((machine sampleLibrary).run {} [sharedReserve]).store.records,
      ((machine sampleLibrary).run {} [sharedReserve]).store.At old.id old ∧
      old.state = .pending ∧ old.exclusive = false ∧
      (operation sampleLibrary (sampleEnv 6 sampleId) (.grant (.str sampleId.1) .none []
        (sampleGauges 4)) ((machine sampleLibrary).run {} [sharedReserve])).2 =
          .record { old with state := .granted, grantedAt := some (.int 6) } := by
    unfold Store.At
    decide +kernel
  obtain ⟨old, -, hold, hpending, hshared, hgrant⟩ := hchecked
  exact ⟨_, hgrant, grant_fits sharedReserve_proper hold hpending hshared hgrant⟩

/-- The earlier reservation is granted when the host has become smaller, and both do not fit. -/
theorem later_grant_not_counted : ∃ s r,
    (machine sampleLibrary).run {} (sharedRun ++ [sharedGrant 7 sampleId 3]) = s ∧
      (machine sampleLibrary).answer ((machine sampleLibrary).run {} sharedRun)
        (sharedGrant 7 sampleId 3) = some (.record r) ∧ r.exclusive = false ∧
      ¬ Fits sampleLibrary ((s.store.records.filter fun x =>
        x.state = .granted && !x.exclusive).map fun x => some x.caps) (sampleGauges 3) := by
  obtain ⟨r, -, hanswer, hshared⟩ : ∃ r ∈ ((machine sampleLibrary).run {}
      (sharedRun ++ [sharedGrant 7 sampleId 3])).store.records,
      (machine sampleLibrary).answer ((machine sampleLibrary).run {} sharedRun)
        (sharedGrant 7 sampleId 3) = some (.record r) ∧ r.exclusive = false := by
    decide +kernel
  exact ⟨_, r, rfl, hanswer, hshared, fun hfits => absurd
    (congrArg Except.toOption (capacity_eq_none.mpr hfits)) (by decide +kernel)⟩

/-- A lane that was queued before every reservation. -/
def sampleCandidate : Candidate where
  enqueuedSeq := .num (.int 0)
  caps := ⟨.num (.int 1), .num (.int 1)⟩

/-- A lane beside which nothing runs. -/
def noLane : Option Caps := some ⟨.num (.int 0), .num (.int 0)⟩

/-- In every run, once the clock has passed the hold of every reservation that is looked at, none of
them stands in the way of a lane any more, whatever has become of their owners. -/
theorem holds_end {lib : Library} {is : List Input}
    (h : (machine lib).Along (Input.Proper lib) {} is) {rs : List Record}
    (hrs : rs ⊆ ((machine lib).run {} is).store.records) {time : Value} {now : Number}
    (htime : gauge? time = some now)
    (hover : ∀ r ∈ rs, ∀ limit ∈ Number.add? r.createdAt r.maxHoldS, limit ≤ now)
    (window : Option Number) (c : Candidate) (running : Option Caps) (gauges : Caps) :
    admissionView lib ⟨some rs, window⟩ time c running gauges = .ok .admitted := by
  have hsound := (inv_run h).sound
  have hok : ∀ r ∈ rs, RecordOk lib r := fun r hr => hsound.record (hsound.mem_records.mp (hrs hr))
  have hvalid : rs.all (validRecord lib) = true := all_eq_true.mpr fun r hr => (hok r hr).valid
  have hnone : rs.filter (isCurrent now) = [] := by
    refine filter_eq_nil_iff.mpr fun r hr => ?_
    obtain ⟨limit, hlimit, hle⟩ := (hok r hr).bounded
    have hpassed : ¬ now < r.expiresAt := not_lt_of_ge (hle.trans (hover r hr limit hlimit))
    simp [isCurrent, hpassed]
  unfold admissionView
  rw [Option.filter_some, if_pos hvalid, htime]
  simp only [hnone]
  rfl

theorem holds_end_sample :
    admissionView sampleLibrary ⟨some ((machine sampleLibrary).run {} sampleRun).store.records, none⟩
      (.num (.int 105)) sampleCandidate noLane (sampleGauges 0) = .ok .admitted :=
  holds_end sampleRun_proper (Subset.refl _)
    (show gauge? _ = some (.int 105) by decide +kernel)
    (by decide +kernel) _ _ _ _

end Workbay.Reservation
