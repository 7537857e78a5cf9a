import Workbay.Projection.Proofs.DrainProofs
import Workbay.Projection.Proofs.IdentityProofs

/-!
# Runs of the drain

A pass over a spool that holds an entry leaves it with fewer attempts allowed, so that enough passes
leave nothing. No entry is lost on the way: what a pass drops has been replayed or replaced.
-/

namespace Workbay.Projection

open List

@[simp] theorem readEntries_map_some (entries : List Payload) :
    readEntries (entries.map some) = entries.map unwrap := by
  unfold readEntries
  induction entries with
  | nil => rfl
  | cons entry entries ih => simpa using ih

theorem readEntries_appendToLive (live : Option (List Line)) (entries : List Payload) :
    readEntries ((appendToLive live entries).getD []) =
      readEntries (live.getD []) ++ entries.map unwrap := by
  unfold appendToLive
  cases entries with
  | nil => simp
  | cons entry entries =>
    have hmap := readEntries_map_some (entry :: entries)
    unfold readEntries at hmap ⊢
    simp only [isEmpty_cons, Bool.false_eq_true, if_false, Option.getD_some, filterMap_append,
      map_append, hmap]

/-- The entries of some claims. -/
def claimEntries (claims : List Claim) : List Payload := claims.flatMap Claim.entries

theorem claimSnapshots_perm (spool : Spool) (name : String) :
    (claimEntries (spool.claimSnapshots name)).Perm spool.entries := by
  unfold claimEntries Spool.claimSnapshots Spool.entries
  rw [flatMap_append]
  refine List.Perm.append ?_ ?_
  · exact List.Perm.flatMap_right _ (perm_insertionSort _ _)
  · cases spool.live with
    | none => simp [readEntries]
    | some lines => simp [Claim.entries]

theorem allowed_perm {m : Nat} {xs ys : List Payload} (h : xs.Perm ys) :
    allowed m xs = allowed m ys := (h.map _).sum_eq

theorem Spool.attemptsLeft_eq (m : Nat) (spool : Spool) :
    spool.attemptsLeft m = allowed m spool.entries := rfl

/-- An entry was replayed in the pass, under its key, or is in the spool again. -/
def Drained.Handled (p : Platform) (d : Drained) (entry : Payload) : Prop :=
  (∃ other ∈ d.pass.replayed, dedupKey p other = dedupKey p entry) ∨
    ∃ queued ∈ d.spool.entries, withoutAttempts queued = withoutAttempts entry

section

variable {p : Platform} {backend : Backend} {limits : Limits}

/-- The pass that a claim starts with. -/
def Drained.nextPass (d : Drained) : Pass := { d.pass with remaining := [] }

theorem drainClaims_cons (p : Platform) (limits : Limits) (h : backend.Answers) (claim : Claim) (rest : List Claim) (d : Drained)
    (hnone : d.spool.orphans = []) :
    ∃ pass, pass = (replayEntries p backend limits (compactStateSync claim.entries) d.nextPass).1 ∧
      ((∃ d', d'.pass = pass ∧ d'.spool.orphans = [] ∧
          d'.spool.entries = d.spool.entries ++ pass.remaining.map unwrap ∧
          drainClaims p backend limits (claim :: rest) d = drainClaims p backend limits rest d') ∨
        ((drainClaims p backend limits (claim :: rest) d).pass = pass ∧
          (drainClaims p backend limits (claim :: rest) d).spool.entries =
            claimEntries rest ++ (d.spool.entries ++ pass.remaining.map unwrap))) := by
  have hstop := replayEntries_stop p limits h (compactStateSync claim.entries)
    d.nextPass
  have hold : d.spool.entries = readEntries (d.spool.live.getD []) := by
    unfold Spool.entries
    rw [hnone]
    rfl
  unfold Drained.nextPass at hstop ⊢
  refine ⟨_, rfl, ?_⟩
  rw [drainClaims]
  rcases hrun : replayEntries p backend limits (compactStateSync claim.entries)
    { d.pass with remaining := [] } with ⟨pass, stop⟩
  rw [hrun] at hstop
  cases stop with
  | finished =>
    refine .inl ⟨_, ?_, ?_, ?_, rfl⟩
    · rfl
    · exact hnone
    · rw [hold, ← readEntries_appendToLive]
      simp only [Spool.entries, hnone]
      rfl
  | exhausted =>
    refine .inr ⟨rfl, ?_⟩
    rw [hold, ← readEntries_appendToLive]
    rfl
  | aborted => exact absurd rfl hstop

theorem drainClaims_allowed_le (p : Platform) (limits : Limits) (h : backend.Answers) (claims : List Claim) (d : Drained)
    (hnone : d.spool.orphans = []) :
    allowed limits.maxAttempts (drainClaims p backend limits claims d).spool.entries +
        (drainClaims p backend limits claims d).pass.replayed.length ≤
      allowed limits.maxAttempts d.spool.entries +
        allowed limits.maxAttempts (claimEntries claims) + d.pass.replayed.length := by
  induction claims generalizing d with
  | nil => simp [drainClaims]
  | cons claim rest ih =>
    obtain ⟨pass, hpass, hcases⟩ := drainClaims_cons p limits h claim rest d hnone
    have hle : pass.allowed limits.maxAttempts + pass.replayed.length ≤
        0 + allowed limits.maxAttempts (compactStateSync claim.entries) + d.pass.replayed.length := by
      rw [hpass]
      exact replayEntries_allowed_le p limits h (compactStateSync claim.entries) d.nextPass
    have hsub := allowed_sublist (m := limits.maxAttempts) (compactStateSync_sublist claim.entries)
    have hclaim : claimEntries (claim :: rest) = claim.entries ++ claimEntries rest := rfl
    rw [Pass.allowed] at hle
    rw [hclaim, allowed_append]
    rcases hcases with ⟨d', hd, hnone', hentries, heq⟩ | ⟨hd, hentries⟩
    · have hrest := ih d' hnone'
      rw [hd, hentries, allowed_append] at hrest
      rw [heq]
      omega
    · rw [hd, hentries, allowed_append, allowed_append]
      omega

theorem drainClaims_mono (p : Platform) (limits : Limits) (h : backend.Answers) (claims : List Claim) (d : Drained)
    (hnone : d.spool.orphans = []) :
    (∀ entry ∈ d.pass.replayed, entry ∈ (drainClaims p backend limits claims d).pass.replayed) ∧
      ∀ entry ∈ d.spool.entries, entry ∈ (drainClaims p backend limits claims d).spool.entries := by
  induction claims generalizing d with
  | nil => exact ⟨fun _ h => h, fun _ h => h⟩
  | cons claim rest ih =>
    obtain ⟨pass, hpass, hcases⟩ := drainClaims_cons p limits h claim rest d hnone
    have hext : ∀ entry ∈ d.pass.replayed, entry ∈ pass.replayed := by
      rw [hpass]
      exact (replayEntries_extends p limits h (compactStateSync claim.entries) d.nextPass).replayed
    rcases hcases with ⟨d', hd, hnone', hentries, heq⟩ | ⟨hd, hentries⟩
    · obtain ⟨hreplayed, hspool⟩ := ih d' hnone'
      rw [heq]
      refine ⟨fun e he => hreplayed e ?_, fun e he => hspool e ?_⟩
      · rw [hd]
        exact hext e he
      · rw [hentries]
        exact mem_append_left _ he
    · rw [hd, hentries]
      exact ⟨hext, fun e he => mem_append_right _ (mem_append_left _ he)⟩

theorem Drained.Handled.mono {d d' : Drained} {entry : Payload} (h : d.Handled p entry)
    (hreplayed : ∀ e ∈ d.pass.replayed, e ∈ d'.pass.replayed)
    (hspool : ∀ e ∈ d.spool.entries, e ∈ d'.spool.entries) : d'.Handled p entry := by
  rcases h with ⟨other, hmem, hkey⟩ | ⟨queued, hmem, hsame⟩
  · exact .inl ⟨other, hreplayed other hmem, hkey⟩
  · exact .inr ⟨queued, hspool queued hmem, hsame⟩

end

theorem field_congr {a b : Payload} (h : withoutAttempts a = withoutAttempts b) {key : String}
    (hne : key ≠ replayAttemptsKey) : field a key = field b key := by
  have hpop : ∀ x : Payload, field x key = field (withoutAttempts x) key := by
    intro x
    unfold field withoutAttempts Dict.getD
    rw [Dict.get?_pop_of_ne _ hne]
  rw [hpop a, hpop b, h]

theorem nested?_congr {a b : Payload} (h : withoutAttempts a = withoutAttempts b) :
    nested? a = nested? b := by
  unfold nested?
  rw [field_congr h (by decide)]

theorem isStateSync_congr {a b : Payload} (h : withoutAttempts a = withoutAttempts b) :
    isStateSync a = isStateSync b := by
  unfold isStateSync
  rw [field_congr h (by decide)]

theorem taskOf_congr {a b : Payload} (h : withoutAttempts a = withoutAttempts b) :
    taskOf a = taskOf b := by
  unfold taskOf
  rw [field_congr h (by decide)]

theorem unwrap_of_plain {entry : Payload} (h : nested? entry = none) : unwrap entry = entry := by
  unfold unwrap
  rw [h]
  rfl

section

variable {p : Platform} {backend : Backend} {limits : Limits}

theorem Pass.Handled.drained {pass : Pass} {entry : Payload} (h : pass.Handled p entry)
    (hplain : nested? entry = none) {d : Drained} (hd : d.pass = pass)
    (hspool : ∀ e ∈ pass.remaining.map unwrap, e ∈ d.spool.entries) : d.Handled p entry := by
  rcases h with ⟨other, hmem, hkey⟩ | ⟨queued, hmem, hsame⟩
  · refine .inl ⟨other, ?_, hkey⟩
    rw [hd]
    exact hmem
  · have hqueued : unwrap queued = queued := unwrap_of_plain (by rw [nested?_congr hsame, hplain])
    refine .inr ⟨queued, hspool queued (mem_map.mpr ⟨queued, hmem, hqueued⟩), hsame⟩

theorem drainClaims_handled (p : Platform) (limits : Limits) (h : backend.Answers) (claims : List Claim) (d : Drained)
    (hnone : d.spool.orphans = []) (hback : d.pass.Backed p)
    (hplain : ∀ entry ∈ claimEntries claims, nested? entry = none) :
    ∀ claim ∈ claims, ∀ entry ∈ claim.entries,
      (isStateSync entry = true → (taskOf entry).isSome = true) →
        (drainClaims p backend limits claims d).Handled p entry ∨
          ∃ later ∈ claim.entries, SupersededBy claim.entries entry later ∧
            (drainClaims p backend limits claims d).Handled p later := by
  induction claims generalizing d with
  | nil => simp
  | cons first rest ih =>
    obtain ⟨pass, hpass, hcases⟩ := drainClaims_cons p limits h first rest d hnone
    have hfirst : ∀ e ∈ first.entries, nested? e = none := fun e he =>
      hplain e (mem_append_left _ he)
    have hrest : ∀ e ∈ claimEntries rest, nested? e = none := fun e he =>
      hplain e (mem_append_right _ he)
    have hdone : ∀ e ∈ compactStateSync first.entries, pass.Handled p e := by
      rw [hpass]
      exact replayEntries_handled p limits h (compactStateSync first.entries) hback
    -- Compaction keeps an entry or what replaces it, and either is handled.
    have hkept : ∀ result : Drained, (∀ e ∈ compactStateSync first.entries, result.Handled p e) →
        ∀ e ∈ first.entries, (isStateSync e = true → (taskOf e).isSome = true) →
          result.Handled p e ∨ ∃ later ∈ first.entries, SupersededBy first.entries e later ∧
            result.Handled p later := by
      intro result hresult e he hnamed
      rcases kept_or_superseded he hnamed with hmem | ⟨later, hmem, hlater⟩
      · exact .inl (hresult e hmem)
      · exact .inr ⟨later, (compactStateSync_sublist first.entries).subset hmem, hlater,
          hresult later hmem⟩
    have hsub := (compactStateSync_sublist first.entries).subset
    rcases hcases with ⟨d', hd, hnone', hentries, heq⟩ | ⟨hd, hentries⟩
    · have hback' : d'.pass.Backed p := by
        rw [hd, hpass]
        exact replayEntries_backed p limits h (compactStateSync first.entries) hback
      obtain ⟨hreplayed, hspool⟩ := drainClaims_mono p limits h rest d' hnone'
      intro claim hclaim
      rw [heq]
      rcases mem_cons.mp hclaim with rfl | hclaim
      · refine hkept _ fun e he => ?_
        refine Drained.Handled.mono ?_ hreplayed hspool
        refine (hdone e he).drained (hfirst e (hsub he)) hd fun x hx => ?_
        rw [hentries]
        exact mem_append_right _ hx
      · exact ih d' hnone' hback' hrest claim hclaim
    · intro claim hclaim
      rcases mem_cons.mp hclaim with rfl | hclaim
      · refine hkept _ fun e he => ?_
        refine (hdone e he).drained (hfirst e (hsub he)) hd fun x hx => ?_
        rw [hentries]
        exact mem_append_right _ (mem_append_right _ hx)
      · intro e he _
        refine .inl (.inr ⟨e, ?_, rfl⟩)
        rw [hentries]
        exact mem_append_left _ (mem_flatMap.mpr ⟨claim, hclaim, he⟩)

theorem drainClaims_origin (p : Platform) (limits : Limits) (h : backend.Answers) (claims : List Claim) (d : Drained)
    (hnone : d.spool.orphans = []) (hplain : ∀ entry ∈ claimEntries claims, nested? entry = none)
    {queued : Payload} (hmem : queued ∈ (drainClaims p backend limits claims d).spool.entries) :
    queued ∈ d.spool.entries ∨
      ∃ entry ∈ claimEntries claims, withoutAttempts queued = withoutAttempts entry := by
  induction claims generalizing d with
  | nil => exact .inl hmem
  | cons first rest ih =>
    obtain ⟨pass, hpass, hcases⟩ := drainClaims_cons p limits h first rest d hnone
    have hremaining : ∀ e ∈ pass.remaining.map unwrap,
        ∃ x ∈ claimEntries (first :: rest), withoutAttempts e = withoutAttempts x := by
      intro e he
      obtain ⟨r, hr, rfl⟩ := mem_map.mp he
      rw [hpass] at hr
      rcases replayEntries_origin p limits h _ hr with hr | ⟨x, hx, hsame⟩
      · cases hr
      · have hmem : x ∈ claimEntries (first :: rest) :=
          mem_append_left _ ((compactStateSync_sublist first.entries).subset hx)
        have hr : unwrap r = r := unwrap_of_plain (by rw [nested?_congr hsame, hplain x hmem])
        exact ⟨x, hmem, by rw [hr, hsame]⟩
    rcases hcases with ⟨d', hd, hnone', hentries, heq⟩ | ⟨hd, hentries⟩
    · rw [heq] at hmem
      have hrest : ∀ e ∈ claimEntries rest, nested? e = none := fun e he =>
        hplain e (mem_append_right _ he)
      rcases ih d' hnone' hrest hmem with hmem | ⟨x, hx, hsame⟩
      · rw [hentries] at hmem
        rcases mem_append.mp hmem with hmem | hmem
        · exact .inl hmem
        · exact .inr (hremaining queued hmem)
      · exact .inr ⟨x, mem_append_right _ hx, hsame⟩
    · rw [hentries] at hmem
      rcases mem_append.mp hmem with hmem | hmem
      · exact .inr ⟨queued, mem_append_right _ hmem, rfl⟩
      · rcases mem_append.mp hmem with hmem | hmem
        · exact .inl hmem
        · exact .inr (hremaining queued hmem)

theorem drainClaims_cons_nil (p : Platform) (backend : Backend) (limits : Limits) {claim : Claim} (hnil : compactStateSync claim.entries = [])
    (rest : List Claim) {d : Drained} (hnone : d.spool.orphans = []) :
    ∃ d', d'.pass = d.nextPass ∧ d'.spool.orphans = [] ∧ d'.spool.entries = d.spool.entries ∧
      drainClaims p backend limits (claim :: rest) d = drainClaims p backend limits rest d' := by
  rw [drainClaims, hnil, replayEntries]
  refine ⟨_, ?_, ?_, ?_, rfl⟩
  · rfl
  · exact hnone
  · rfl

theorem drainClaims_lt (p : Platform) (limits : Limits) (h : backend.Answers) (claims : List Claim) (d : Drained)
    (hnone : d.spool.orphans = []) (hstart : exhaustion limits d.pass = none)
    (hseen : d.pass.seen = []) (hreplayed : d.pass.replayed = []) (hne : claimEntries claims ≠ []) :
    allowed limits.maxAttempts (drainClaims p backend limits claims d).spool.entries <
      allowed limits.maxAttempts d.spool.entries +
        allowed limits.maxAttempts (claimEntries claims) := by
  induction claims generalizing d with
  | nil => exact absurd rfl hne
  | cons claim rest ih =>
    have hclaim : claimEntries (claim :: rest) = claim.entries ++ claimEntries rest := rfl
    by_cases hnil : compactStateSync claim.entries = []
    · obtain ⟨d', hd, hnone', hentries, heq⟩ :=
        drainClaims_cons_nil p backend limits hnil rest hnone
      rw [hclaim] at hne ⊢
      rw [heq, ← hentries, allowed_append]
      by_cases hempty : claim.entries = []
      · have hrest := ih d' hnone' (by rw [hd]; exact hstart) (by rw [hd]; exact hseen)
          (by rw [hd]; exact hreplayed) (by simpa [hempty] using hne)
        omega
      · have hpos := allowed_pos (m := limits.maxAttempts) hempty
        have hle := drainClaims_allowed_le p limits h rest d' hnone'
        have hzero : d'.pass.replayed.length = 0 := by
          rw [hd]
          exact length_eq_zero_iff.mpr hreplayed
        omega
    · have hle := drainClaims_allowed_le p limits h (claim :: rest) d hnone
      have hsome : (drainClaims p backend limits (claim :: rest) d).pass.replayed ≠ [] := by
        obtain ⟨pass, hpass, hcases⟩ :=
          drainClaims_cons p limits h claim rest d hnone
        have hfirst : pass.replayed ≠ [] := by
          rw [hpass]
          exact replayEntries_replays p limits h hnil hstart hseen
        obtain ⟨e, he⟩ := exists_mem_of_ne_nil _ hfirst
        rcases hcases with ⟨d', hd, hnone', -, heq⟩ | ⟨hd, -⟩
        · rw [heq]
          refine ne_nil_of_mem ((drainClaims_mono p limits h rest d' hnone').1 e ?_)
          rw [hd]
          exact he
        · rw [hd]
          exact hfirst
      have hpos := length_pos_iff.mpr hsome
      rw [hreplayed, length_nil] at hle
      omega

end

theorem PassInput.Ready.answers {input : PassInput} (h : input.Ready) : input.backend.Answers :=
  ⟨h.reached, h.parked⟩

section

variable {p : Platform} {m : Nat} {input : PassInput}

theorem passOn_le (h : input.Ready) (spool : Spool) :
    (passOn p m spool input).spool.attemptsLeft m + (passOn p m spool input).pass.replayed.length ≤
      spool.attemptsLeft m := by
  have hle := drainClaims_allowed_le p (input.limits m) h.answers
    (spool.claimSnapshots input.name)
    { spool := {}, pass := { budgetLeft := (input.limits m).maxEntries }, stop := .finished,
      skippedCorrupt := 0, compacted := 0 } rfl
  rw [allowed_perm (claimSnapshots_perm spool input.name)] at hle
  simpa [Spool.attemptsLeft_eq, passOn, drain, Spool.entries, readEntries, Pass.replayed,
    PassInput.limits] using hle

theorem passOn_lt (h : input.Ready) {spool : Spool} (hne : spool.entries ≠ []) :
    (passOn p m spool input).spool.attemptsLeft m < spool.attemptsLeft m := by
  have hperm := claimSnapshots_perm spool input.name
  have hclaims : claimEntries (spool.claimSnapshots input.name) ≠ [] := fun hnil => by
    rw [hnil] at hperm
    exact hne (nil_perm.mp hperm)
  have hstart : exhaustion (input.limits m) { budgetLeft := input.maxEntries } = none := by
    simp [exhaustion, h.budget, PassInput.limits, h.untimed]
  have hlt := drainClaims_lt p (input.limits m) h.answers
    (spool.claimSnapshots input.name)
    { spool := {}, pass := { budgetLeft := (input.limits m).maxEntries }, stop := .finished,
      skippedCorrupt := 0, compacted := 0 } rfl hstart rfl rfl hclaims
  rw [allowed_perm hperm] at hlt
  simpa [Spool.attemptsLeft_eq, passOn, drain, Spool.entries, readEntries, PassInput.limits] using hlt

theorem passOn_handled (h : input.Ready) {spool : Spool} (hplain : spool.Plain) {entry : Payload}
    (hmem : entry ∈ spool.entries) (hnamed : isStateSync entry = true → (taskOf entry).isSome = true) :
    (passOn p m spool input).Handled p entry ∨
      ∃ claim ∈ spool.claimSnapshots input.name, ∃ later ∈ claim.entries,
        SupersededBy claim.entries entry later ∧ (passOn p m spool input).Handled p later := by
  have hperm := claimSnapshots_perm spool input.name
  obtain ⟨claim, hclaim, he⟩ := mem_flatMap.mp (hperm.mem_iff.mpr hmem)
  have hback : (Pass.mk (input.limits m).maxEntries 0 0 [] [] [] none).Backed p := by
    intro key hkey
    cases hkey
  rcases drainClaims_handled p (input.limits m) h.answers
    (spool.claimSnapshots input.name)
    { spool := {}, pass := { budgetLeft := (input.limits m).maxEntries }, stop := .finished,
      skippedCorrupt := 0, compacted := 0 } rfl hback
    (fun e he => hplain e (hperm.mem_iff.mp he)) claim hclaim entry he hnamed with hdone | hlater
  · exact .inl hdone
  · exact .inr ⟨claim, hclaim, hlater⟩

theorem passOn_plain (h : input.Ready) {spool : Spool} (hplain : spool.Plain) :
    (passOn p m spool input).spool.Plain := by
  intro queued hmem
  have hperm := claimSnapshots_perm spool input.name
  have hclaims : ∀ e ∈ claimEntries (spool.claimSnapshots input.name), nested? e = none :=
    fun e he => hplain e (hperm.mem_iff.mp he)
  rcases drainClaims_origin p (input.limits m) h.answers
    (spool.claimSnapshots input.name)
    { spool := {}, pass := { budgetLeft := (input.limits m).maxEntries }, stop := .finished,
      skippedCorrupt := 0, compacted := 0 } rfl hclaims hmem with hmem | ⟨e, he, hsame⟩
  · cases hmem
  · rw [nested?_congr hsame]
    exact hclaims e he

end

section

variable {p : Platform} {m : Nat}

/-- As many passes as there are attempts left empty the spool. -/
theorem drainRun_entries {inputs : List PassInput} (h : ∀ input ∈ inputs, input.Ready)
    {spool : Spool} (hle : spool.attemptsLeft m ≤ inputs.length) :
    (drainRun p m inputs spool).entries = [] := by
  have hzero : ∀ s : Spool, s.attemptsLeft m = 0 → s.entries = [] := by
    intro s hs
    by_contra hne
    have hpos := allowed_pos (m := m) hne
    rw [Spool.attemptsLeft_eq] at hs
    omega
  induction inputs generalizing spool with
  | nil => exact hzero spool (Nat.le_zero.mp hle)
  | cons input inputs ih =>
    rw [drainRun, foldl_cons]
    have hready := h input mem_cons_self
    refine ih (fun i hi => h i (mem_cons_of_mem _ hi)) ?_
    rw [length_cons] at hle
    by_cases hne : spool.entries = []
    · have hpass := passOn_le (p := p) (m := m) hready spool
      have hnone : spool.attemptsLeft m = 0 := by rw [Spool.attemptsLeft_eq, hne]; rfl
      omega
    · have hpass := passOn_lt (p := p) (m := m) hready hne
      omega

theorem attemptsLeft_le_size (m : Nat) (spool : Spool) :
    spool.attemptsLeft m ≤ spool.size * (m + 1) := by
  unfold Spool.attemptsLeft Spool.size
  rw [Nat.mul_comm]
  induction spool.entries with
  | nil => simp
  | cons entry entries ih =>
    have hhead : entrySum (attemptsLeft m) entry ≤ (m + 1) * entrySum (fun _ => 1) entry :=
      nestedSum_le attemptsLeft_le (.obj entry)
    simp only [map_cons, sum_cons, Nat.mul_add]
    omega

theorem Accounted.congr {records : List PassRecord} {a b : Payload} (h : Accounted p records a)
    (hsame : withoutAttempts a = withoutAttempts b) : Accounted p records b := by
  induction h generalizing b with
  | replayed hmem hkey => exact .replayed hmem (hkey.trans (dedupKey_congr hsame))
  | superseded hmem hlater h _ =>
    obtain ⟨before, queued, after, hclaim, hafter, hqueued, hsync⟩ := hlater
    exact .superseded hmem ⟨before, queued, after, hclaim, hafter, hqueued.trans hsame, hsync⟩ h
  | kept _ ih => exact .kept (ih hsame)

theorem accounted_of_emptied {inputs : List PassInput} (h : ∀ input ∈ inputs, input.Ready)
    {spool : Spool} (hplain : spool.Plain) (hempty : (drainRun p m inputs spool).entries = [])
    {entry : Payload} (hmem : entry ∈ spool.entries)
    (hnamed : isStateSync entry = true → (taskOf entry).isSome = true) :
    Accounted p (recordsOf p m inputs spool) entry := by
  induction inputs generalizing spool entry with
  | nil =>
    rw [drainRun, foldl_nil] at hempty
    rw [hempty] at hmem
    cases hmem
  | cons input inputs ih =>
    have hready := h input mem_cons_self
    rw [drainRun, foldl_cons] at hempty
    rw [recordsOf]
    -- What a pass has handled is replayed, or in the spool for the passes that follow.
    have hdone : ∀ e, (isStateSync e = true → (taskOf e).isSome = true) →
        (passOn p m spool input).Handled p e →
          Accounted p (recordOf p m spool input ::
            recordsOf p m inputs (passOn p m spool input).spool) e := by
      intro e hnamed hhandled
      rcases hhandled with ⟨other, hother, hkey⟩ | ⟨queued, hqueued, hsame⟩
      · exact .replayed hother hkey
      · have hnamed' : isStateSync queued = true → (taskOf queued).isSome = true := by
          rw [isStateSync_congr hsame, taskOf_congr hsame]
          exact hnamed
        have hrest := ih (fun i hi => h i (mem_cons_of_mem _ hi)) (passOn_plain hready hplain)
          hempty hqueued hnamed'
        exact .kept (hrest.congr hsame)
    rcases passOn_handled (p := p) (m := m) hready hplain hmem hnamed with
      hhandled | ⟨claim, hclaim, later, hlater, hsuper, hhandled⟩
    · exact hdone entry hnamed hhandled
    · refine .superseded (mem_map.mpr ⟨claim, hclaim, rfl⟩) hsuper (hdone later ?_ hhandled)
      obtain ⟨_, queued, _, _, _, _, _, _, htask, hsame⟩ := hsuper
      intro _
      rw [← hsame]
      exact htask

end

/-- Passes that reach the command line, with a sink that takes what is parked and a budget of at least
one entry, empty the spool. Every pass that replays an entry leaves fewer attempts. -/
theorem spool_drains (p : Platform) (m : Nat) {inputs : List PassInput}
    (h : ∀ input ∈ inputs, input.Ready) (spool : Spool) :
    (spool.size * (m + 1) ≤ inputs.length →
      (drainRun p m inputs spool).entries = [] ∧
        (spool.Plain → ∀ entry ∈ spool.entries,
          (isStateSync entry = true → (taskOf entry).isSome = true) →
            Accounted p (recordsOf p m inputs spool) entry)) ∧
      ∀ passes input rest, inputs = passes ++ input :: rest →
        (passOn p m (drainRun p m passes spool) input).pass.replayed ≠ [] →
          (drainRun p m (passes ++ [input]) spool).attemptsLeft m <
            (drainRun p m passes spool).attemptsLeft m := by
  constructor
  · intro hlong
    have hempty := drainRun_entries (p := p) h (Nat.le_trans (attemptsLeft_le_size m spool) hlong)
    exact ⟨hempty, fun hplain entry hmem hnamed =>
      accounted_of_emptied h hplain hempty hmem hnamed⟩
  · intro passes input rest heq hreplayed
    have hready : input.Ready := h input (by simp [heq])
    have hle := passOn_le (p := p) (m := m) hready (drainRun p m passes spool)
    have hpos := length_pos_iff.mpr hreplayed
    have hnext : drainRun p m (passes ++ [input]) spool =
        (passOn p m (drainRun p m passes spool) input).spool := by
      simp [drainRun, foldl_append]
    rw [hnext]
    omega

/-- A command line that rejects every event. -/
def rejecting : PassInput where
  name := "pending-workflow-events.jsonl.draining.1-1"
  backend := { run := fun _ _ => ⟨1, ""⟩, park := fun _ _ => true }
  maxEntries := some 1

theorem rejecting_ready : rejecting.Ready :=
  ⟨fun _ _ => rfl, fun _ _ => rfl, by simp [rejecting], fun _ => rfl⟩

/-- Two syncs of one task. -/
def twoSyncs : Spool := { live := some [some (stateSync "parse"), some (stateSync "print")] }

theorem spool_drains_twoSyncs :
    ((twoSyncs.size * (0 + 1) ≤ [rejecting, rejecting].length →
      (drainRun bare 0 [rejecting, rejecting] twoSyncs).entries = [] ∧
        (twoSyncs.Plain → ∀ entry ∈ twoSyncs.entries,
          (isStateSync entry = true → (taskOf entry).isSome = true) →
            Accounted bare (recordsOf bare 0 [rejecting, rejecting] twoSyncs) entry)) ∧
      ∀ passes input rest, [rejecting, rejecting] = passes ++ input :: rest →
        (passOn bare 0 (drainRun bare 0 passes twoSyncs) input).pass.replayed ≠ [] →
          (drainRun bare 0 (passes ++ [input]) twoSyncs).attemptsLeft 0 <
            (drainRun bare 0 passes twoSyncs).attemptsLeft 0) ∧
      twoSyncs.size * (0 + 1) ≤ [rejecting, rejecting].length :=
  ⟨spool_drains bare 0 (by simp [rejecting_ready]) twoSyncs, by decide⟩

/-- The sync that a later one of its task replaces is never replayed. -/
theorem superseded_not_replayed : ¬ ∀ (p : Platform) (m : Nat) (inputs : List PassInput)
    (spool : Spool), (∀ input ∈ inputs, input.Ready) → spool.size * (m + 1) ≤ inputs.length →
      ∀ entry ∈ spool.entries, ∃ record ∈ recordsOf p m inputs spool,
        ∃ replayed ∈ record.replayed, withoutAttempts replayed = withoutAttempts entry := by
  intro h
  have hreplayed := h bare 0 [rejecting, rejecting] twoSyncs (by simp [rejecting_ready]) (by decide)
    (stateSync "parse") (by decide +kernel)
  exact absurd hreplayed (by decide +kernel)

end Workbay.Projection
