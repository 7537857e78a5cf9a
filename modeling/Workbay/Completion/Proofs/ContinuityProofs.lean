import Workbay.Completion.Proofs.AgreementProofs
import Mathlib.Data.List.Chain

/-!
# What a covered history shows

The receipts of a covered history are one chain from the admission, and the entries that they carry
of a route lead from the cursor of the admission to the assessed one. A cursor does not hold the
object that its source is at: only inside an interval does each entry start at the object before it.
-/

namespace Workbay.Completion

open Effects List

variable {host : CoverageHost} {policy : CoveragePolicy}

/-- The entries of an interval. -/
def entriesOf (interval : Json) : List Json :=
  ((interval.get? "entries").bind Json.arr?).getD []

variable (history : List Receipt)

/-- The entries that a history carries of each interval of a route, in the order of its receipts. -/
def intervalEntries (route : String) : List (List Json) :=
  (history.filterMap (intervalOf route)).map entriesOf

/-- The entries that a history carries of a route. -/
def routeEntries (route : String) : List Json :=
  (intervalEntries history route).flatten

/-- Entries lead from a cursor to a cursor: each has the next sequence and the digest before it. -/
def Leads : List Json → SourceCursor → SourceCursor → Prop
  | [], start, stop => start = stop
  | entry :: entries, start, stop =>
    entry.get? "sequence" = some (.int (start.sequence + 1)) ∧
      entry.get? "previous_digest" = some (.str start.digest) ∧
      ∃ digest, entry.get? "digest" = some (.str digest) ∧
        Leads entries ⟨start.storeId, start.sequence + 1, digest⟩ stop

/-- An entry starts at the object that another leads to. -/
def NextObject (before entry : Json) : Prop :=
  ∃ oid, before.get? "new_oid" = some oid ∧ entry.get? "old_oid" = some oid

theorem Leads.append {xs ys : List Json} {a b c : SourceCursor} (hx : Leads xs a b)
    (hy : Leads ys b c) : Leads (xs ++ ys) a c := by
  induction xs generalizing a with
  | nil =>
    obtain rfl : a = b := hx
    exact hy
  | cons x xs ih =>
    obtain ⟨hsequence, hprevious, digest, hdigest, hrest⟩ := hx
    exact ⟨hsequence, hprevious, digest, hdigest, ih hrest⟩

/-- What a round of the loop of `_advance` does, when it goes through. -/
structure EntryRead (w : SourceCursor × Option String) (entry : Json)
    (w' : SourceCursor × Option String) : Prop where
  sequence : entry.get? "sequence" = some (.int (w.1.sequence + 1))
  previous : entry.get? "previous_digest" = some (.str w.1.digest)
  digest : ∃ digest, entry.get? "digest" = some (.str digest) ∧
    w'.1 = ⟨w.1.storeId, w.1.sequence + 1, digest⟩
  newOid : ∃ oid, entry.get? "new_oid" = some (.str oid) ∧ w'.2 = some oid
  oldOid : ∀ oid, w.2 = some oid → entry.get? "old_oid" = some (.str oid)

theorem checkOids_spec {entry : Json} {previousOid : Option String} {oid : String}
    (h : checkOids entry previousOid = .ok oid) : entry.get? "new_oid" = some (.str oid) ∧
      ∀ previous, previousOid = some previous → entry.get? "old_oid" = some (.str previous) := by
  simp only [checkOids, bind_eq_ok, exists_const, require_eq_ok, member_eq_ok, pure, Except.pure,
    Except.ok.injEq] at h
  obtain ⟨old, hold, -, new, hnew, hnonempty, hprevious, rfl⟩ := h
  refine ⟨?_, fun previous heq => ?_⟩
  · rw [hnew]
    cases new <;> simp_all [nonEmpty?, Json.str?]
  · subst heq
    rw [hold]
    simpa using hprevious

theorem advanceEntry_spec {w w' : SourceCursor × Option String} {entry : Json}
    (h : advanceEntry host w entry = .ok w') : EntryRead w entry w' := by
  simp only [advanceEntry, bind_eq_ok, exists_const, require_eq_ok, member_eq_ok, pure,
    Except.pure, Except.ok.injEq] at h
  obtain ⟨sequence, hsequence, rfl, previous, hprevious, rfl, digest, hdigest, rfl, oid, hoids,
    rfl⟩ := h
  obtain ⟨hnew, hold⟩ := checkOids_spec hoids
  exact ⟨hsequence, hprevious, ⟨_, hdigest, rfl⟩, ⟨oid, hnew, rfl⟩, hold⟩

/-- The loop of `_advance` follows the entries, and their objects from the one before them. -/
theorem advanceEntries_spec {entries : List Json} {w w' : SourceCursor × Option String}
    (h : entries.foldlM (advanceEntry host) w = .ok w') :
    Leads entries w.1 w'.1 ∧ entries.IsChain NextObject ∧
      ∀ entry ∈ entries.head?, ∀ oid, w.2 = some oid → entry.get? "old_oid" = some (.str oid) := by
  induction entries generalizing w with
  | nil =>
    obtain rfl : w = w' := Except.ok.inj h
    exact ⟨rfl, isChain_nil, fun entry hentry => by cases hentry⟩
  | cons entry entries ih =>
    rw [foldlM_cons] at h
    obtain ⟨mid, hmid, hrest⟩ := bind_eq_ok.mp h
    have hentry := advanceEntry_spec hmid
    obtain ⟨hleads, hchain, hfirst⟩ := ih hrest
    obtain ⟨digest, hdigest, hcursor⟩ := hentry.digest
    obtain ⟨oid, hnew, hoid⟩ := hentry.newOid
    refine ⟨⟨hentry.sequence, hentry.previous, digest, hdigest, ?_⟩, ?_, ?_⟩
    · rw [← hcursor]
      exact hleads
    · refine isChain_cons.mpr ⟨fun next hnext => ?_, hchain⟩
      exact ⟨.str oid, hnew, hfirst next hnext oid hoid⟩
    · intro first hfirst
      obtain rfl : entry = first := by simpa using hfirst
      exact hentry.oldOid

/-- The entries of an interval that `_advance` follows lead to its end. -/
theorem advance_leads {interval : Json} {current stop : SourceCursor}
    (h : advance host policy interval current = .ok stop) :
    Leads (entriesOf interval) current stop ∧ (entriesOf interval).IsChain NextObject := by
  simp only [advance, bind_eq_ok, exists_const, require_eq_ok, member_eq_ok, pure, Except.pure,
    Except.ok.injEq] at h
  obtain ⟨_, -, start, -, stop', -, -, -, entries, hentries, -, reached, hreached, hstop, rfl⟩ := h
  obtain ⟨hleads, hchain, -⟩ := advanceEntries_spec hreached
  rw [hstop] at hleads
  rw [entriesOf, hentries]
  exact ⟨hleads, hchain⟩

/-- What the scan has followed of the routes. -/
structure Followed (start : Dict String SourceCursor) (chain : List Receipt)
    (cursors : Dict String SourceCursor) : Prop where
  leads : ∀ route c, start.get? route = some c → ∃ reached,
    cursors.get? route = some reached ∧ Leads (routeEntries chain route) c reached
  objects : ∀ route, ∀ entries ∈ intervalEntries chain route, entries.IsChain NextObject

theorem intervalEntries_append (chain : List Receipt) (r : Receipt) (route : String) :
    intervalEntries (chain ++ [r]) route = intervalEntries chain route ++
      ((intervalOf route r).map entriesOf).toList := by
  rw [intervalEntries, filterMap_append, map_append]
  cases h : intervalOf route r <;> simp [intervalEntries, h]

theorem routeEntries_append (chain : List Receipt) (r : Receipt) (route : String) :
    routeEntries (chain ++ [r]) route = routeEntries chain route ++
      ((intervalOf route r).map entriesOf).getD [] := by
  rw [routeEntries, intervalEntries_append, flatten_append]
  cases h : intervalOf route r <;> simp [routeEntries]

variable {start : Dict String SourceCursor} {chain : List Receipt} {w : ScanLoop} {r : Receipt}

theorem Followed.append {w' : ScanLoop} (h : Followed start chain w.cursors)
    (hr : ScanRow host policy w r w') : Followed start (chain ++ [r]) w'.cursors := by
  rcases hr.cursors with ⟨hnone, hsame⟩ | ⟨interval, hsome, hscan⟩
  · have hno : ∀ route, intervalOf route r = none := by
      intro route
      rw [intervalOf, hnone]
      rfl
    rw [hsame]
    refine ⟨fun route c hc => ?_, fun route => ?_⟩
    · rw [routeEntries_append, hno, Option.map_none, Option.getD_none, append_nil]
      exact h.leads route c hc
    · rw [intervalEntries_append, hno, Option.map_none, Option.toList_none, append_nil]
      exact h.objects route
  · obtain ⟨-, name, current, stop, hname, hcurrent, hadvance, heq⟩ := scanInterval_spec hscan
    obtain ⟨hleads, hchain⟩ := advance_leads hadvance
    have hthis : intervalOf name r = some interval := by
      rw [intervalOf, hsome, Option.filter_some, if_pos (by simp [hname])]
    have hother : ∀ route, name ≠ route → intervalOf route r = none := by
      intro route hroute
      rw [intervalOf, hsome, Option.filter_some, if_neg (by simp [hname, hroute])]
    rw [heq]
    refine ⟨fun route c hc => ?_, fun route => ?_⟩
    · obtain ⟨reached, hreached, hfollowed⟩ := h.leads route c hc
      rw [routeEntries_append]
      by_cases hroute : name = route
      · subst hroute
        obtain rfl : current = reached := Option.some.inj (hcurrent.symm.trans hreached)
        rw [hthis, Option.map_some, Option.getD_some]
        exact ⟨stop, Dict.get?_set_self _ _ _, hfollowed.append hleads⟩
      · rw [hother route hroute, Option.map_none, Option.getD_none, append_nil]
        refine ⟨reached, ?_, hfollowed⟩
        rw [Dict.get?_set_of_ne _ _ (Ne.symm hroute)]
        exact hreached
    · rw [intervalEntries_append]
      by_cases hroute : name = route
      · subst hroute
        rw [hthis, Option.map_some, Option.toList_some]
        intro entries hentries
        rcases mem_append.mp hentries with hold | hnew
        · exact h.objects name entries hold
        · rw [mem_singleton.mp hnew]
          exact hchain
      · rw [hother route hroute, Option.map_none, Option.toList_none, append_nil]
        exact h.objects route

/-- The cursor of a route in an admission. -/
def admissionCursor (root : Receipt) (route : String) : Option SourceCursor :=
  ((Dict.get? root.payload.facts "source_cursors").bind (·.get? route)).bind fun value =>
    (readCursor value).toOption

/-- The cursor of a route that a policy assesses. -/
def assessedCursor (policy : CoveragePolicy) (route : String) : Option SourceCursor :=
  (policy.assessmentCursors.get? route).bind fun value => (readCursor value).toOption

/-- The history of an admission shows everything of its sources, up to the assessed cursors. -/
structure SoundHistory (policy : CoveragePolicy) (history : List Receipt) : Prop where
  /-- The receipts are one chain from the admission. -/
  chain : Sequential history ∧
    history.IsChain (fun a b => b.previousEvidenceId = some a.evidenceId) ∧
    ∀ root ∈ history.head?, root.kind = .admission ∧ root.previousEvidenceId = none
  /-- It is of the binding of the policy, without a gap or a contract link. -/
  kinds : ∀ r ∈ history, r.binding = policy.binding ∧ r.payload.admissionId = policy.admissionId ∧
    r.kind ≠ .gap ∧ r.kind ≠ .contractLink
  /-- Every prepare is settled behind it. -/
  settled : ∀ before r after, history = before ++ r :: after → r.kind = .prepare →
    ∃ s ∈ after, s.kind = .settle ∧ s.payload.operationId = r.payload.operationId
  /-- Only settlements carry intervals. -/
  carried : ∀ r ∈ history, ∀ interval,
    Dict.get? r.payload.facts "source_interval" = some interval → r.kind = .settle
  /-- The entries of a route are one chain, from the admission to the assessment. -/
  entries : ∀ route ∈ policy.routes, ∃ root start stop, history.head? = some root ∧
    admissionCursor root route = some start ∧ assessedCursor policy route = some stop ∧
    Leads (routeEntries history route) start stop ∧ (routeEntries history route).IsChain NextObject

/-- Where an interval of a route with entries follows another, its source is at the object at which
the other has left it. -/
def MeetsAtBoundaries (route : String) : Prop :=
  ((intervalEntries history route).filter (· ≠ [])).IsChain fun xs ys =>
    ∀ x ∈ xs.getLast?, ∀ y ∈ ys.head?, NextObject x y

theorem isChain_routeEntries {history : List Receipt} {route : String}
    (h : ∀ entries ∈ intervalEntries history route, entries.IsChain NextObject) :
    (routeEntries history route).IsChain NextObject ↔ MeetsAtBoundaries history route := by
  have hnil : [] ∉ (intervalEntries history route).filter (· ≠ []) := by simp
  have hflatten : ((intervalEntries history route).filter (· ≠ [])).flatten =
      routeEntries history route := flatten_filter_ne_nil
  rw [← hflatten, isChain_flatten hnil, MeetsAtBoundaries]
  refine and_iff_right fun entries hentries => ?_
  exact h entries (mem_filter.mp hentries).1

theorem admissionCursor_of_start {root : Receipt} (h : startCursors policy root = .ok start)
    (route : String) : start.get? route = admissionCursor root route ∧
      (route ∈ policy.routes → (start.get? route).isSome) := by
  simp only [startCursors, bind_eq_ok, member_eq_ok] at h
  obtain ⟨value, hvalue, h⟩ := h
  split at h
  · cases h
  · rename_i members hmembers
    simp only [bind_eq_ok, exists_const, require_eq_ok] at h
    obtain ⟨hsame, hread⟩ := h
    obtain ⟨start', hread', hkeys, hget⟩ := startCursors_spec fun kv hkv => by
      obtain ⟨y, -, hy⟩ := exists_of_readAll hread hkv
      obtain ⟨c, hc, -⟩ := bind_eq_ok.mp hy
      exact ⟨c, hc⟩
    obtain rfl : start' = start := Except.ok.inj (hread'.symm.trans hread)
    refine ⟨?_, fun hroute => ?_⟩
    · have hfacts : Dict.get? root.payload.facts "source_cursors" = some value := hvalue
      rw [hget, admissionCursor, hfacts]
      cases value <;> simp_all [Json.obj?, Json.get?]
    · rw [Dict.get?_isSome_iff, hkeys]
      simp only [sameElements, Bool.and_eq_true, all_eq_true, decide_eq_true_eq] at hsame
      exact hsame.2 route hroute

/-- What a scan has gone through. -/
structure Scan (host : CoverageHost) (policy : CoveragePolicy) (start : Dict String SourceCursor)
    (chain : List Receipt) (w : ScanLoop) : Prop where
  scanned : Scanned start chain w
  followed : Followed start chain w.cursors
  sequential : Sequential chain
  linked : chain.IsChain fun a b => b.previousEvidenceId = some a.evidenceId
  root : ∀ root ∈ chain.head?, root.previousEvidenceId = none
  rows : ∀ before r after, chain = before ++ r :: after → ∃ w₁ w₂, Scanned start before w₁ ∧
    ScanRow host policy w₁ r w₂

theorem Scan.nil (start : Dict String SourceCursor) :
    Scan host policy start [] { cursors := start } where
  scanned := .start start
  followed := ⟨fun _ c hc => ⟨c, hc, rfl⟩, fun _ _ h => by cases h⟩
  sequential := rfl
  linked := isChain_nil
  root := fun _ h => by cases h
  rows before r after h := by
    have hmem : r ∈ ([] : List Receipt) := by rw [h]; simp
    cases hmem

theorem Scan.append {w' : ScanLoop} (h : Scan host policy start chain w)
    (hr : ScanRow host policy w r w') : Scan host policy start (chain ++ [r]) w' where
  scanned := h.scanned.append hr
  followed := h.followed.append hr
  sequential := h.sequential.append (by rw [hr.place.1, h.scanned.count])
  linked := by
    refine isChain_append.mpr ⟨h.linked, isChain_singleton _, ?_⟩
    intro x hx y hy
    obtain rfl : r = y := by simpa using hy
    rw [hr.place.2.1, h.scanned.predecessor, hx]
    rfl
  root root hroot := by
    cases chain with
    | nil =>
      obtain rfl : r = root := by simpa using hroot
      rw [hr.place.2.1, h.scanned.predecessor]
      rfl
    | cons first chain => exact h.root root hroot
  rows before x after heq := by
    rcases eq_nil_or_concat after with rfl | ⟨after, y, rfl⟩
    · obtain ⟨rfl, hx⟩ := append_inj' heq rfl
      obtain rfl : r = x := by simpa using hx
      exact ⟨w, w', h.scanned, hr⟩
    · have heq' : chain ++ [r] = (before ++ x :: after) ++ [y] := by simpa using heq
      exact h.rows before x after (append_inj' heq' rfl).1

theorem scan_of_fold (h : chain.foldlM (scanRow host policy) { cursors := start } = .ok w) :
    Scan host policy start chain w :=
  foldlM_induct (Scan host policy start)
    (fun _ _ _ _ _ _ hs hr => hs.append (scanRow_spec hr)) (.nil start) h

/-- A prepare that the scan has gone through, and after which no operation is open, is settled
behind it. -/
theorem Scan.settled (h : Scan host policy start chain w) (hopen : openOf chain = [])
    {before after : List Receipt} (heq : chain = before ++ r :: after) (hkind : r.kind = .prepare) :
    ∃ s ∈ after, s.kind = .settle ∧ s.payload.operationId = r.payload.operationId := by
  obtain ⟨w₁, w₂, hscanned, hr⟩ := h.rows before r after heq
  have hsettled : (chain.any fun s => settles s r.payload.operationId) = true := by
    by_contra hnot
    have hin : r.payload.operationId ∈ openOf chain :=
      mem_map_of_mem (mem_filter.mpr ⟨by rw [heq]; simp, by simp [hkind, hnot]⟩)
    rw [hopen] at hin
    cases hin
  obtain ⟨s, hs, hsettles⟩ := any_eq_true.mp hsettled
  simp only [settles, Bool.and_eq_true, decide_eq_true_eq] at hsettles
  have hbefore : r.payload.operationId ∉ settledOf before := by
    rcases hr.kind with ⟨-, -, hnot, -⟩ | ⟨hsettle, -⟩ | ⟨hother, -⟩
    · rwa [hscanned.settled] at hnot
    · rw [hkind] at hsettle
      cases hsettle
    · rw [hkind] at hother
      rcases hother with hother | hother <;> cases hother
  rw [heq] at hs
  rcases mem_append.mp hs with hs | hs
  · refine absurd ?_ hbefore
    exact mem_map.mpr ⟨s, mem_filter.mpr ⟨hs, by simp [hsettles.1]⟩, hsettles.2⟩
  · rcases mem_cons.mp hs with rfl | hs
    · rw [hkind] at hsettles
      cases hsettles.1
    · exact ⟨s, hs, hsettles⟩

theorem assessRoute_spec {route : String} {current : SourceCursor}
    (h : assessRoute policy route current = .ok ()) :
    assessedCursor policy route = some current := by
  rw [assessRoute] at h
  rw [assessedCursor]
  split at h
  · cases h
  · rename_i value hvalue
    simp only [bind_eq_ok, require_eq_ok, exists_const] at h
    obtain ⟨stop, hstop, -, rfl⟩ := h
    rw [hvalue, Option.bind_some, hstop]
    rfl

theorem scanRoot_kind {data : HistoryData} {root : Receipt} {cursors : Dict String SourceCursor}
    (h : scanRoot policy data root = .ok cursors) : root.kind = .admission := by
  simp only [scanRoot, bind_eq_ok, exists_const, require_eq_ok] at h
  exact h.1

theorem covered_spec {data : HistoryData} (h : validateCoverage host policy data = .ok ()) :
    ∃ root start w, data.history.head? = some root ∧ root.kind = .admission ∧
      startCursors policy root = .ok start ∧ Scan host policy start data.history w ∧
      openOf data.history = [] ∧
      ∀ route current, w.cursors.get? route = some current →
        assessedCursor policy route = some current := by
  simp only [validateCoverage, scan, bind_eq_ok, exists_const, require_eq_ok] at h
  obtain ⟨w, ⟨_, -, hscan⟩, hopen, hassessed⟩ := h
  split at hscan
  · cases hscan
  · rename_i root hroot
    simp only [bind_eq_ok, exists_const, require_eq_ok, pure, Except.pure, Except.ok.injEq] at hscan
    obtain ⟨start, hstart, w', hfold, -, -, rfl⟩ := hscan
    have hall := scan_of_fold hfold
    refine ⟨root, start, w', hroot, scanRoot_kind hstart, scanRoot_spec hstart, hall, ?_, ?_⟩
    · rw [← hall.scanned.openOps, hopen]
    · intro route current hcurrent
      rw [assessCursors, checkAll_eq_ok] at hassessed
      exact assessRoute_spec (hassessed (route, current) (Dict.mem_of_get? hcurrent))

/-- A covered history is sound exactly when the intervals of each route meet at their boundaries. -/
theorem coverage_sound {data : HistoryData} (h : validateCoverage host policy data = .ok ()) :
    SoundHistory policy data.history ↔
      ∀ route ∈ policy.routes, MeetsAtBoundaries data.history route := by
  obtain ⟨root, start, w, hroot, hkind, hstart, hscan, hopen, hassessed⟩ := covered_spec h
  constructor
  · intro hsound route hroute
    obtain ⟨_, _, _, -, -, -, -, hobjects⟩ := hsound.entries route hroute
    exact (isChain_routeEntries (hscan.followed.objects route)).mp hobjects
  · intro hmeets
    refine ⟨⟨hscan.sequential, hscan.linked, fun x hx => ?_⟩, fun r hr => ?_, ?_, ?_, ?_⟩
    · obtain rfl : root = x := Option.some.inj (hroot.symm.trans hx)
      exact ⟨hkind, hscan.root root hx⟩
    · obtain ⟨before, after, heq⟩ := append_of_mem hr
      obtain ⟨w₁, w₂, -, hrow⟩ := hscan.rows before r after heq
      refine ⟨hrow.binding.1, hrow.binding.2, ?_⟩
      rcases hrow.kind with ⟨hk, -⟩ | ⟨hk, -⟩ | ⟨hk | hk, -⟩ <;> rw [hk] <;> decide
    · exact fun before r after heq hprepare => hscan.settled hopen heq hprepare
    · intro r hr interval hinterval
      obtain ⟨before, after, heq⟩ := append_of_mem hr
      obtain ⟨w₁, w₂, -, hrow⟩ := hscan.rows before r after heq
      rcases hrow.cursors with ⟨hnone, -⟩ | ⟨other, -, hother⟩
      · rw [hnone] at hinterval
        cases hinterval
      · exact (scanInterval_spec hother).1
    · intro route hroute
      obtain ⟨hadmission, hsome⟩ := admissionCursor_of_start hstart route
      obtain ⟨c, hc⟩ := Option.isSome_iff_exists.mp (hsome hroute)
      obtain ⟨reached, hreached, hleads⟩ := hscan.followed.leads route c hc
      refine ⟨root, c, reached, hroot, ?_, hassessed route reached hreached, hleads, ?_⟩
      · rw [← hadmission, hc]
      · exact (isChain_routeEntries (hscan.followed.objects route)).mpr (hmeets route hroute)

/-! An operation imports the one entry of a source. When a second operation imports the next, the
source may have moved from the object of the first. -/

theorem coverage_sound_import : ∃ data, readAfter (examplePolicy exampleStop) importCalls = .ok data ∧
    (SoundHistory (examplePolicy exampleStop) data.history ↔
      ∀ route ∈ (examplePolicy exampleStop).routes, MeetsAtBoundaries data.history route) := by
  have hfacts : (readAfter (examplePolicy exampleStop) importCalls).toOption.map (fun d =>
      decide (validateCoverage sourceHost (examplePolicy exampleStop) d = .ok ())) =
      some true := by decide +kernel
  cases hread : readAfter (examplePolicy exampleStop) importCalls with
  | error e =>
    rw [hread] at hfacts
    cases hfacts
  | ok data =>
    rw [hread] at hfacts
    exact ⟨data, rfl, coverage_sound (of_decide_eq_true (Option.some.inj hfacts))⟩

/-- Where the second entry of the source leads. -/
def secondStop : SourceCursor := ⟨"store", 2, "d2"⟩

/-- The first entry leads to the object `d1`. -/
def firstEntry : Json :=
  .obj [("digest", .str "d1"), ("new_oid", .str "d1"), ("old_oid", .str "o"),
    ("previous_digest", .str "d0"), ("sequence", .int 1)]

/-- The second entry starts at another object. -/
def secondEntry : Json :=
  .obj [("digest", .str "d2"), ("new_oid", .str "d2"), ("old_oid", .str "rewound"),
    ("previous_digest", .str "d1"), ("sequence", .int 2)]

/-- The interval of the second entry. -/
def secondInterval : Json :=
  .obj [("admission_id", .str "a"), ("binding", bindingJson exampleAdmission.binding),
    ("end", secondStop.json), ("entries", .arr [secondEntry]), ("producer_version", .str "1"),
    ("route", .str "reflog"), ("start", exampleStop.json)]

/-- What the reader answers after one import up to the first entry, and one up to the second. -/
def rewoundHistory : Except ProductionError HistoryData :=
  let first := (coverageMachine sourceHost (examplePolicy exampleStop) fun _ => "l").run {}
    (coverageCalls [
      .ledger (.append .prepare (exampleAppend "op" ⟨1, some "rootadmission1"⟩ [])),
      .importCursor (exampleAppend "op" ⟨2, some "opprepare2"⟩ []) exampleInterval])
  let second := (coverageMachine sourceHost (examplePolicy secondStop) fun _ => "l").run first [
      .ledger (.append .prepare (exampleAppend "op2" ⟨3, some "opsettle3"⟩ [])),
      .importCursor (exampleAppend "op2" ⟨4, some "op2prepare4"⟩ []) secondInterval]
  getLaneProductionHistory sourceHost second.native.toNative second.contracts second.receipts
    (examplePolicy secondStop).binding "a" 200 none

/-- The history is covered, and a rewind of its source is not in it. -/
theorem rewind_covered :
    ¬ ∀ (host : CoverageHost) (policy : CoveragePolicy) (data : HistoryData),
      validateCoverage host policy data = .ok () → SoundHistory policy data.history := by
  intro h
  have hfacts : rewoundHistory.toOption.map (fun d =>
      (decide (validateCoverage sourceHost (examplePolicy secondStop) d = .ok ()),
        routeEntries d.history "reflog")) = some (true, [firstEntry, secondEntry]) := by
    decide +kernel
  cases hread : rewoundHistory with
  | error e =>
    rw [hread] at hfacts
    cases hfacts
  | ok data =>
    rw [hread] at hfacts
    simp only [Except.toOption, Option.map_some, Option.some.injEq, Prod.mk.injEq] at hfacts
    obtain ⟨hcovered, hentries⟩ := hfacts
    have hsound := h sourceHost (examplePolicy secondStop) data (of_decide_eq_true hcovered)
    obtain ⟨_, _, _, -, -, -, -, hobjects⟩ := hsound.entries "reflog" (by simp [examplePolicy])
    rw [hentries, isChain_pair] at hobjects
    obtain ⟨oid, hnew, hold⟩ := hobjects
    have hnew' : firstEntry.get? "new_oid" = some (.str "d1") := by decide +kernel
    have hold' : secondEntry.get? "old_oid" = some (.str "rewound") := by decide +kernel
    rw [hnew'] at hnew
    rw [hold', ← hnew] at hold
    exact absurd hold (by decide +kernel)

end Workbay.Completion
