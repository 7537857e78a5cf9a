import Mathlib.Algebra.BigOperators.Group.List.Lemmas
import Mathlib.Algebra.Order.BigOperators.Group.List
import Workbay.Projection.Drain

/-!
# Entries that are queued again

An entry that goes back to the spool is read as itself, or as the event that is nested in it. Either
way it is allowed fewer attempts. Compaction keeps the last sync of each task.
-/

namespace Workbay.Projection

open List

theorem field_withAttempts (entry : Payload) (n : Nat) {key : String}
    (h : key ≠ replayAttemptsKey) : field (withAttempts entry n) key = field entry key := by
  unfold field withAttempts Dict.getD
  rw [Dict.get?_set_of_ne _ _ h]

theorem nested?_withAttempts (entry : Payload) (n : Nat) :
    nested? (withAttempts entry n) = nested? entry := by
  unfold nested?
  rw [field_withAttempts entry n (by decide)]

theorem entryAttempts_withAttempts (entry : Payload) (n : Nat) :
    entryAttempts (withAttempts entry n) = n := by
  unfold entryAttempts field withAttempts Dict.getD
  rw [Dict.get?_set_self]
  simp

theorem withoutAttempts_withAttempts (entry : Payload) (n : Nat) :
    withoutAttempts (withAttempts entry n) = withoutAttempts entry := by
  unfold withoutAttempts withAttempts Dict.pop
  induction entry with
  | nil => simp [Dict.set]
  | cons head rest ih =>
    obtain ⟨key, value⟩ := head
    by_cases hkey : key = replayAttemptsKey
    · simp [Dict.set, hkey]
    · rw [Dict.set, if_neg hkey, filter_cons, filter_cons, ih]

theorem dedupKey_congr {p : Platform} {a b : Payload} (h : withoutAttempts a = withoutAttempts b) :
    dedupKey p a = dedupKey p b := by
  unfold dedupKey
  rw [h]

/-! ## The attempts that are left -/

theorem nestedSumOf_eq (f : Payload → Nat) (entry : Payload) :
    nestedSumOf f entry = nestedSum f (field entry "payload") := by
  induction entry with
  | nil => simp [nestedSumOf, field, Dict.getD, nestedSum]
  | cons head rest ih =>
    obtain ⟨key, value⟩ := head
    by_cases hkey : key = "payload"
    · simp [nestedSumOf, field, Dict.getD, Dict.get?_cons, hkey]
    · simp only [nestedSumOf, field, Dict.getD, Dict.get?_cons, hkey] at ih ⊢
      exact ih

theorem entrySum_eq (f : Payload → Nat) (entry : Payload) :
    entrySum f entry = f entry + ((nested? entry).map (entrySum f)).getD 0 := by
  unfold entrySum
  rw [nestedSum, nestedSumOf_eq]
  unfold nested?
  cases field entry "payload" <;> simp [nestedSum]

mutual

theorem nestedSum_le {f : Payload → Nat} {c : Nat} (h : ∀ entry, f entry ≤ c) :
    (j : Json) → nestedSum f j ≤ c * nestedSum (fun _ => 1) j
  | .obj members => by
    have hmembers := nestedSumOf_le h members
    have hself := h members
    simp only [nestedSum, Nat.mul_add, Nat.mul_one]
    omega
  | .null | .bool _ | .int _ | .float .. | .str _ | .arr _ => by simp [nestedSum]

theorem nestedSumOf_le {f : Payload → Nat} {c : Nat} (h : ∀ entry, f entry ≤ c) :
    (members : List (String × Json)) → nestedSumOf f members ≤ c * nestedSumOf (fun _ => 1) members
  | [] => by simp [nestedSumOf]
  | (key, value) :: members => by
    simp only [nestedSumOf]
    split
    · exact nestedSum_le h value
    · exact nestedSumOf_le h members

end

section

variable {m : Nat}

theorem attemptsLeft_pos (entry : Payload) : 0 < attemptsLeft m entry := Nat.succ_pos _

theorem attemptsLeft_le (entry : Payload) : attemptsLeft m entry ≤ m + 1 :=
  Nat.succ_le_succ (Nat.sub_le _ _)

theorem entrySum_unwrap_le (entry : Payload) :
    entrySum (attemptsLeft m) (unwrap entry) ≤ entrySum (attemptsLeft m) entry := by
  rw [entrySum_eq (attemptsLeft m) entry]
  unfold unwrap
  cases hnested : nested? entry with
  | none => simp [entrySum_eq (attemptsLeft m) entry, hnested]
  | some inner => simp

theorem entrySum_withAttempts_lt {entry : Payload} (h : entryAttempts entry + 1 ≤ m) :
    entrySum (attemptsLeft m) (unwrap (withAttempts entry (entryAttempts entry + 1))) <
      entrySum (attemptsLeft m) entry := by
  have hpos := attemptsLeft_pos (m := m) entry
  rw [entrySum_eq (attemptsLeft m) entry]
  unfold unwrap
  rw [nested?_withAttempts]
  cases hnested : nested? entry with
  | some inner =>
    simp only [Option.getD_some, Option.map_some]
    omega
  | none =>
    have hself := entrySum_eq (attemptsLeft m) (withAttempts entry (entryAttempts entry + 1))
    rw [nested?_withAttempts, hnested] at hself
    simp only [Option.getD_none, Option.map_none, attemptsLeft, entryAttempts_withAttempts] at hself ⊢
    omega

theorem entrySum_pos (entry : Payload) : 0 < entrySum (attemptsLeft m) entry := by
  have hpos := attemptsLeft_pos (m := m) entry
  rw [entrySum_eq]
  omega

/-- The attempts that a list of entries is allowed. -/
def allowed (m : Nat) (entries : List Payload) : Nat :=
  (entries.map (entrySum (attemptsLeft m))).sum

@[simp] theorem allowed_nil : allowed m [] = 0 := rfl

@[simp] theorem allowed_cons (entry : Payload) (entries : List Payload) :
    allowed m (entry :: entries) = entrySum (attemptsLeft m) entry + allowed m entries := by
  simp [allowed]

@[simp] theorem allowed_append (xs ys : List Payload) :
    allowed m (xs ++ ys) = allowed m xs + allowed m ys := by
  simp [allowed]

theorem allowed_pos {entries : List Payload} (h : entries ≠ []) : 0 < allowed m entries := by
  cases entries with
  | nil => exact absurd rfl h
  | cons entry entries =>
    have hpos := entrySum_pos (m := m) entry
    rw [allowed_cons]
    omega

theorem allowed_sublist {xs ys : List Payload} (h : xs.Sublist ys) : allowed m xs ≤ allowed m ys := by
  induction h with
  | slnil => exact le_refl _
  | cons entry _ ih =>
    rw [allowed_cons]
    omega
  | cons_cons entry _ ih =>
    rw [allowed_cons, allowed_cons]
    omega

theorem allowed_map_unwrap_le (entries : List Payload) :
    allowed m (entries.map unwrap) ≤ allowed m entries := by
  induction entries with
  | nil => exact le_refl _
  | cons entry entries ih =>
    have hhead := entrySum_unwrap_le (m := m) entry
    rw [map_cons, allowed_cons, allowed_cons]
    omega

end

theorem latestIndexByTask_append (entries : List Payload) (entry : Payload) :
    latestIndexByTask (entries ++ [entry]) =
      noteLatest (latestIndexByTask entries) (entry, entries.length) := by
  unfold latestIndexByTask
  rw [zipIdx_append, foldl_append]
  simp

variable {entries : List Payload}

theorem exists_latest {i : Nat} {entry : Payload} {taskRef : String} (hi : entries[i]? = some entry)
    (hsync : isStateSync entry = true) (htask : taskOf entry = some taskRef) :
    ∃ j later, Dict.get? (latestIndexByTask entries).1 taskRef = some j ∧ i ≤ j ∧
      entries[j]? = some later ∧ isStateSync later = true ∧ taskOf later = some taskRef := by
  induction entries using List.reverseRecOn with
  | nil => simp at hi
  | append_singleton entries last ih =>
    rw [latestIndexByTask_append]
    have hlt : i < (entries ++ [last]).length := (List.getElem?_eq_some_iff.mp hi).1
    rw [List.length_append, List.length_singleton] at hlt
    have hlast : (entries ++ [last])[entries.length]? = some last := by simp
    by_cases hnew : isStateSync last = true ∧ taskOf last = some taskRef
    · refine ⟨entries.length, last, ?_, by omega, hlast, hnew.1, hnew.2⟩
      simp [noteLatest, hnew.1, hnew.2]
    · have hne : i ≠ entries.length := by
        intro heq
        rw [heq, hlast] at hi
        cases hi
        exact hnew ⟨hsync, htask⟩
      have hi' : entries[i]? = some entry := by
        rw [List.getElem?_append_left (by omega)] at hi
        exact hi
      obtain ⟨j, later, hget, hle, hj, hlater⟩ := ih hi'
      have hjlt : j < entries.length := (List.getElem?_eq_some_iff.mp hj).1
      refine ⟨j, later, ?_, hle, ?_, hlater⟩
      · unfold noteLatest
        split
        case h_1 other hs ht =>
          have hother : taskRef ≠ other := fun heq => hnew ⟨hs, by rw [heq]; exact ht⟩
          rw [Dict.get?_set_of_ne _ _ hother]
          exact hget
        case h_2 => exact hget
      · rw [List.getElem?_append_left hjlt]
        exact hj

theorem mem_compactStateSync_of {i : Nat} {entry : Payload} (hi : entries[i]? = some entry)
    (h : isStateSync entry = false ∨ i ∈ (latestIndexByTask entries).1.map Prod.snd) :
    entry ∈ compactStateSync entries := by
  unfold compactStateSync
  refine mem_map.mpr ⟨(entry, i), mem_filter.mpr ⟨?_, ?_⟩, rfl⟩
  · rw [mem_zipIdx_iff_getElem?]
    exact hi
  · rcases h with h | h
    · simp [h]
    · simp [h]

theorem compactStateSync_sublist (entries : List Payload) :
    (compactStateSync entries).Sublist entries := by
  have h := (filter_sublist (p := fun entry : Payload × Nat =>
    !isStateSync entry.1 || entry.2 ∈ (latestIndexByTask entries).1.map Prod.snd)
    (l := entries.zipIdx)).map Prod.fst
  rw [zipIdx_map_fst] at h
  exact h

/-- An entry that compaction drops is replaced by a later sync of its task, unless it is a sync that
names no task. -/
theorem kept_or_superseded {entry : Payload} (hmem : entry ∈ entries)
    (hnamed : isStateSync entry = true → (taskOf entry).isSome = true) :
    entry ∈ compactStateSync entries ∨
      ∃ later ∈ compactStateSync entries, SupersededBy entries entry later := by
  obtain ⟨i, hi⟩ := List.mem_iff_getElem?.mp hmem
  by_cases hsync : isStateSync entry = true
  · obtain ⟨taskRef, htask⟩ := Option.isSome_iff_exists.mp (hnamed hsync)
    obtain ⟨j, later, hget, hle, hj, hlater, hsame⟩ := exists_latest hi hsync htask
    have hkept : j ∈ (latestIndexByTask entries).1.map Prod.snd :=
      List.mem_map.mpr ⟨(taskRef, j), Dict.mem_of_get? hget, rfl⟩
    rcases Nat.lt_or_eq_of_le hle with hlt | heq
    · refine .inr ⟨later, mem_compactStateSync_of hj (.inr hkept), ?_⟩
      have hilt : i < entries.length := (List.getElem?_eq_some_iff.mp hi).1
      have hentry : entries[i] = entry := (List.getElem?_eq_some_iff.mp hi).2
      refine ⟨entries.take i, entry, entries.drop (i + 1), ?_, ?_, rfl, hsync, hlater, ?_, ?_⟩
      · rw [← hentry, ← List.drop_eq_getElem_cons hilt, List.take_append_drop]
      · refine List.mem_iff_getElem?.mpr ⟨j - (i + 1), ?_⟩
        rw [List.getElem?_drop, Nat.add_sub_cancel' hlt]
        exact hj
      · rw [htask]
        rfl
      · rw [htask, hsame]
    · subst heq
      exact .inl (mem_compactStateSync_of hi (.inr hkept))
  · exact .inl (mem_compactStateSync_of hi (.inl (by simpa using hsync)))

end Workbay.Projection

/-!
## Passes over the spool

A turn of a pass skips an entry, is done with it or queues it again. The attempts that queued entries
are allowed and the entries that were replayed add up to no more than the attempts that were allowed
before.
-/

namespace Workbay.Projection

open List

section

variable {p : Platform} {backend : Backend} {limits : Limits}

theorem archiveAnswer_ne_pending (taskRef : String) (run : CompletedProcess) :
    archiveAnswer p taskRef run ≠ .error .pending := by
  unfold archiveAnswer
  repeat' split
  all_goals simp

theorem rowRevision_ne_pending (payload : Payload) (active : Json) :
    rowRevision payload active ≠ .error .pending := by
  unfold rowRevision
  repeat' split
  all_goals simp

theorem map_ne_pending {α β : Type} {read : Except ReplayStatus α} (f : α → β)
    (h : read ≠ .error .pending) : read.map f ≠ .error .pending := by
  cases read with
  | ok _ => simp [Except.map]
  | error status => simpa [Except.map] using h

theorem readStateSyncRevision_ne_pending {run : Command → CompletedProcess}
    (hreached : ∀ command, unreachable (run command).returncode = false) (payload : Payload) :
    readStateSyncRevision p run payload ≠ .error .pending := by
  unfold readStateSyncRevision
  rw [hreached]
  repeat' split
  case h_2 => exact map_ne_pending _ (archiveAnswer_ne_pending _ _)
  case h_3 => exact map_ne_pending _ (rowRevision_ne_pending _ _)
  all_goals simp_all

theorem writeStatus_ne_pending (payload : Payload) {proc : CompletedProcess}
    (h : unreachable proc.returncode = false) : writeStatus p payload proc ≠ .pending := by
  unfold writeStatus
  rw [h]
  repeat' split
  all_goals simp_all

theorem replayEntry_ne_pending {n : Nat}
    (hreached : ∀ command, unreachable (backend.run n command).returncode = false)
    (hparked : ∀ entry, backend.park n entry = true) (entry : Payload) :
    replayEntry p backend n entry ≠ .pending := by
  have hwrite : ∀ revision status,
      replayWrite p (backend.run n) entry revision = some status → status ≠ .pending := by
    intro revision status h
    obtain ⟨command, -, rfl⟩ := Option.map_eq_some_iff.mp h
    exact writeStatus_ne_pending entry (hreached command)
  unfold replayEntry
  split
  · have hread := readStateSyncRevision_ne_pending (p := p) hreached entry
    split
    case h_1 status heq =>
      intro hpending
      rw [heq, hpending] at hread
      exact hread rfl
    case h_2 revision heq =>
      cases h : replayWrite p (backend.run n) entry revision with
      | none => simp
      | some status => exact hwrite revision status h
  · split
    case h_1 status heq => exact hwrite none status heq
    case h_2 => simp [hparked]

/-- What a pass makes of an entry that it looks at. -/
inductive TurnsTo (p : Platform) (maxAttempts : Nat) (pass : Pass) (entry : Payload) : Pass → Prop
  | skipped (hseen : dedupKey p entry ∈ pass.seen) : TurnsTo p maxAttempts pass entry (pass.skip entry)
  | settled {status : EntryStatus} (hstatus : status ≠ .skippedDuplicate) :
      TurnsTo p maxAttempts pass entry (pass.settle p entry status)
  | requeued (hle : entryAttempts entry + 1 ≤ maxAttempts) :
      TurnsTo p maxAttempts pass entry (pass.requeue entry (entryAttempts entry + 1))

/-- No replay of the backend stops a pass. -/
structure Backend.Answers (backend : Backend) : Prop where
  reached : ∀ n command, unreachable (backend.run n command).returncode = false
  parked : ∀ n entry, backend.park n entry = true

theorem replayVerdict_cases (p : Platform) (limits : Limits) (h : backend.Answers) (n : Nat) (entry : Payload) :
    (∃ status, replayVerdict p backend limits n entry = .done status ∧ status ≠ .skippedDuplicate) ∨
      (replayVerdict p backend limits n entry = .again (entryAttempts entry + 1) ∧
        entryAttempts entry + 1 ≤ limits.maxAttempts) := by
  have hpending := replayEntry_ne_pending (p := p) (h.reached n) (h.parked n) entry
  unfold replayVerdict
  cases hstatus : replayEntry p backend n entry with
  | pending => exact absurd hstatus hpending
  | synced | unsupported | tombstonedArchived => exact .inl ⟨_, rfl, by simp⟩
  | spooled =>
    by_cases hlt : limits.maxAttempts < entryAttempts entry + 1
    · refine .inl ⟨.deadLettered, ?_, by simp⟩
      simp [hlt, h.parked]
    · exact .inr ⟨by simp [hlt], by omega⟩

theorem replayEntries_cons (p : Platform) (limits : Limits) (h : backend.Answers) (entry : Payload)
    (rest : List Payload) (pass : Pass) :
    (∃ reason, exhaustion limits pass = some reason ∧
      replayEntries p backend limits (entry :: rest) pass =
        (pass.keep (entry :: rest) reason, .exhausted)) ∨
      (exhaustion limits pass = none ∧ ∃ pass', TurnsTo p limits.maxAttempts pass entry pass' ∧
        replayEntries p backend limits (entry :: rest) pass =
          replayEntries p backend limits rest pass') := by
  rw [replayEntries]
  cases hstop : exhaustion limits pass with
  | some reason => exact .inl ⟨reason, rfl, rfl⟩
  | none =>
    refine .inr ⟨rfl, ?_⟩
    by_cases hseen : dedupKey p entry ∈ pass.seen
    · exact ⟨_, .skipped hseen, by simp [hseen]⟩
    · rcases replayVerdict_cases p limits h pass.replays entry with
        ⟨status, hverdict, hne⟩ | ⟨hverdict, hle⟩
      · exact ⟨_, .settled hne, by simp [hseen, hverdict]⟩
      · exact ⟨_, .requeued hle, by simp [hseen, hverdict]⟩

/-- The attempts that the entries of a pass are allowed when they are read again. -/
def Pass.allowed (m : Nat) (pass : Pass) : Nat := Projection.allowed m (pass.remaining.map unwrap)

/-- Every key that is seen is the key of an entry that was replayed. -/
def Pass.Backed (p : Platform) (pass : Pass) : Prop :=
  ∀ key ∈ pass.seen, ∃ entry ∈ pass.replayed, dedupKey p entry = key

/-- An entry was replayed, under its key, or is queued again. -/
def Pass.Handled (p : Platform) (pass : Pass) (entry : Payload) : Prop :=
  (∃ other ∈ pass.replayed, dedupKey p other = dedupKey p entry) ∨
    ∃ queued ∈ pass.remaining, withoutAttempts queued = withoutAttempts entry

/-- What was replayed or queued again in a pass stays so. -/
structure Pass.Extends (pass pass' : Pass) : Prop where
  replayed : ∀ entry ∈ pass.replayed, entry ∈ pass'.replayed
  remaining : ∀ entry ∈ pass.remaining, entry ∈ pass'.remaining

theorem Pass.Extends.refl (pass : Pass) : pass.Extends pass := ⟨fun _ h => h, fun _ h => h⟩

theorem Pass.Extends.trans {a b c : Pass} (hab : a.Extends b) (hbc : b.Extends c) : a.Extends c :=
  ⟨fun e h => hbc.replayed e (hab.replayed e h), fun e h => hbc.remaining e (hab.remaining e h)⟩

theorem Pass.Handled.mono {pass pass' : Pass} {entry : Payload} (h : pass.Handled p entry)
    (hext : pass.Extends pass') : pass'.Handled p entry := by
  rcases h with ⟨other, hmem, hkey⟩ | ⟨queued, hmem, hsame⟩
  · exact .inl ⟨other, hext.replayed other hmem, hkey⟩
  · exact .inr ⟨queued, hext.remaining queued hmem, hsame⟩

@[simp] theorem Pass.replayed_skip (pass : Pass) (entry : Payload) :
    (pass.skip entry).replayed = pass.replayed := by
  simp [Pass.replayed, Pass.skip]

@[simp] theorem Pass.replayed_settle (pass : Pass) (entry : Payload) {status : EntryStatus}
    (h : status ≠ .skippedDuplicate) :
    (pass.settle p entry status).replayed = pass.replayed ++ [entry] := by
  simp [Pass.replayed, Pass.settle, Pass.charge, h]

@[simp] theorem Pass.replayed_requeue (pass : Pass) (entry : Payload) (attempts : Nat) :
    (pass.requeue entry attempts).replayed = pass.replayed ++ [entry] := by
  simp [Pass.replayed, Pass.requeue, Pass.charge]

section

variable {m : Nat} {pass pass' : Pass} {entry : Payload}

section

variable (h : TurnsTo p m pass entry pass')

include h

theorem TurnsTo.allowed_le : pass'.allowed m + pass'.replayed.length ≤
      pass.allowed m + entrySum (attemptsLeft m) entry + pass.replayed.length := by
  have hpos := entrySum_pos (m := m) entry
  cases h with
  | skipped =>
    rw [Pass.replayed_skip]
    simp only [Pass.allowed, Pass.skip]
    omega
  | settled hstatus =>
    rw [Pass.replayed_settle _ _ hstatus, length_append, length_singleton]
    simp only [Pass.allowed, Pass.settle, Pass.charge]
    omega
  | requeued hle =>
    have hlt := entrySum_withAttempts_lt hle
    rw [Pass.replayed_requeue, length_append, length_singleton]
    simp only [Pass.allowed, Pass.requeue, Pass.charge, map_append, map_cons, map_nil,
      allowed_append, allowed_cons, allowed_nil]
    omega

theorem TurnsTo.extends : pass.Extends pass' := by
  cases h with
  | skipped => exact ⟨fun e h => by simpa using h, fun e h => h⟩
  | settled hstatus => exact ⟨fun e h => by simp [hstatus, h], fun e h => h⟩
  | requeued => exact ⟨fun e h => by simp [h], fun e h => by simp [Pass.requeue, Pass.charge, h]⟩

theorem TurnsTo.backed (hback : pass.Backed p) : pass'.Backed p := by
  have hold : ∀ key ∈ pass.seen, ∃ e ∈ pass'.replayed, dedupKey p e = key := by
    intro key hkey
    obtain ⟨e, hmem, heq⟩ := hback key hkey
    exact ⟨e, h.extends.replayed e hmem, heq⟩
  cases h with
  | skipped => exact hold
  | requeued => exact hold
  | settled hstatus =>
    intro key hkey
    rcases mem_cons.mp hkey with rfl | hkey
    · exact ⟨entry, by simp [hstatus], rfl⟩
    · exact hold key hkey

theorem TurnsTo.handled (hback : pass.Backed p) : pass'.Handled p entry := by
  cases h with
  | skipped hseen =>
    obtain ⟨e, hmem, heq⟩ := hback _ hseen
    exact .inl ⟨e, by simpa using hmem, heq⟩
  | settled hstatus => exact .inl ⟨entry, by simp [hstatus], rfl⟩
  | requeued => exact .inl ⟨entry, by simp, rfl⟩

theorem TurnsTo.origin {queued : Payload} (hmem : queued ∈ pass'.remaining) :
    queued ∈ pass.remaining ∨ withoutAttempts queued = withoutAttempts entry := by
  cases h with
  | skipped => exact .inl hmem
  | settled => exact .inl hmem
  | requeued =>
    simp only [Pass.requeue, Pass.charge, mem_append, mem_singleton] at hmem
    rcases hmem with hmem | rfl
    · exact .inl hmem
    · exact .inr (withoutAttempts_withAttempts _ _)

end

end

section

variable (p : Platform) (limits : Limits) (h : backend.Answers)
include h

section

variable (entries : List Payload)

include entries

theorem replayEntries_stop (pass : Pass) :
    (replayEntries p backend limits entries pass).2 ≠ .aborted := by
  induction entries generalizing pass with
  | nil => simp [replayEntries]
  | cons entry rest ih =>
    rcases replayEntries_cons p limits h entry rest pass with
      ⟨reason, -, heq⟩ | ⟨-, pass', -, heq⟩
    · simp [heq]
    · rw [heq]
      exact ih pass'

theorem replayEntries_allowed_le (pass : Pass) :
    (replayEntries p backend limits entries pass).1.allowed limits.maxAttempts +
        (replayEntries p backend limits entries pass).1.replayed.length ≤
      pass.allowed limits.maxAttempts + allowed limits.maxAttempts entries + pass.replayed.length := by
  induction entries generalizing pass with
  | nil => simp [replayEntries]
  | cons entry rest ih =>
    rcases replayEntries_cons p limits h entry rest pass with
      ⟨reason, -, heq⟩ | ⟨-, pass', hturn, heq⟩
    · have hrest := allowed_map_unwrap_le (m := limits.maxAttempts) (entry :: rest)
      rw [heq]
      simp only [Pass.allowed, Pass.keep, Pass.replayed, map_append, allowed_append]
      omega
    · have hturn := hturn.allowed_le
      have hrest := ih pass'
      rw [heq, allowed_cons]
      omega

theorem replayEntries_extends (pass : Pass) :
    pass.Extends (replayEntries p backend limits entries pass).1 := by
  induction entries generalizing pass with
  | nil => exact Pass.Extends.refl pass
  | cons entry rest ih =>
    rcases replayEntries_cons p limits h entry rest pass with
      ⟨reason, -, heq⟩ | ⟨-, pass', hturn, heq⟩
    · rw [heq]
      exact ⟨fun e he => he, fun e he => by simp [Pass.keep, he]⟩
    · rw [heq]
      exact hturn.extends.trans (ih pass')

theorem replayEntries_backed {pass : Pass} (hback : pass.Backed p) :
    (replayEntries p backend limits entries pass).1.Backed p := by
  induction entries generalizing pass with
  | nil => exact hback
  | cons entry rest ih =>
    rcases replayEntries_cons p limits h entry rest pass with
      ⟨reason, -, heq⟩ | ⟨-, pass', hturn, heq⟩
    · rw [heq]
      exact hback
    · rw [heq]
      exact ih (hturn.backed hback)

theorem replayEntries_handled {pass : Pass} (hback : pass.Backed p) :
    ∀ entry ∈ entries, (replayEntries p backend limits entries pass).1.Handled p entry := by
  induction entries generalizing pass with
  | nil => simp
  | cons entry rest ih =>
    rcases replayEntries_cons p limits h entry rest pass with
      ⟨reason, -, heq⟩ | ⟨-, pass', hturn, heq⟩
    · intro e he
      rw [heq]
      exact .inr ⟨e, by simp only [Pass.keep]; exact mem_append_right _ he, rfl⟩
    · intro e he
      rw [heq]
      rcases mem_cons.mp he with rfl | he
      · exact (hturn.handled hback).mono (replayEntries_extends p limits h rest pass')
      · exact ih (hturn.backed hback) e he

theorem replayEntries_origin {pass : Pass} {queued : Payload}
    (hmem : queued ∈ (replayEntries p backend limits entries pass).1.remaining) :
    queued ∈ pass.remaining ∨
      ∃ entry ∈ entries, withoutAttempts queued = withoutAttempts entry := by
  induction entries generalizing pass with
  | nil => exact .inl hmem
  | cons entry rest ih =>
    rcases replayEntries_cons p limits h entry rest pass with
      ⟨reason, -, heq⟩ | ⟨-, pass', hturn, heq⟩
    · rw [heq] at hmem
      rcases mem_append.mp hmem with hmem | hmem
      · exact .inl hmem
      · exact .inr ⟨queued, hmem, rfl⟩
    · rw [heq] at hmem
      rcases ih hmem with hmem | ⟨e, he, hsame⟩
      · rcases hturn.origin hmem with hmem | hsame
        · exact .inl hmem
        · exact .inr ⟨entry, mem_cons_self, hsame⟩
      · exact .inr ⟨e, mem_cons_of_mem _ he, hsame⟩

end

theorem replayEntries_replays {entries : List Payload} (hne : entries ≠ []) {pass : Pass}
    (hstart : exhaustion limits pass = none) (hseen : pass.seen = []) :
    (replayEntries p backend limits entries pass).1.replayed ≠ [] := by
  cases entries with
  | nil => exact absurd rfl hne
  | cons entry rest =>
    rcases replayEntries_cons p limits h entry rest pass with
      ⟨reason, hreason, -⟩ | ⟨-, pass', hturn, heq⟩
    · rw [hstart] at hreason
      cases hreason
    · have hmem : entry ∈ pass'.replayed := by
        cases hturn with
        | skipped hmem =>
          rw [hseen] at hmem
          cases hmem
        | settled hstatus => simp [hstatus]
        | requeued => simp
      rw [heq]
      exact ne_nil_of_mem ((replayEntries_extends p limits h rest pass').replayed entry hmem)

end

end

end Workbay.Projection
