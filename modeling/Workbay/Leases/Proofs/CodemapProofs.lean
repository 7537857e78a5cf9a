import Workbay.Leases.Codemap
import Workbay.Effects.Proofs.SafeProofs

/-!
# Reindexing of the code map

The generations that are granted increase, one process at most has the lease, a late release does
nothing, and a commit waits in the queue behind those that were requested before it. A commit that
is requested again keeps its place.
-/

namespace Workbay.Codemap

open Effects List

variable {w w' : CodemapWorld} {sha : String}

theorem granted_append (xs ys : List CodemapEvent) : granted (xs ++ ys) = granted xs ++ granted ys :=
  filterMap_append

theorem requestedShas_append (xs ys : List CodemapEvent) :
    requestedShas (xs ++ ys) = requestedShas xs ++ requestedShas ys :=
  filterMap_append

variable (events : List CodemapEvent)

theorem inForce_granted (pid generation : Nat) :
    inForce (events ++ [.granted pid generation]) = some generation := by
  rw [inForce, foldl_append]
  rfl

theorem inForce_released (generation : Int) (shas : List String) :
    inForce (events ++ [.released generation shas]) = none := by
  rw [inForce, foldl_append]
  rfl

theorem inForce_requested (sha : String) (appended : Bool) :
    inForce (events ++ [.requested sha appended]) = inForce events := by
  rw [inForce, foldl_append]
  rfl

theorem consumed_append (xs ys : List CodemapEvent) :
    Consumed sha (xs ++ ys) ↔ Consumed sha xs ∨ Consumed sha ys := by
  constructor
  · rintro ⟨generation, shas, hmem, hsha⟩
    rcases mem_append.mp hmem with hmem | hmem
    · exact .inl ⟨generation, shas, hmem, hsha⟩
    · exact .inr ⟨generation, shas, hmem, hsha⟩
  · rintro (⟨generation, shas, hmem, hsha⟩ | ⟨generation, shas, hmem, hsha⟩)
    · exact ⟨generation, shas, mem_append_left _ hmem, hsha⟩
    · exact ⟨generation, shas, mem_append_right _ hmem, hsha⟩

theorem split_concat {α : Type} {xs before after : List α} {x y : α}
    (h : xs ++ [y] = before ++ x :: after) :
    (after = [] ∧ before = xs ∧ x = y) ∨ ∃ rest, after = rest ++ [y] ∧ xs = before ++ x :: rest := by
  rcases eq_nil_or_concat after with rfl | ⟨rest, z, rfl⟩
  · obtain ⟨hbefore, hx⟩ := append_inj' h rfl
    exact .inl ⟨rfl, hbefore.symm, (singleton_inj.mp hx).symm⟩
  · rw [concat_eq_append, ← cons_append, ← append_assoc] at h
    obtain ⟨hxs, hz⟩ := append_inj' h rfl
    obtain rfl := singleton_inj.mp hz
    exact .inr ⟨rest, concat_eq_append, hxs⟩

/-- The queue can be parsed, has no commit twice and keeps to the bound. -/
structure QueueInv (w : CodemapWorld) : Prop where
  parsed : ∀ row, w.row = some row → ∃ queue, row.requestedShas = some queue
  nodup : w.queue.Nodup
  bounded : w.queue.length ≤ maxRequestedShas

theorem queue_eq {row : LeaseRow} {queue : List String} (hrow : w.row = some row)
    (hqueue : row.requestedShas = some queue) : w.queue = queue := by
  rw [CodemapWorld.queue, hrow, Option.bind_some, hqueue, Option.getD_some]

theorem queue_grant (w : CodemapWorld) (d : Descriptor) (now : Rat) :
    (grantLeaseRow w d now).queue = w.queue := by
  rw [CodemapWorld.queue, CodemapWorld.queue, grantLeaseRow]
  cases w.row <;> rfl

theorem queue_append (w : CodemapWorld) (sha : String) :
    (appendSha w sha).queue = Fifo.push maxRequestedShas w.queue sha := by
  rw [appendSha, CodemapWorld.queue, CodemapWorld.queue]
  cases w.row with
  | none => exact (Fifo.push_nil (by decide) sha).symm
  | some row => simp only [Option.bind_some, Option.getD_some]

theorem events_append (w : CodemapWorld) (sha : String) :
    (appendSha w sha).events = w.events ++ [.requested sha (sha ∉ w.queue)] := by
  rw [appendSha, CodemapWorld.queue]
  cases w.row with
  | none => simp
  | some row => rfl

theorem releaseRow_cases (w : CodemapWorld) (generation : Int) (shas : List String) :
    releaseRow w generation shas = (false, w) ∨
      ∃ row queue row', w.row = some row ∧ (row.generation : Int) = generation ∧
        row.requestedShas = some queue ∧
        releaseRow w generation shas =
          (true, { w with row := row', events := w.events ++ [.released generation shas] }) ∧
        (row'.bind LeaseRow.requestedShas).getD [] = queue.filter (· ∉ shas) ∧
        ∀ r, row' = some r → r.generation = 0 ∧ ∃ queue', r.requestedShas = some queue' := by
  rw [releaseRow]
  cases hrow : w.row with
  | none => exact .inl rfl
  | some row =>
    by_cases hgeneration : (row.generation : Int) ≠ generation
    · exact .inl (if_pos hgeneration)
    · simp only [if_neg hgeneration]
      cases hqueue : row.requestedShas with
      | none => exact .inl rfl
      | some queue =>
        refine .inr ⟨row, queue, ?_⟩
        by_cases hempty : queue.filter (· ∉ shas) = []
        · refine ⟨none, rfl, not_not.mp hgeneration, hqueue, ?_, hempty.symm, fun r hr => ?_⟩
          · simp only [if_pos hempty]
          · cases hr
        · refine ⟨some (placeholder row (queue.filter (· ∉ shas))), rfl, not_not.mp hgeneration,
            hqueue, ?_, rfl, fun r hr => ?_⟩
          · simp only [if_neg hempty]
          · obtain rfl := Option.some.inj hr
            exact ⟨rfl, _, rfl⟩

/-! ## What the database records -/

/-- A commit in the queue was put there by a request and not consumed since. -/
def Placed (w : CodemapWorld) : Prop := ∀ sha ∈ w.queue, Pending sha w.events

/-- Unless it was consumed, or too many others were requested, a commit waits behind the others. -/
def Waiting (w : CodemapWorld) : Prop :=
  ∀ sha before after, w.events = before ++ .requested sha true :: after → ¬ Consumed sha after →
    (Fifo.others sha (requestedShas after)).length < maxRequestedShas →
    Fifo.Behind w.queue sha (requestedShas after)

/-- The row, the counter and the history agree. -/
structure Recorded (w : CodemapWorld) : Prop where
  increasing : (granted w.events).Pairwise (· < ·)
  counted : ∀ g ∈ granted w.events, 0 < g ∧ g ≤ w.lastGeneration.getD 0
  current : ∀ g, inForce w.events = some g → g ∈ granted w.events
  row : ∀ row, w.row = some row → row.generation = (inForce w.events).getD 0
  standing : w.row = none → inForce w.events = none
  queue : QueueInv w
  placed : Placed w
  waiting : Waiting w

theorem Pending.concat {events : List CodemapEvent} (h : Pending sha events) {e : CodemapEvent}
    (he : ¬ Consumed sha [e]) : Pending sha (events ++ [e]) := by
  obtain ⟨before, after, rfl, hnot⟩ := h
  refine ⟨before, after ++ [e], ?_, fun hconsumed => ?_⟩
  · rw [append_assoc, cons_append]
  · rcases (consumed_append _ _).mp hconsumed with hconsumed | hconsumed
    · exact hnot hconsumed
    · exact he hconsumed

theorem Waiting.concat (h : Waiting w) {e : CodemapEvent} (hevents : w'.events = w.events ++ [e])
    (hrequest : requestedShas [e] = [])
    (hqueue : ∀ sha xs, ¬ Consumed sha [e] → Fifo.Behind w.queue sha xs →
      Fifo.Behind w'.queue sha xs) : Waiting w' := by
  intro sha before after hsplit hnot hfew
  rw [hevents] at hsplit
  rcases split_concat hsplit with ⟨-, -, rfl⟩ | ⟨rest, rfl, hold⟩
  · cases hrequest
  · rw [consumed_append, not_or] at hnot
    rw [requestedShas_append, hrequest, append_nil] at hfew ⊢
    exact hqueue sha _ hnot.2 (h sha before rest hold hnot.1 hfew)

theorem QueueInv.boot : QueueInv {} where
  parsed row hrow := by cases hrow
  nodup := nodup_nil
  bounded := Nat.zero_le _

theorem Recorded.boot : Recorded {} where
  increasing := List.Pairwise.nil
  counted g hg := absurd hg not_mem_nil
  current g hg := by cases hg
  row row hrow := by cases hrow
  standing _ := rfl
  queue := .boot
  placed sha hsha := absurd hsha not_mem_nil
  waiting sha before after h := by
    have hlength := congrArg List.length h
    simp at hlength

theorem Recorded.of_eq (h : Recorded w) (hrow : w'.row = w.row)
    (hlast : w'.lastGeneration = w.lastGeneration) (hevents : w'.events = w.events) :
    Recorded w' := by
  have hqueue : w'.queue = w.queue := by rw [CodemapWorld.queue, hrow, CodemapWorld.queue]
  refine ⟨?_, ?_, ?_, ?_, ?_, ⟨?_, ?_, ?_⟩, ?_, ?_⟩
  · rw [hevents]
    exact h.increasing
  · rw [hevents, hlast]
    exact h.counted
  · rw [hevents]
    exact h.current
  · rw [hevents, hrow]
    exact h.row
  · rw [hevents, hrow]
    exact h.standing
  · rw [hrow]
    exact h.queue.parsed
  · rw [hqueue]
    exact h.queue.nodup
  · rw [hqueue]
    exact h.queue.bounded
  · rw [Placed, hevents, hqueue]
    exact h.placed
  · rw [Waiting, hevents, hqueue]
    exact h.waiting

theorem not_consumed_granted (pid generation : Nat) : ¬ Consumed sha [.granted pid generation] := by
  rintro ⟨_, _, hmem, -⟩
  cases mem_singleton.mp hmem

theorem not_consumed_requested (sha' : String) (appended : Bool) :
    ¬ Consumed sha [.requested sha' appended] := by
  rintro ⟨_, _, hmem, -⟩
  cases mem_singleton.mp hmem

theorem Recorded.grant (h : Recorded w) (d : Descriptor) (now : Rat) :
    Recorded (grantLeaseRow w d now) := by
  have hevents : (grantLeaseRow w d now).events =
      w.events ++ [.granted d.pid (nextGeneration w)] := rfl
  have hgranted : granted (grantLeaseRow w d now).events =
      granted w.events ++ [nextGeneration w] := by
    rw [hevents, granted_append]
    rfl
  have hforce : inForce (grantLeaseRow w d now).events = some (nextGeneration w) := by
    rw [hevents, inForce_granted]
  have hqueue := queue_grant w d now
  have hnew : ∀ g ∈ granted w.events, g < nextGeneration w := fun g hg =>
    Nat.lt_succ_of_le (h.counted g hg).2
  refine ⟨?_, fun g hg => ?_, fun g hg => ?_, fun row hrow => ?_, fun hrow => ?_,
    ⟨fun row hrow => ?_, ?_, ?_⟩,
    fun sha hsha => (h.placed sha (hqueue ▸ hsha)).concat (not_consumed_granted _ _),
    h.waiting.concat hevents rfl fun sha xs _ hbehind => by rw [hqueue]; exact hbehind⟩
  · rw [hgranted]
    exact pairwise_append.mpr ⟨h.increasing, pairwise_singleton _ _,
      fun a ha b hb => mem_singleton.mp hb ▸ hnew a ha⟩
  · rw [hgranted] at hg
    rcases mem_append.mp hg with hg | hg
    · exact ⟨(h.counted g hg).1, Nat.le_of_lt (hnew g hg)⟩
    · obtain rfl := mem_singleton.mp hg
      exact ⟨Nat.succ_pos _, Nat.le_refl _⟩
  · rw [hforce] at hg
    obtain rfl := Option.some.inj hg
    rw [hgranted]
    exact mem_append_right _ (mem_singleton_self _)
  · rw [hforce]
    obtain rfl := Option.some.inj hrow
    rfl
  · cases hrow
  · obtain rfl := Option.some.inj hrow
    cases hold : w.row with
    | none => exact ⟨[], rfl⟩
    | some row => exact h.queue.parsed row hold
  · rw [hqueue]
    exact h.queue.nodup
  · rw [hqueue]
    exact h.queue.bounded

theorem Recorded.release (h : Recorded w) (generation : Int) (shas : List String) :
    Recorded (releaseRow w generation shas).2 := by
  rcases releaseRow_cases w generation shas with heq |
    ⟨row, queue, row', hrow, -, hparsed, heq, hqueue', hplaceholder⟩
  · rw [heq]
    exact h
  rw [heq]
  have hqueue := queue_eq hrow hparsed
  rw [← hqueue] at hqueue'
  have hgranted : granted (w.events ++ [.released generation shas]) = granted w.events := by
    rw [granted_append]
    exact append_nil _
  have hconsumed : ∀ {sha}, sha ∈ shas → Consumed sha [.released generation shas] :=
    fun hsha => ⟨_, _, mem_singleton_self _, hsha⟩
  refine ⟨by rw [hgranted]; exact h.increasing, by rw [hgranted]; exact h.counted,
    fun g hg => ?_, fun r hr => ?_, fun _ => inForce_released _ _ _,
    ⟨fun r hr => (hplaceholder r hr).2, ?_, ?_⟩, fun sha hsha => ?_, h.waiting.concat rfl rfl fun sha xs hnot hbehind => ?_⟩
  · rw [inForce_released] at hg
    cases hg
  · rw [inForce_released]
    exact (hplaceholder r hr).1
  · show ((row'.bind LeaseRow.requestedShas).getD []).Nodup
    rw [hqueue']
    exact h.queue.nodup.filter _
  · show ((row'.bind LeaseRow.requestedShas).getD []).length ≤ maxRequestedShas
    rw [hqueue']
    exact Nat.le_trans (length_filter_le _ _) h.queue.bounded
  · have hsha : sha ∈ (row'.bind LeaseRow.requestedShas).getD [] := hsha
    rw [hqueue', mem_filter, decide_eq_true_eq] at hsha
    refine (h.placed sha hsha.1).concat ?_
    rintro ⟨_, _, hmem, hlisted⟩
    obtain ⟨-, rfl⟩ := CodemapEvent.released.inj (mem_singleton.mp hmem)
    exact hsha.2 hlisted
  · show Fifo.Behind ((row'.bind LeaseRow.requestedShas).getD []) sha xs
    rw [hqueue']
    exact hbehind.filter (decide_eq_true fun hsha => hnot (hconsumed hsha))

theorem row_append {row : LeaseRow} (h : (appendSha w sha).row = some row) :
    row.generation = (w.row.map LeaseRow.generation).getD 0 ∧
      row.requestedShas = some (appendSha w sha).queue := by
  rw [CodemapWorld.queue, h, Option.bind_some]
  rw [appendSha] at h
  cases hrow : w.row with
  | none =>
    rw [hrow] at h
    obtain rfl := Option.some.inj h
    exact ⟨rfl, rfl⟩
  | some old =>
    rw [hrow] at h
    obtain rfl := Option.some.inj h
    exact ⟨rfl, by rw [Option.getD_some]⟩

theorem row_append_ne (w : CodemapWorld) (sha : String) : (appendSha w sha).row ≠ none := by
  rw [appendSha]
  cases w.row with
  | none => exact Option.some_ne_none _
  | some row => exact Option.some_ne_none _

theorem Recorded.append (h : Recorded w) (sha : String) : Recorded (appendSha w sha) := by
  have hevents := events_append w sha
  have hqueue := queue_append w sha
  have hgranted : granted (appendSha w sha).events = granted w.events := by
    rw [hevents, granted_append]
    exact append_nil _
  have hforce : inForce (appendSha w sha).events = inForce w.events := by
    rw [hevents, inForce_requested]
  have hlast : (appendSha w sha).lastGeneration = w.lastGeneration := by
    rw [appendSha]
    cases w.row <;> rfl
  refine ⟨by rw [hgranted]; exact h.increasing, by rw [hgranted, hlast]; exact h.counted,
    by rw [hgranted, hforce]; exact h.current, fun row hrow => ?_, fun hrow => ?_,
    ⟨fun row hrow => ?_, ?_, ?_⟩, fun x hx => ?_, fun x before after hsplit hnot hfew => ?_⟩
  · rw [hforce, (row_append hrow).1]
    cases hold : w.row with
    | none => rw [h.standing hold]; rfl
    | some old => exact h.row old hold
  · exact absurd hrow (row_append_ne w sha)
  · exact ⟨_, (row_append hrow).2⟩
  · rw [hqueue]
    exact Fifo.nodup_push h.queue.nodup sha
  · rw [hqueue]
    exact Fifo.length_push_le _ _ _
  · rw [hqueue] at hx
    rw [hevents]
    rcases Fifo.mem_push hx with hold | ⟨rfl, hnew⟩
    · exact (h.placed x hold).concat (not_consumed_requested _ _)
    · refine ⟨w.events, [], by rw [decide_eq_true hnew], ?_⟩
      rintro ⟨_, _, hmem, -⟩
      cases hmem
  · rw [hevents] at hsplit
    rw [hqueue]
    rcases split_concat hsplit with ⟨rfl, -, heq⟩ | ⟨rest, rfl, hold⟩
    · obtain ⟨rfl, hnew⟩ := CodemapEvent.requested.inj heq
      exact Fifo.behind_push (by decide) (of_decide_eq_true hnew.symm)
    · rw [consumed_append, not_or] at hnot
      rw [requestedShas_append] at hfew ⊢
      have hfewer : (Fifo.others x (requestedShas rest)).length < maxRequestedShas :=
        Nat.lt_of_le_of_lt (Fifo.length_others_append_le x _ _) hfew
      exact (h.waiting x before rest hold hnot.1 hfewer).push h.queue.nodup h.queue.bounded sha hfew

theorem Recorded.releaseRow_late (h : Recorded w) {g : Nat} (hg : g ∈ granted w.events)
    (hlate : inForce w.events ≠ some g) (shas : List String) :
    releaseRow w g shas = (false, w) := by
  rcases releaseRow_cases w g shas with heq | ⟨row, queue, row', hrow, hgeneration, -⟩
  · exact heq
  · have hpos := (h.counted g hg).1
    have hvalue := h.row row hrow
    cases hforce : inForce w.events with
    | none =>
      rw [hforce, Option.getD_none] at hvalue
      omega
    | some current =>
      rw [hforce, Option.getD_some] at hvalue
      rw [hforce] at hlate
      exact absurd (congrArg some (by omega : current = g)) hlate

/-- A program that does not touch the lock of another call. -/
inductive Plain : CodemapM CodemapResult → Prop where
  | ret (r : CodemapResult) : Plain (.ret r)
  | raise (e : CodemapError) : Plain (.raise e)
  | connect (k : Except CodemapError Unit → CodemapM CodemapResult) (hk : ∀ a, Plain (k a)) :
      Plain (.call .connect k)
  | releaseRow (generation : Int) (shas : List String)
      (k : Except CodemapError Bool → CodemapM CodemapResult) (hk : ∀ a, Plain (k a)) :
      Plain (.call (.releaseRow generation shas) k)
  | unlockLease (fd : Nat) (k : Unit → CodemapM CodemapResult) (hk : ∀ a, Plain (k a)) :
      Plain (.call (.unlockLease fd) k)
  | append (sha : String) (k : Except CodemapError Unit → CodemapM CodemapResult)
      (hk : ∀ a, Plain (k a)) : Plain (.call (.append sha) k)

/-- The programs that a thread runs through, with the file whose lock it has taken. -/
inductive Point : Option Descriptor → CodemapM CodemapResult → Prop where
  | plain (p : CodemapM CodemapResult) (hp : Plain p) : Point none p
  | acquire (now : Rat) : Point none (acquireReindexLease now)
  | connect (d : Descriptor) (now : Rat) :
      Point (some d) (.call .connect (afterLockedConnect d now))
  | grant (d : Descriptor) (now : Rat) : Point (some d) (.call (.grant d now) (afterGrant d))
  | giveUp (d : Descriptor) (e : CodemapError) : Point (some d) (giveUp d e)

theorem Plain.ofExcept (outcome : Except CodemapError CodemapResult) :
    Plain (.ofExcept outcome) := by
  cases outcome with
  | error e => exact .raise e
  | ok r => exact .ret r

theorem Plain.closing (lockFd : Option Nat) (outcome : Except CodemapError CodemapResult) :
    Plain (closing lockFd outcome) := by
  cases lockFd with
  | none => exact .ofExcept outcome
  | some fd => exact .unlockLease fd _ fun _ => .ofExcept outcome

theorem Point.body (request : CodemapRequest) : Point none request.body := by
  cases request with
  | acquire now => exact .acquire now
  | release generation consumedShas lockFd =>
    refine .plain _ (.connect _ fun answer => ?_)
    cases answer with
    | error e => exact .closing lockFd _
    | ok unit =>
      refine .releaseRow _ _ _ fun answer => ?_
      cases answer with
      | error e => exact .closing lockFd _
      | ok matched => exact .closing lockFd _
  | request sha =>
    refine .plain _ (.connect _ fun answer => ?_)
    cases answer with
    | error e => exact .raise e
    | ok unit =>
      refine .append _ _ fun answer => ?_
      cases answer with
      | error e => exact .raise e
      | ok unit => exact .ret _

/-- What the lock and the leases become. -/
inductive LockStep (i : Worker) (w : CodemapWorld) :
    Option Descriptor → CodemapWorld → Option Descriptor → Prop where
  | same {v : CodemapWorld} (held : Option Descriptor) (hlock : v.lock = w.lock)
      (hleases : v.leases = w.leases) (hgone : v.gone = w.gone) : LockStep i w held v held
  | take {v : CodemapWorld} (d : Descriptor) (hd : d.pid = i.pid) (hfree : w.lock = none)
      (hlock : v.lock = some d) (hleases : v.leases = w.leases) (hgone : v.gone = w.gone) :
      LockStep i w none v (some d)
  | grant {v : CodemapWorld} (d : Descriptor) (generation : Nat) (hlock : v.lock = w.lock)
      (hleases : v.leases = w.leases ++ [⟨d, generation⟩]) (hgone : v.gone = w.gone) :
      LockStep i w (some d) v none
  | drop {v : CodemapWorld} (d : Descriptor) (hv : v = w.close d) : LockStep i w (some d) v none
  | close {v : CodemapWorld} (d : Descriptor) (l : HeldLease) (hl : l ∈ w.leases)
      (hd : l.descriptor = d) (hv : v = w.close d) : LockStep i w none v none

theorem releaseRow_lock (w : CodemapWorld) (generation : Int) (shas : List String) :
    (releaseRow w generation shas).2.lock = w.lock ∧
      (releaseRow w generation shas).2.leases = w.leases ∧
      (releaseRow w generation shas).2.gone = w.gone := by
  rcases releaseRow_cases w generation shas with heq | ⟨row, queue, row', -, -, -, heq, -⟩
  · rw [heq]
    exact ⟨rfl, rfl, rfl⟩
  · rw [heq]
    exact ⟨rfl, rfl, rfl⟩

theorem append_lock (w : CodemapWorld) (sha : String) :
    (appendSha w sha).lock = w.lock ∧ (appendSha w sha).leases = w.leases ∧
      (appendSha w sha).gone = w.gone := by
  rw [appendSha]
  cases w.row with
  | none => exact ⟨rfl, rfl, rfl⟩
  | some row => exact ⟨rfl, rfl, rfl⟩

theorem Point.tick {i : Worker} {held : Option Descriptor} {p : CodemapM CodemapResult}
    (h : Point held p) {e : CodemapOp} {k : e.Answer → CodemapM CodemapResult}
    (hp : p = .call e k) {c : CodemapChoice} {answer : e.Answer}
    (ha : CodemapOp.effect i e c w = some (answer, w')) :
    ∃ held', LockStep i w held w' held' ∧ Point held' (k answer) := by
  cases h with
  | plain p hplain =>
    refine ⟨none, ?_⟩
    cases hplain with
    | ret r => cases hp
    | raise x => cases hp
    | connect k hk =>
      cases hp
      refine ⟨?_, .plain _ (hk _)⟩
      cases c <;> simp only [CodemapOp.effect, Option.some.injEq, Prod.mk.injEq, reduceCtorEq] at ha
      · exact ha.2 ▸ .same none rfl rfl rfl
      · exact ha.2 ▸ .same none rfl rfl rfl
    | releaseRow generation shas k hk =>
      cases hp
      refine ⟨?_, .plain _ (hk _)⟩
      have hlock := releaseRow_lock w generation shas
      cases c <;> simp only [CodemapOp.effect, Option.some.injEq, Prod.mk.injEq, reduceCtorEq] at ha
      · exact ha.2 ▸ .same none hlock.1 hlock.2.1 hlock.2.2
      · exact ha.2 ▸ .same none rfl rfl rfl
    | unlockLease fd k hk =>
      cases hp
      refine ⟨?_, .plain _ (hk _)⟩
      cases c <;> simp only [CodemapOp.effect, Option.some.injEq, Prod.mk.injEq, reduceCtorEq] at ha
      obtain ⟨-, rfl⟩ := ha
      split
      · rename_i hany
        obtain ⟨l, hl, hd⟩ := any_eq_true.mp hany
        exact .close _ l hl (of_decide_eq_true hd) rfl
      · exact .same none rfl rfl rfl
    | append sha k hk =>
      cases hp
      refine ⟨?_, .plain _ (hk _)⟩
      have hlock := append_lock w sha
      cases c <;> simp only [CodemapOp.effect, Option.some.injEq, Prod.mk.injEq, reduceCtorEq] at ha
      · exact ha.2 ▸ .same none hlock.1 hlock.2.1 hlock.2.2
      · exact ha.2 ▸ .same none rfl rfl rfl
  | acquire now =>
    cases hp
    cases c with
    | plain => simp only [CodemapOp.effect, reduceCtorEq] at ha
    | fail =>
      simp only [CodemapOp.effect, Option.some.injEq, Prod.mk.injEq] at ha
      obtain ⟨rfl, rfl⟩ := ha
      exact ⟨none, .same none rfl rfl rfl, .plain _ (.raise _)⟩
    | fresh fd =>
      simp only [CodemapOp.effect] at ha
      split at ha
      · cases ha
      · cases hfree : w.lock with
        | some d =>
          rw [hfree] at ha
          obtain ⟨rfl, rfl⟩ := Prod.mk.inj (Option.some.inj ha)
          exact ⟨none, .same none hfree.symm rfl rfl, .plain _ (.ret _)⟩
        | none =>
          rw [hfree] at ha
          obtain ⟨rfl, rfl⟩ := Prod.mk.inj (Option.some.inj ha)
          exact ⟨some ⟨i.pid, fd⟩, .take _ rfl hfree rfl rfl rfl, .connect _ now⟩
  | connect d now =>
    cases hp
    refine ⟨some d, ?_⟩
    cases c <;> simp only [CodemapOp.effect, Option.some.injEq, Prod.mk.injEq, reduceCtorEq] at ha
    · obtain ⟨rfl, rfl⟩ := ha
      exact ⟨.same _ rfl rfl rfl, .grant d now⟩
    · obtain ⟨rfl, rfl⟩ := ha
      exact ⟨.same _ rfl rfl rfl, .giveUp d _⟩
  | grant d now =>
    cases hp
    cases c <;> simp only [CodemapOp.effect, Option.some.injEq, Prod.mk.injEq, reduceCtorEq] at ha
    · obtain ⟨rfl, rfl⟩ := ha
      exact ⟨none, .grant d _ rfl rfl rfl, .plain _ (.ret _)⟩
    · obtain ⟨rfl, rfl⟩ := ha
      exact ⟨some d, .same _ rfl rfl rfl, .giveUp d _⟩
  | giveUp d x =>
    cases hp
    cases c <;> simp only [CodemapOp.effect, Option.some.injEq, Prod.mk.injEq, reduceCtorEq] at ha
    obtain ⟨-, rfl⟩ := ha
    exact ⟨none, .drop d rfl, .plain _ (.raise _)⟩

theorem Recorded.effect (h : Recorded w) {i : Worker} {e : CodemapOp} {c : CodemapChoice}
    {answer : e.Answer} (ha : CodemapOp.effect i e c w = some (answer, w')) : Recorded w' := by
  cases e with
  | tryAcquireFlock =>
    cases c with
    | plain => simp only [CodemapOp.effect, reduceCtorEq] at ha
    | fail =>
      simp only [CodemapOp.effect, Option.some.injEq, Prod.mk.injEq] at ha
      exact ha.2 ▸ h
    | fresh fd =>
      simp only [CodemapOp.effect] at ha
      split at ha
      · cases ha
      · split at ha
        · obtain ⟨-, rfl⟩ := Prod.mk.inj (Option.some.inj ha)
          exact h.of_eq rfl rfl rfl
        · obtain ⟨-, rfl⟩ := Prod.mk.inj (Option.some.inj ha)
          exact h.of_eq rfl rfl rfl
  | connect =>
    cases c <;> simp only [CodemapOp.effect, Option.some.injEq, Prod.mk.injEq, reduceCtorEq] at ha
    · exact ha.2 ▸ h
    · exact ha.2 ▸ h
  | grant d now =>
    cases c <;> simp only [CodemapOp.effect, Option.some.injEq, Prod.mk.injEq, reduceCtorEq] at ha
    · exact ha.2 ▸ h.grant d now
    · exact ha.2 ▸ h
  | unlockOwn d =>
    cases c <;> simp only [CodemapOp.effect, Option.some.injEq, Prod.mk.injEq, reduceCtorEq] at ha
    exact ha.2 ▸ h.of_eq rfl rfl rfl
  | releaseRow generation shas =>
    cases c <;> simp only [CodemapOp.effect, Option.some.injEq, Prod.mk.injEq, reduceCtorEq] at ha
    · exact ha.2 ▸ h.release generation shas
    · exact ha.2 ▸ h
  | unlockLease fd =>
    cases c <;> simp only [CodemapOp.effect, Option.some.injEq, Prod.mk.injEq, reduceCtorEq] at ha
    obtain ⟨-, rfl⟩ := ha
    split
    · exact h.of_eq rfl rfl rfl
    · exact h
  | append sha =>
    cases c <;> simp only [CodemapOp.effect, Option.some.injEq, Prod.mk.injEq, reduceCtorEq] at ha
    · exact ha.2 ▸ h.append sha
    · exact ha.2 ▸ h

/-- A lease is that of the lock, and a thread that has the lock is the only one, with no lease
given out. -/
structure Locked (held : Worker → Option Descriptor) (s : CodemapConfig) : Prop where
  points : ∀ i p, s.procs i = some p → i.pid ∉ s.world.gone → Point (held i) p
  owner : ∀ i d, held i = some d → s.world.lock = some d ∧ d.pid = i.pid ∧ s.world.leases = []
  only : ∀ i j, held i ≠ none → held j ≠ none → i = j
  leases : ∀ l ∈ s.world.leases, s.world.lock = some l.descriptor ∧
    l.descriptor.pid ∉ s.world.gone
  one : ∀ l ∈ s.world.leases, ∀ l' ∈ s.world.leases, l = l'

theorem LockStep.gone {i : Worker} {held held' : Option Descriptor}
    (h : LockStep i w held w' held') : w'.gone = w.gone := by
  cases h with
  | same _ _ _ hgone => exact hgone
  | take _ _ _ _ _ hgone => exact hgone
  | grant _ _ _ _ hgone => exact hgone
  | drop _ hv => rw [hv]; rfl
  | close _ _ _ _ hv => rw [hv]; rfl

theorem close_leases {d : Descriptor} (h : ∀ l ∈ w.leases, l.descriptor = d) :
    (w.close d).leases = [] := by
  rw [CodemapWorld.close]
  exact filter_eq_nil_iff.mpr fun l hl => by simp [h l hl]

variable {held : Worker → Option Descriptor} {s s' : CodemapConfig}

theorem Locked.others (h : Locked held s) {i j : Worker} (hi : held i ≠ none) (hj : j ≠ i) :
    held j = none := by
  by_contra hne
  exact hj (h.only j i hne hi)

theorem Locked.idle (h : Locked held s) {l : HeldLease} (hl : l ∈ s.world.leases) (j : Worker) :
    held j = none := by
  cases hj : held j with
  | none => rfl
  | some d =>
    rw [(h.owner j d hj).2.2] at hl
    cases hl

theorem update_none {i j : Worker} (h : ∀ j, j ≠ i → held j = none) :
    Function.update held i none j = none := by
  by_cases hj : j = i
  · rw [hj, Function.update_self]
  · rw [Function.update_of_ne hj, h j hj]

theorem Locked.none_held (hnone : ∀ j, held j = none)
    (hpoints : ∀ i p, s.procs i = some p → i.pid ∉ s.world.gone → Point (held i) p)
    (hleases : ∀ l ∈ s.world.leases, s.world.lock = some l.descriptor ∧
      l.descriptor.pid ∉ s.world.gone)
    (hone : ∀ l ∈ s.world.leases, ∀ l' ∈ s.world.leases, l = l') : Locked held s where
  points := hpoints
  owner i d hd := by
    rw [hnone i] at hd
    cases hd
  only i j hi := absurd (hnone i) hi
  leases := hleases
  one := hone

theorem Locked.tick (h : Locked held s) {i : Worker} {p' : CodemapM CodemapResult}
    {held' : Option Descriptor} (hi : i.pid ∉ s.world.gone)
    (hstep : LockStep i s.world (held i) s'.world held') (hpoint : Point held' p')
    (hprocs : s'.procs = Function.update s.procs i (some p')) :
    Locked (Function.update held i held') s' := by
  have hgone := hstep.gone
  have hpoints : ∀ j q, s'.procs j = some q → j.pid ∉ s'.world.gone →
      Point (Function.update held i held' j) q := by
    intro j q hq hj
    rw [hgone] at hj
    rw [hprocs] at hq
    by_cases hji : j = i
    · subst hji
      rw [Function.update_self] at hq
      rw [Function.update_self]
      exact Option.some.inj hq ▸ hpoint
    · rw [Function.update_of_ne hji] at hq
      rw [Function.update_of_ne hji]
      exact h.points j q hq hj
  generalize hheld : held i = before at hstep
  cases hstep with
  | same _ hlock hleases _ =>
    have hself : Function.update held i held' = held := by rw [← hheld, Function.update_eq_self]
    rw [hself] at hpoints ⊢
    refine ⟨hpoints, ?_, h.only, ?_, ?_⟩
    · rw [hlock, hleases]
      exact h.owner
    · rw [hlock, hleases, hgone]
      exact h.leases
    · rw [hleases]
      exact h.one
  | take d hd hfree hlock hleases _ =>
    have hnone : ∀ j, held j = none := by
      intro j
      cases hj : held j with
      | none => rfl
      | some d' =>
        have howner := (h.owner j d' hj).1
        rw [hfree] at howner
        cases howner
    have hempty : s.world.leases = [] := by
      refine eq_nil_iff_forall_not_mem.mpr fun l hl => ?_
      have hl := (h.leases l hl).1
      rw [hfree] at hl
      cases hl
    have honly : ∀ j, Function.update held i (some d) j ≠ none → j = i := by
      intro j hj
      by_contra hji
      rw [Function.update_of_ne hji] at hj
      exact hj (hnone j)
    refine ⟨hpoints, fun j d' hj => ?_, fun j k hj hk => ?_, ?_, ?_⟩
    · obtain rfl := honly j (by rw [hj]; exact Option.some_ne_none _)
      rw [Function.update_self] at hj
      obtain rfl := Option.some.inj hj
      exact ⟨hlock, hd, by rw [hleases, hempty]⟩
    · rw [honly j hj, honly k hk]
    · rw [hleases, hempty]
      exact fun l hl => absurd hl not_mem_nil
    · rw [hleases, hempty]
      exact fun l hl => absurd hl not_mem_nil
  | grant d generation hlock hleases _ =>
    obtain ⟨howner, hpid, hempty⟩ := h.owner i d hheld
    have hothers : ∀ j, j ≠ i → held j = none := fun j hj =>
      h.others (by rw [hheld]; exact Option.some_ne_none _) hj
    rw [hempty, nil_append] at hleases
    refine .none_held (fun j => update_none hothers) hpoints ?_ ?_
    · rw [hlock, hleases, hgone]
      intro l hl
      obtain rfl := mem_singleton.mp hl
      exact ⟨howner, by rw [hpid]; exact hi⟩
    · rw [hleases]
      intro l hl l' hl'
      rw [mem_singleton.mp hl, mem_singleton.mp hl']
  | drop d hv =>
    have hothers : ∀ j, j ≠ i → held j = none := fun j hj =>
      h.others (by rw [hheld]; exact Option.some_ne_none _) hj
    have hempty : s'.world.leases = [] := by
      rw [hv]
      refine close_leases fun l hl => ?_
      rw [(h.owner i d hheld).2.2] at hl
      cases hl
    refine .none_held (fun j => update_none hothers) hpoints ?_ ?_
    · rw [hempty]
      exact fun l hl => absurd hl not_mem_nil
    · rw [hempty]
      exact fun l hl => absurd hl not_mem_nil
  | close d l hl hd hv =>
    have hempty : s'.world.leases = [] := by
      rw [hv]
      exact close_leases fun l' hl' => by rw [h.one l' hl' l hl, hd]
    refine .none_held (fun j => update_none fun j _ => h.idle hl j) hpoints ?_ ?_
    · rw [hempty]
      exact fun l hl => absurd hl not_mem_nil
    · rw [hempty]
      exact fun l hl => absurd hl not_mem_nil

theorem Locked.forget (h : Locked held s) (i : Worker) {p' : Option (CodemapM CodemapResult)}
    (hpoint : ∀ p, p' = some p → Point none p) (hworld : s'.world = s.world)
    (hprocs : s'.procs = Function.update s.procs i p') :
    Locked (Function.update held i none) s' := by
  have hheld : ∀ j d, Function.update held i none j = some d → held j = some d := by
    intro j d hj
    by_cases hji : j = i
    · rw [hji, Function.update_self] at hj
      cases hj
    · rw [Function.update_of_ne hji] at hj
      exact hj
  refine ⟨fun j q hq hj => ?_, fun j d hd => ?_, fun j k hj hk => ?_, ?_, ?_⟩
  · rw [hworld] at hj
    rw [hprocs] at hq
    by_cases hji : j = i
    · rw [hji, Function.update_self] at hq ⊢
      exact hpoint q hq
    · rw [Function.update_of_ne hji] at hq ⊢
      exact h.points j q hq hj
  · rw [hworld]
    exact h.owner j d (hheld j d hd)
  · obtain ⟨d, hd⟩ := Option.ne_none_iff_exists'.mp hj
    obtain ⟨d', hd'⟩ := Option.ne_none_iff_exists'.mp hk
    refine h.only j k ?_ ?_
    · rw [hheld j d hd]
      exact Option.some_ne_none _
    · rw [hheld k d' hd']
      exact Option.some_ne_none _
  · rw [hworld]
    exact h.leases
  · rw [hworld]
    exact h.one

theorem Locked.die (h : Locked held s) (pid : Nat) (hworld : s'.world = die pid s.world)
    (hprocs : s'.procs = s.procs) :
    Locked (fun i => if i.pid = pid then none else held i) s' := by
  have hlock : ∀ d : Descriptor, s.world.lock = some d → d.pid ≠ pid →
      (Codemap.die pid s.world).lock = some d := by
    intro d hd hpid
    simp only [Codemap.die, hd, Option.filter_some, decide_eq_true hpid, if_true]
  refine ⟨fun i p hp hi => ?_, fun i d hd => ?_, fun i j hi hj => ?_, fun l hl => ?_,
    fun l hl l' hl' => ?_⟩
  · rw [hworld, Codemap.die, mem_cons, not_or] at hi
    rw [hprocs] at hp
    simp only [if_neg hi.1]
    exact h.points i p hp hi.2
  · by_cases hi : i.pid = pid
    · rw [if_pos hi] at hd
      cases hd
    · rw [if_neg hi] at hd
      obtain ⟨howner, hpid, hempty⟩ := h.owner i d hd
      rw [hworld]
      refine ⟨hlock d howner (by rw [hpid]; exact hi), hpid, ?_⟩
      rw [Codemap.die, hempty, filter_nil]
  · by_cases hipid : i.pid = pid
    · exact absurd (if_pos hipid) hi
    · by_cases hjpid : j.pid = pid
      · exact absurd (if_pos hjpid) hj
      · rw [if_neg hipid] at hi
        rw [if_neg hjpid] at hj
        exact h.only i j hi hj
  · rw [hworld] at hl ⊢
    obtain ⟨hl, hpid⟩ := mem_filter.mp hl
    have hpid := of_decide_eq_true hpid
    obtain ⟨howner, halive⟩ := h.leases l hl
    exact ⟨hlock _ howner hpid, fun hgone => (mem_cons.mp hgone).elim hpid halive⟩
  · rw [hworld] at hl hl'
    exact h.one l (mem_filter.mp hl).1 l' (mem_filter.mp hl').1

/-- What holds in every run. -/
structure Sound (s : CodemapConfig) : Prop where
  recorded : Recorded s.world
  locked : ∃ held, Locked held s

theorem Sound.boot : Sound (System.boot {}) where
  recorded := .boot
  locked := ⟨fun _ => none, .none_held (fun _ => rfl) (fun i p hp => by cases hp)
    (fun l hl => absurd hl not_mem_nil) (fun l hl => absurd hl not_mem_nil)⟩

theorem Sound.next {l : CodemapLabel} (h : Sound s) (hn : codemapSystem.next s l = some s') :
    Sound s' := by
  obtain ⟨held, hlocked⟩ := h.locked
  rcases System.next_cases hn with ⟨i, r, -, -, hw, hprocs⟩ | ⟨i, c, e, k, a, -, hp, ha, hprocs⟩ |
    ⟨i, p, -, -, hw, hprocs⟩ | ⟨pid, -, hd, hprocs⟩
  · have hw : s'.world = s.world := hw
    refine ⟨hw ▸ h.recorded, _, hlocked.forget i (fun p hp => ?_) hw hprocs⟩
    exact Option.some.inj hp ▸ Point.body r
  · have ha : (if i.pid ∈ s.world.gone then none else CodemapOp.effect i e c s.world) =
      some (a, s'.world) := ha
    by_cases hi : i.pid ∈ s.world.gone
    · rw [if_pos hi] at ha
      cases ha
    · rw [if_neg hi] at ha
      obtain ⟨held', hstep, hpoint⟩ := (hlocked.points i _ hp hi).tick rfl ha
      exact ⟨h.recorded.effect ha, _, hlocked.tick hi hstep hpoint hprocs⟩
  · refine ⟨hw ▸ h.recorded, _, hlocked.forget i (fun p hp => ?_) hw hprocs⟩
    cases hp
  · obtain hw := Option.some.inj hd
    refine ⟨?_, _, hlocked.die pid hw.symm hprocs⟩
    rw [← hw]
    exact h.recorded.of_eq rfl rfl rfl

theorem Sound.of_reachable (h : codemapSystem.Reachable (· = {}) s) : Sound s := by
  obtain ⟨w, rfl, hsteps⟩ := h
  exact hsteps.preserves (fun _ _ _ hP hn => Sound.next hP hn) .boot

/-- The generations that are granted increase; one process at most has the lease, and it is there
and has the lock; a release with the generation of another lease than the one in force does nothing;
a request puts its commit into the queue; and a commit that a request has put there stays until a
matching release lists it as consumed, or as many others as the queue holds were requested. -/
theorem reindex_lease (h : codemapSystem.Reachable (· = {}) s) :
    (granted s.world.events).Pairwise (· < ·) ∧
    (∀ l ∈ s.world.leases, s.world.lock = some l.descriptor ∧ l.descriptor.pid ∉ s.world.gone ∧
      ∀ l' ∈ s.world.leases, l = l') ∧
    (∀ g ∈ granted s.world.events, inForce s.world.events ≠ some g →
      ∀ shas, releaseRow s.world g shas = (false, s.world)) ∧
    (∀ sha, sha ∈ (appendSha s.world sha).queue) ∧
    (∀ sha ∈ s.world.queue, Pending sha s.world.events) ∧
    ∀ sha before after, s.world.events = before ++ .requested sha true :: after →
      ¬ Consumed sha after →
      (Fifo.others sha (requestedShas after)).length < maxRequestedShas → sha ∈ s.world.queue := by
  obtain ⟨hrecorded, held, hlocked⟩ := Sound.of_reachable h
  refine ⟨hrecorded.increasing, fun l hl => ?_, fun g hg hlate shas => ?_, fun sha => ?_,
    hrecorded.placed, fun sha before after hsplit hnot hfew => ?_⟩
  · obtain ⟨hlock, halive⟩ := hlocked.leases l hl
    exact ⟨hlock, halive, hlocked.one l hl⟩
  · exact hrecorded.releaseRow_late hg hlate shas
  · rw [queue_append]
    exact Fifo.mem_push_self (by decide) hrecorded.queue.bounded sha
  · exact (hrecorded.waiting sha before after hsplit hnot hfew).mem

/-- Process 1 has the lease; a commit is requested. -/
def leasedRun : List CodemapLabel :=
  [.start ⟨1, 1⟩ (.acquire 0), .tick ⟨1, 1⟩ (.fresh 3), .tick ⟨1, 1⟩ .plain, .tick ⟨1, 1⟩ .plain,
    .start ⟨3, 1⟩ (.request "sha"), .tick ⟨3, 1⟩ .plain, .tick ⟨3, 1⟩ .plain]

theorem reindex_lease_held : ∃ s : CodemapConfig,
    codemapSystem.exec (System.boot {}) leasedRun = some s ∧ granted s.world.events = [1] ∧
    s.world.leases = [⟨⟨1, 3⟩, 1⟩] ∧ s.world.lock = some ⟨1, 3⟩ ∧ "sha" ∈ s.world.queue := by
  refine ⟨_, rfl, rfl, rfl, ?_⟩
  obtain ⟨-, hleases, -, -, -, hqueue⟩ := reindex_lease ⟨{}, rfl, leasedRun, rfl⟩
  refine ⟨(hleases ⟨⟨1, 3⟩, 1⟩ mem_cons_self).1, ?_⟩
  refine hqueue "sha" [.granted 1 1] [] rfl ?_ (by decide)
  rintro ⟨_, _, hmem, -⟩
  cases hmem

/-- In every reachable state the row agrees with the history: it has the generation that is in force, or
zero, and a queue that can be read, without repetitions and within its bound. -/
theorem lease_row_follows (h : codemapSystem.Reachable (· = {}) s) :
    (∀ row, s.world.row = some row →
      row.generation = (inForce s.world.events).getD 0 ∧ row.requestedShas.isSome) ∧
    (s.world.row = none → inForce s.world.events = none) ∧
    (∀ g, inForce s.world.events = some g →
      g ∈ granted s.world.events ∧ 0 < g ∧ g ≤ s.world.lastGeneration.getD 0) ∧
    s.world.queue.Nodup ∧ s.world.queue.length ≤ maxRequestedShas := by
  have hrecorded := (Sound.of_reachable h).recorded
  refine ⟨fun row hrow => ⟨hrecorded.row row hrow, ?_⟩, hrecorded.standing, fun g hg => ?_,
    hrecorded.queue.nodup, hrecorded.queue.bounded⟩
  · obtain ⟨queue, hqueue⟩ := hrecorded.queue.parsed row hrow
    rw [hqueue]
    rfl
  · have hgranted := hrecorded.current g hg
    exact ⟨hgranted, hrecorded.counted g hgranted⟩

theorem lease_row_follows_held : ∃ s : CodemapConfig,
    codemapSystem.exec (System.boot {}) leasedRun = some s ∧ inForce s.world.events = some 1 ∧
    1 ≤ s.world.lastGeneration.getD 0 := by
  refine ⟨_, rfl, rfl, ?_⟩
  exact ((lease_row_follows ⟨{}, rfl, leasedRun, rfl⟩).2.2.1 1 rfl).2.2

/-! ## A commit that is requested again -/

/-- A request that runs alone. -/
def requestLabels (sha : String) : List CodemapLabel :=
  [.start ⟨1, 1⟩ (.request sha), .tick ⟨1, 1⟩ .plain, .tick ⟨1, 1⟩ .plain, .halt ⟨1, 1⟩]

theorem exec_request (hgone : w.gone = []) (sha : String) :
    codemapSystem.exec (System.boot w) (requestLabels sha) = some (System.boot (appendSha w sha)) := by
  obtain ⟨row, last, lock, opened, leases, gone, events⟩ := w
  obtain rfl : gone = [] := hgone
  have hrun : ∀ w' : CodemapWorld, ∀ p q r : CodemapM CodemapResult,
      (⟨w', Function.update (Function.update (Function.update (Function.update (fun _ => none)
        (⟨1, 1⟩ : Worker) (some p)) ⟨1, 1⟩ (some q)) ⟨1, 1⟩ (some r)) ⟨1, 1⟩ none⟩ : CodemapConfig) =
        System.boot w' := by
    intro w' p q r
    rw [Function.update_idem, Function.update_idem, Function.update_idem]
    rw [Function.update_eq_self_iff.mpr rfl]
    rfl
  exact congrArg some (hrun _ _ _ _)

theorem appendSha_gone (w : CodemapWorld) (sha : String) : (appendSha w sha).gone = w.gone :=
  (append_lock w sha).2.2

theorem exec_requests (hgone : w.gone = []) (shas : List String) :
    codemapSystem.exec (System.boot w) (shas.flatMap requestLabels) =
      some (System.boot (shas.foldl appendSha w)) := by
  induction shas generalizing w with
  | nil => rfl
  | cons sha shas ih =>
    rw [flatMap_cons, System.exec_append, exec_request hgone, Option.bind_some,
      foldl_cons]
    exact ih (by rw [appendSha_gone, hgone])

theorem queue_foldl (w : CodemapWorld) (shas : List String) :
    (shas.foldl appendSha w).queue = shas.foldl (Fifo.push maxRequestedShas) w.queue := by
  induction shas generalizing w with
  | nil => rfl
  | cons sha shas ih => rw [foldl_cons, foldl_cons, ih, queue_append]

/-- Names of as many commits as one likes. -/
def someSha (n : Nat) : String := String.ofList (List.replicate n 'a')

theorem someSha_inj {m n : Nat} (h : someSha m = someSha n) : m = n := by
  have hlength := congrArg (fun s => s.toList.length) h
  simpa [someSha] using hlength

/-- Some commits, each once. -/
def someShas (n : Nat) : List String := (List.range n).map someSha

theorem nodup_someShas (n : Nat) : (someShas n).Nodup :=
  List.Nodup.map (fun _ _ => someSha_inj) nodup_range

theorem not_mem_someShas (n : Nat) : someSha n ∉ someShas n := by
  intro hmem
  obtain ⟨m, hm, heq⟩ := mem_map.mp hmem
  rw [someSha_inj heq] at hm
  exact absurd (mem_range.mp hm) (Nat.lt_irrefl n)

theorem someShas_succ (n : Nat) :
    someShas (n + 1) = someSha 0 :: (List.range n).map fun m => someSha (m + 1) := by
  rw [someShas, range_succ_eq_map, map_cons, map_map]
  rfl

/-- The latest request does not count: the oldest commit of a full queue is requested once more, keeps
its place, and goes with the next request. -/
theorem requested_again_evicted : ¬ ∀ s : CodemapConfig, codemapSystem.Reachable (· = {}) s →
    ∀ sha appended before after, s.world.events = before ++ .requested sha appended :: after →
      sha ∉ requestedShas after → ¬ Consumed sha after →
      (Fifo.others sha (requestedShas after)).length < maxRequestedShas → sha ∈ s.world.queue := by
  intro hall
  have hfull : ((someShas maxRequestedShas).foldl appendSha {}).queue =
      someShas maxRequestedShas := by
    rw [queue_foldl]
    exact Fifo.foldl_push (nodup_someShas _) (by simp [someShas, CodemapWorld.queue])
  generalize hw : (someShas maxRequestedShas).foldl appendSha {} = w at hfull
  have hsecond : (appendSha w (someSha 0)).queue = someShas maxRequestedShas := by
    rw [queue_append, hfull]
    refine Fifo.push_of_mem (by simp [someShas]) ?_
    exact mem_map_of_mem (mem_range.mpr (by decide))
  have hthird : (appendSha (appendSha w (someSha 0)) (someSha maxRequestedShas)).events =
      w.events ++ .requested (someSha 0) (someSha 0 ∉ w.queue) ::
        [.requested (someSha maxRequestedShas) (someSha maxRequestedShas ∉ someShas maxRequestedShas)] := by
    rw [events_append, events_append, hsecond, append_assoc, singleton_append]
  have hreach : codemapSystem.Reachable (· = {})
      (System.boot (appendSha (appendSha w (someSha 0)) (someSha maxRequestedShas))) := by
    refine ⟨{}, rfl, (someShas maxRequestedShas ++ [someSha 0, someSha maxRequestedShas]).flatMap
      requestLabels, ?_⟩
    rw [exec_requests rfl, foldl_append, hw]
    rfl
  have hlist : someShas maxRequestedShas = someSha 0 :: (List.range 127).map fun m => someSha (m + 1) :=
    someShas_succ 127
  have hmem : someSha 0 ∈
      (appendSha (appendSha w (someSha 0)) (someSha maxRequestedShas)).queue := by
    refine hall _ hreach (someSha 0) _ w.events _ hthird ?_ ?_ ?_
    · intro hagain
      exact absurd (someSha_inj (mem_singleton.mp hagain)) (by decide)
    · rintro ⟨_, _, hmem, -⟩
      cases mem_singleton.mp hmem
    · refine Nat.lt_of_le_of_lt (dedup_sublist _).length_le ?_
      refine Nat.lt_of_le_of_lt (length_filter_le _ _) ?_
      show 1 < maxRequestedShas
      decide
  rw [queue_append, hsecond, hlist, Fifo.push_full] at hmem
  · rcases mem_append.mp hmem with hmem | hmem
    · obtain ⟨n, -, hn⟩ := mem_map.mp hmem
      exact Nat.succ_ne_zero n (someSha_inj hn)
    · exact absurd (someSha_inj (mem_singleton.mp hmem)) (by decide)
  · rw [length_cons, length_map, length_range]
    rfl
  · rw [← hlist]
    exact not_mem_someShas _

end Workbay.Codemap
