import Mathlib.Data.List.Nodup
import Workbay.Events.Log

/-!
# Delivery of lane events

An event that a consumer has not acknowledged stays in the log if the consumer has a stored offset,
because the watermark of a compaction is at most every stored offset. A consumer that has none is
not among those that the watermark is taken over.
-/

namespace Workbay.Events

open Effects List

namespace EventLog

@[simp] theorem consumerOffset_raiseOffset_self (log : EventLog) (c : String) (upto : Int)
    (now : String) :
    (log.raiseOffset c upto now).consumerOffset c = max (log.consumerOffset c) upto.toNat := by
  simp [consumerOffset, raiseOffset]

theorem consumerOffset_raiseOffset_of_ne (log : EventLog) {c d : String} (h : d ≠ c) (upto : Int)
    (now : String) : (log.raiseOffset c upto now).consumerOffset d = log.consumerOffset d := by
  simp only [consumerOffset, raiseOffset, Dict.get?_set_of_ne _ _ h]

/-- A consumer has a stored offset. -/
def IsStored (log : EventLog) (c : String) : Prop := (log.consumers.get? c).isSome

theorem watermark_le {log : EventLog} {c : String} {w : Nat} (hw : log.watermark = some w)
    (hc : log.IsStored c) : w ≤ log.consumerOffset c := by
  obtain ⟨row, hrow⟩ := Option.isSome_iff_exists.mp hc
  have hmem : row.lastEventId ∈ log.consumers.map fun c => c.2.lastEventId :=
    mem_map.mpr ⟨(c, row), Dict.mem_of_get? hrow, rfl⟩
  have hmin := (min?_eq_some_iff.mp hw).2
  unfold consumerOffset
  rw [hrow]
  exact hmin _ hmem

theorem mem_pending {log : EventLog} {c : String} {row : LaneEvent} :
    row ∈ log.pending c ↔ row ∈ log.events ∧ log.consumerOffset c < row.id := by
  simp [pending]

end EventLog

/-- A call acknowledges an id for a consumer. -/
def Call.Acknowledges (c : String) (id : Nat) : Call → Prop
  | .ack consumer (some upto) _ =>
    Text.strip consumer = c ∧ inRange upto = true ∧ (id : Int) ≤ upto
  | _ => False

/-- A compaction finds a row to delete. -/
def Compaction.Selects (k : Compaction) (log : EventLog) (row : LaneEvent) : Prop :=
  ∃ limit w cutoff, k.deleteLimit = .ok limit ∧ 0 < limit ∧ inRange limit = true ∧
    log.watermark = some w ∧ k.cutoff = some cutoff ∧
    log.isExpired w cutoff k.keepTerminal row = true

/-- A call that compacts finds the consumer among the stored ones, or no row to delete. -/
def Call.Spares (c : String) (log : EventLog) : Call → Prop
  | .compact k => log.IsStored c ∨ ∀ row ∈ log.events, ¬ k.Selects log row
  | _ => True

theorem requireText_ok {value field text : String} (h : requireText value field = .ok text) :
    text = Text.strip value ∧ text ≠ "" := by
  unfold requireText at h
  split at h
  · cases h
  · rename_i hne
    cases h
    exact ⟨rfl, hne⟩

theorem appendLaneEvent_cases (a : Append) (now : String) (gap : Nat) (log : EventLog) :
    (∀ row ∈ log.events, row ∈ (appendLaneEvent a now gap log).1.events) ∧
    (appendLaneEvent a now gap log).1.consumers = log.consumers := by
  have hinsert : ∀ key payloadJson,
      (∀ row ∈ log.events, row ∈ (log.insertOrIgnore key payloadJson now gap).events) ∧
      (log.insertOrIgnore key payloadJson now gap).consumers = log.consumers := by
    intro key payloadJson
    unfold EventLog.insertOrIgnore
    split
    · exact ⟨fun row hrow => mem_append_left _ hrow, rfl⟩
    · exact ⟨fun row hrow => hrow, rfl⟩
  unfold appendLaneEvent
  split
  · exact ⟨fun row hrow => hrow, rfl⟩
  · exact ⟨fun row hrow => hrow, rfl⟩
  · split
    · exact hinsert _ _
    · exact hinsert _ _

theorem ackLaneEvents_cases (consumer : String) (uptoId : Option Int) (now : String)
    (log : EventLog) :
    (ackLaneEvents consumer uptoId now log).1 = log ∨
    ∃ upto, uptoId = some upto ∧ inRange upto = true ∧
      (ackLaneEvents consumer uptoId now log).1 =
        log.raiseOffset (Text.strip consumer) upto now := by
  unfold ackLaneEvents
  split
  · exact .inl rfl
  · exact .inl rfl
  · rename_i name target hname htarget
    split
    · rename_i hrange
      refine .inr ⟨target, ?_, hrange, by rw [(requireText_ok hname).1]⟩
      cases uptoId with
      | none => cases htarget
      | some upto =>
        cases htarget
        rfl
    · exact .inl rfl

theorem compactLaneEvents_cases (k : Compaction) (log : EventLog) :
    ((compactLaneEvents k log).1 = log ∧ ∀ row ∈ log.events, ¬ k.Selects log row) ∨
    ∃ limit w cutoff, k.deleteLimit = .ok limit ∧ 0 < limit ∧ inRange limit = true ∧
      log.watermark = some w ∧ k.cutoff = some cutoff ∧
      (compactLaneEvents k log).1 = log.delete (log.expired k w cutoff limit.toNat) := by
  unfold compactLaneEvents
  split
  · rename_i e hlimit
    refine .inl ⟨rfl, ?_⟩
    rintro row - ⟨limit, -, -, hok, -⟩
    rw [hlimit] at hok
    cases hok
  · rename_i limit hlimit
    split
    · rename_i hle
      refine .inl ⟨rfl, ?_⟩
      rintro row - ⟨limit', -, -, hok, hpos, -⟩
      rw [hlimit] at hok
      cases hok
      omega
    · rename_i hpos
      split
      · rename_i hmark
        refine .inl ⟨rfl, ?_⟩
        rintro row - ⟨-, w, -, -, -, -, hw, -⟩
        rw [hmark] at hw
        cases hw
      · rename_i hmark
        refine .inl ⟨rfl, ?_⟩
        rintro row hrow ⟨_, w, _, -, -, -, hw, -, hexp⟩
        rw [hmark] at hw
        cases hw
        have hid := (log.bounded row hrow).1
        simp only [EventLog.isExpired, Bool.and_eq_true, decide_eq_true_eq] at hexp
        omega
      · rename_i watermark _ hmark
        split
        · rename_i hcut
          refine .inl ⟨rfl, ?_⟩
          rintro row - ⟨-, -, cutoff, -, -, -, -, hc, -⟩
          rw [hcut] at hc
          cases hc
        · rename_i cutoff hcut
          split
          · rename_i hrange
            exact .inr ⟨limit, watermark, cutoff, hlimit, by omega, hrange, hmark, hcut, rfl⟩
          · rename_i hrange
            refine .inl ⟨rfl, ?_⟩
            rintro row - ⟨limit', -, -, hok, -, hr, -⟩
            rw [hlimit] at hok
            cases hok
            exact absurd hr hrange

theorem consumers_compact (k : Compaction) (log : EventLog) :
    (compactLaneEvents k log).1.consumers = log.consumers := by
  rcases compactLaneEvents_cases k log with ⟨hsame, -⟩ | ⟨limit, w, cutoff, -, -, -, -, -, hdel⟩
  · rw [hsame]
  · rw [hdel]
    rfl

theorem EventLog.eq_of_id {log : EventLog} {a b : LaneEvent} (ha : a ∈ log.events)
    (hb : b ∈ log.events) (h : a.id = b.id) : a = b := by
  have hnodup : (log.events.map (·.id)).Nodup := by
    rw [List.Nodup, pairwise_map]
    exact log.sorted.imp fun hlt => Nat.ne_of_lt hlt
  exact inj_on_of_nodup_map hnodup ha hb h

theorem selects_of_deleted {k : Compaction} {log : EventLog} {row : LaneEvent}
    (hrow : row ∈ log.events) (hnot : row ∉ (compactLaneEvents k log).1.events) :
    k.Selects log row := by
  rcases compactLaneEvents_cases k log with
    ⟨hsame, -⟩ | ⟨limit, w, cutoff, hlimit, hpos, hrange, hmark, hcut, hdel⟩
  · rw [hsame] at hnot
    exact absurd hrow hnot
  · have hin : row.id ∈ log.expired k w cutoff limit.toNat := by
      by_contra hout
      rw [hdel] at hnot
      exact hnot (mem_filter.mpr ⟨hrow, by simpa using hout⟩)
    obtain ⟨e, he, hid⟩ := mem_map.mp hin
    obtain ⟨hmem, hexp⟩ := mem_filter.mp (mem_of_mem_take he)
    have heq : e = row := EventLog.eq_of_id hmem hrow hid
    rw [heq] at hexp
    exact ⟨limit, w, cutoff, hlimit, hpos, hrange, hmark, hcut, hexp⟩

theorem deleted_of_selects {k : Compaction} {log : EventLog} {row : LaneEvent}
    (hrow : row ∈ log.events) (h : k.Selects log row) :
    ∃ e ∈ log.events, e ∉ (compactLaneEvents k log).1.events := by
  rcases compactLaneEvents_cases k log with
    ⟨-, hnone⟩ | ⟨limit, w, cutoff, hlimit, hpos, -, hmark, hcut, hdel⟩
  · exact absurd h (hnone row hrow)
  · obtain ⟨limit', w', cutoff', hlimit', -, -, hmark', hcut', hexp⟩ := h
    rw [hmark] at hmark'
    rw [hcut] at hcut'
    cases hmark'
    cases hcut'
    have hfound : row ∈ log.events.filter (log.isExpired w cutoff k.keepTerminal) :=
      mem_filter.mpr ⟨hrow, hexp⟩
    have htake : (log.events.filter (log.isExpired w cutoff k.keepTerminal)).take
        limit.toNat ≠ [] := by
      rw [Ne, take_eq_nil_iff, not_or]
      exact ⟨by omega, ne_nil_of_mem hfound⟩
    obtain ⟨e, he⟩ := exists_mem_of_ne_nil _ htake
    refine ⟨e, (mem_filter.mp (mem_of_mem_take he)).1, fun hin => ?_⟩
    rw [hdel] at hin
    have hnot := (mem_filter.mp hin).2
    have hexpired : e.id ∈ log.expired k w cutoff limit.toNat := mem_map.mpr ⟨e, he, rfl⟩
    simp [hexpired] at hnot

theorem next_eq (log : EventLog) (call : Call) : machine.next log call = (call.run log).1 := rfl

variable {c : String} {calls : List Call}

theorem isStored_next {log : EventLog} (h : log.IsStored c) (call : Call) :
    (machine.next log call).IsStored c := by
  rw [next_eq]
  cases call with
  | append a now gap =>
    have hcons := (appendLaneEvent_cases a now gap log).2
    show (Dict.get? (appendLaneEvent a now gap log).1.consumers c).isSome
    rw [hcons]
    exact h
  | read consumer limit => exact h
  | ack consumer uptoId now =>
    show ((ackLaneEvents consumer uptoId now log).1).IsStored c
    rcases ackLaneEvents_cases consumer uptoId now log with hsame | ⟨upto, -, -, hraise⟩
    · rw [hsame]
      exact h
    · rw [hraise]
      by_cases hc : c = Text.strip consumer
      · subst hc
        simp [EventLog.IsStored, EventLog.raiseOffset]
      · simp only [EventLog.IsStored, EventLog.raiseOffset, Dict.get?_set_of_ne _ _ hc]
        exact h
  | compact k =>
    show (Dict.get? (compactLaneEvents k log).1.consumers c).isSome
    rw [consumers_compact]
    exact h

theorem consumerOffset_next_lt {log : EventLog} {id : Nat} {call : Call}
    (h : log.consumerOffset c < id) (hnot : ¬ call.Acknowledges c id) :
    (machine.next log call).consumerOffset c < id := by
  rw [next_eq]
  have hsame : ∀ log' : EventLog, log'.consumers = log.consumers → log'.consumerOffset c < id := by
    intro log' hcons
    unfold EventLog.consumerOffset
    rw [hcons]
    exact h
  cases call with
  | append a now gap => exact hsame _ (appendLaneEvent_cases a now gap log).2
  | read consumer limit => exact h
  | compact k => exact hsame _ (consumers_compact k log)
  | ack consumer uptoId now =>
    show (ackLaneEvents consumer uptoId now log).1.consumerOffset c < id
    rcases ackLaneEvents_cases consumer uptoId now log with hlog | ⟨upto, hupto, hrange, hraise⟩
    · rw [hlog]
      exact h
    · rw [hraise]
      by_cases hc : c = Text.strip consumer
      · subst hc
        rw [EventLog.consumerOffset_raiseOffset_self]
        subst hupto
        have hlt : ¬ (id : Int) ≤ upto := fun hle => hnot ⟨rfl, hrange, hle⟩
        omega
      · rw [EventLog.consumerOffset_raiseOffset_of_ne _ hc]
        exact h

theorem pending_next {log : EventLog} {row : LaneEvent} {call : Call} (h : row ∈ log.pending c)
    (hnot : ¬ call.Acknowledges c row.id) (hspares : call.Spares c log) :
    row ∈ (machine.next log call).pending c := by
  obtain ⟨hrow, hoffset⟩ := EventLog.mem_pending.mp h
  refine EventLog.mem_pending.mpr ⟨?_, consumerOffset_next_lt hoffset hnot⟩
  rw [next_eq]
  cases call with
  | append a now gap => exact (appendLaneEvent_cases a now gap log).1 row hrow
  | read consumer limit => exact hrow
  | ack consumer uptoId now =>
    show row ∈ (ackLaneEvents consumer uptoId now log).1.events
    rcases ackLaneEvents_cases consumer uptoId now log with hlog | ⟨upto, -, -, hraise⟩
    · rw [hlog]
      exact hrow
    · rw [hraise]
      exact hrow
  | compact k =>
    show row ∈ (compactLaneEvents k log).1.events
    by_contra hdeleted
    have hselects := selects_of_deleted hrow hdeleted
    rcases hspares with hstored | hnone
    · obtain ⟨_, w, _, -, -, -, hmark, -, hexp⟩ := hselects
      have hle := EventLog.watermark_le hmark hstored
      simp only [EventLog.isExpired, Bool.and_eq_true, decide_eq_true_eq] at hexp
      omega
    · exact hnone row hrow hselects

/-- An event that was in the log and was not acknowledged is pending wherever a run leads to, and
each read returns it or as many earlier ones as it returns at most. -/
def Delivers (c : String) (calls : List Call) : Prop :=
  ∀ before rest after, calls = before ++ rest ++ after →
    ∀ row ∈ (machine.run .empty before).events,
      (∀ call ∈ before ++ rest, ¬ call.Acknowledges c row.id) →
      row ∈ (machine.run .empty (before ++ rest)).pending c ∧
      ∀ consumer limit, Text.strip consumer = c →
        ∃ page, readLaneEvents consumer (some limit)
            (machine.run .empty (before ++ rest)) = .ok page ∧
          (row ∈ page ∨ page.length = clampReadLimit limit ∧ ∀ e ∈ page, e.id < row.id)

theorem read_pending {log : EventLog} {consumer : String} {row : LaneEvent} (limit : Int)
    (hc : Text.strip consumer ≠ "") (h : row ∈ log.pending (Text.strip consumer)) :
    ∃ page, readLaneEvents consumer (some limit) log = .ok page ∧
      (row ∈ page ∨ page.length = clampReadLimit limit ∧ ∀ e ∈ page, e.id < row.id) := by
  refine ⟨(log.pending (Text.strip consumer)).take (clampReadLimit limit), ?_, ?_⟩
  · unfold readLaneEvents requireText requireInt
    rw [if_neg hc]
    rfl
  · have hsorted : (log.pending (Text.strip consumer)).Pairwise fun a b => a.id < b.id :=
      log.sorted.filter _
    have hsplit : row ∈ (log.pending (Text.strip consumer)).take (clampReadLimit limit) ∨
        row ∈ (log.pending (Text.strip consumer)).drop (clampReadLimit limit) := by
      rw [← mem_append, take_append_drop]
      exact h
    rcases hsplit with htake | hdrop
    · exact .inl htake
    · right
      have hlt : clampReadLimit limit < (log.pending (Text.strip consumer)).length := by
        by_contra hge
        rw [drop_eq_nil_of_le (by omega)] at hdrop
        cases hdrop
      refine ⟨by rw [length_take]; omega, fun e he => ?_⟩
      rw [← take_append_drop (clampReadLimit limit) (log.pending (Text.strip consumer)),
        pairwise_append] at hsorted
      exact hsorted.2.2 e he row hdrop

theorem pending_run {row : LaneEvent} {log : EventLog} (h : row ∈ log.pending c)
    (hnot : ∀ call ∈ calls, ¬ call.Acknowledges c row.id)
    (hspares : machine.Along (Call.Spares c) log calls) :
    row ∈ (machine.run log calls).pending c := by
  induction calls generalizing log with
  | nil => exact h
  | cons call calls ih =>
    have hfirst := pending_next h (hnot call mem_cons_self) hspares.1
    exact ih hfirst (fun d hd => hnot d (mem_cons_of_mem _ hd)) hspares.2

theorem consumerOffset_run_lt {id : Nat} {log : EventLog} (h : log.consumerOffset c < id)
    (hnot : ∀ call ∈ calls, ¬ call.Acknowledges c id) :
    (machine.run log calls).consumerOffset c < id := by
  induction calls generalizing log with
  | nil => exact h
  | cons call calls ih =>
    exact ih (consumerOffset_next_lt h (hnot call mem_cons_self))
      fun d hd => hnot d (mem_cons_of_mem _ hd)

theorem isStored_run {log : EventLog} (h : log.IsStored c) (calls : List Call) :
    (machine.run log calls).IsStored c :=
  Machine.run_invariant (P := fun log : EventLog => log.IsStored c)
    (fun _ call hc => isStored_next hc call) h calls

theorem isStored_of_acknowledges {id : Nat} {log : EventLog} {call : Call} (hc : c ≠ "")
    (h : call.Acknowledges c id) : (machine.next log call).IsStored c := by
  cases call with
  | append a now gap => exact h.elim
  | read consumer limit => exact h.elim
  | compact k => exact h.elim
  | ack consumer uptoId now =>
    cases uptoId with
    | none => exact h.elim
    | some upto =>
      obtain ⟨hname, hrange, -⟩ := h
      subst hname
      rw [next_eq]
      show (ackLaneEvents consumer (some upto) now log).1.IsStored (Text.strip consumer)
      unfold ackLaneEvents requireText requireInt
      rw [if_neg hc]
      simp only [hrange, if_true]
      simp [EventLog.IsStored, EventLog.raiseOffset]

theorem not_acknowledges_of_not_isStored {log : EventLog} (hc : c ≠ "")
    (h : ¬ (machine.run log calls).IsStored c) (id : Nat) :
    ∀ call ∈ calls, ¬ call.Acknowledges c id := by
  intro call hcall hack
  obtain ⟨before, after, rfl⟩ := append_of_mem hcall
  rw [Machine.run_append, Machine.run_cons] at h
  exact h (isStored_run (isStored_of_acknowledges hc hack) after)

/-- Events are delivered to a consumer in a run if and only if each compaction of the run finds the
consumer among the stored ones or finds no row to delete. -/
theorem delivers_iff {c : String} (hc : c ≠ "") (calls : List Call) :
    Delivers c calls ↔ machine.Along (Call.Spares c) .empty calls := by
  constructor
  · intro h
    rw [Machine.along_iff]
    intro before call after hcalls
    cases call with
    | append a now gap => trivial
    | read consumer limit => trivial
    | ack consumer uptoId now => trivial
    | compact k =>
      by_contra hnot
      obtain ⟨hunstored, hselects⟩ := not_or.mp hnot
      push Not at hselects
      obtain ⟨row, hrow, hselects⟩ := hselects
      obtain ⟨e, he, hdeleted⟩ := deleted_of_selects hrow hselects
      -- Nothing that the consumer did acknowledges the deleted row.
      have hack : ∀ d ∈ before ++ [Call.compact k], ¬ d.Acknowledges c e.id := by
        intro d hd
        rcases mem_append.mp hd with hd | hd
        · exact not_acknowledges_of_not_isStored hc hunstored e.id d hd
        · rw [mem_singleton.mp hd]
          exact id
      have hpending := (h before [.compact k] after (by rw [hcalls, append_assoc]; rfl)
        e he hack).1
      rw [Machine.run_append] at hpending
      exact hdeleted (EventLog.mem_pending.mp hpending).1
  · intro h before rest after hcalls row hrow hack
    rw [hcalls, Machine.along_append, Machine.along_append] at h
    have hbefore : row ∈ (machine.run .empty before).pending c := by
      refine EventLog.mem_pending.mpr ⟨hrow, ?_⟩
      refine consumerOffset_run_lt ?_ fun d hd => hack d (mem_append_left _ hd)
      exact ((machine.run .empty before).bounded row hrow).1
    have hpending : row ∈ (machine.run .empty (before ++ rest)).pending c := by
      rw [Machine.run_append]
      exact pending_run hbefore (fun d hd => hack d (mem_append_right _ hd)) h.1.2
    refine ⟨hpending, fun consumer limit hname => ?_⟩
    subst hname
    exact read_pending limit hc hpending

/-- A run in which every consumer is stored before the first compaction. -/
def storedRun : List Call :=
  [.append { taskRef := "t", laneId := "l", dispatchId := "d", kind := "started" } "2024" 0,
    .ack "b" (some 0) "2024", .ack "a" (some 1) "2024",
    .compact { olderThanDays := some 0, cutoff := some "2025" }]

theorem delivers_iff_sample :
    "b" ≠ "" ∧ (Delivers "b" storedRun ↔ machine.Along (Call.Spares "b") .empty storedRun) :=
  ⟨by decide, delivers_iff (by decide) storedRun⟩

/-- A consumer that has read an event and has acknowledged nothing loses it to a compaction after
another consumer's acknowledgment. -/
def unstoredRun : List Call :=
  [.append { taskRef := "t", laneId := "l", dispatchId := "d", kind := "started" } "2024" 0,
    .read "b" (some 100), .ack "a" (some 1) "2024",
    .compact { olderThanDays := some 0, cutoff := some "2025" }]

theorem unstored_consumer_loses : ¬ Delivers "b" unstoredRun := by
  intro h
  have hrow : (⟨1, ⟨"t", "l", "d", .started⟩, "\x7b\x7d", "2024"⟩ : LaneEvent) ∈
      (machine.run .empty (unstoredRun.take 2)).events := by decide +kernel
  have hpending := (h (unstoredRun.take 2) (unstoredRun.drop 2) [] (by rfl) _ hrow (by
    intro call hcall hack
    have hmem : call ∈ unstoredRun := by simpa using hcall
    simp only [unstoredRun, mem_cons, not_mem_nil, or_false] at hmem
    rcases hmem with rfl | rfl | rfl | rfl
    · exact hack
    · exact hack
    · exact absurd hack.1 (by decide +kernel)
    · exact hack)).1
  exact absurd (EventLog.mem_pending.mp hpending).1 (by decide +kernel)

end Workbay.Events

/-!
## Appending a key again

A key has one row at most, and an append of a key that has a row is answered with that row. Only a
compaction takes the row away, and with it what was known of the key.
-/

namespace Workbay.Events

open Effects

variable {log : EventLog} {key : EventKey} {row : LaneEvent}

namespace EventLog

theorem find?_eq_some (h : log.find? key = some row) : row ∈ log.events ∧ row.key = key := by
  refine ⟨List.mem_of_find?_eq_some h, ?_⟩
  have hkey := List.find?_some h
  exact of_decide_eq_true hkey

theorem eq_of_key {a b : LaneEvent} (ha : a ∈ log.events) (hb : b ∈ log.events)
    (h : a.key = b.key) : a = b := by
  have hnodup : (log.events.map (·.key)).Nodup := by
    rw [List.Nodup, List.pairwise_map]
    exact log.unique
  exact List.inj_on_of_nodup_map hnodup ha hb h

theorem find?_of_mem (h : row ∈ log.events) : log.find? row.key = some row := by
  cases hfind : log.find? row.key with
  | none =>
    have hnone := List.find?_eq_none.mp hfind row h
    exact absurd (decide_eq_true rfl) hnone
  | some found =>
    obtain ⟨hmem, hkey⟩ := find?_eq_some hfind
    rw [eq_of_key hmem h hkey]

theorem exists_insertOrIgnore (log : EventLog) (key : EventKey) (payloadJson now : String)
    (gap : Nat) : ∃ row, (log.insertOrIgnore key payloadJson now gap).find? key = some row := by
  by_cases hnew : ∀ e ∈ log.events, e.key ≠ key
  · have hmem : (⟨log.nextId gap, key, payloadJson, now⟩ : LaneEvent) ∈
        (log.insertOrIgnore key payloadJson now gap).events := by
      rw [insertOrIgnore, dif_pos hnew]
      exact List.mem_append_right _ (List.mem_singleton_self _)
    exact ⟨_, find?_of_mem hmem⟩
  · push Not at hnew
    obtain ⟨e, he, rfl⟩ := hnew
    have hmem : e ∈ (log.insertOrIgnore e.key payloadJson now gap).events := by
      rw [insertOrIgnore, dif_neg (fun hall => hall e he rfl)]
      exact he
    exact ⟨e, find?_of_mem hmem⟩

end EventLog

variable {a b : Append} {payloadJson : String}

theorem appendLaneEvent_eq_ok (hkey : a.key = .ok key) (hpayload : a.payload = .ok payloadJson)
    (now : String) (gap : Nat) (log : EventLog) :
    ∃ row ∈ (appendLaneEvent a now gap log).1.events, row.key = key ∧
      (appendLaneEvent a now gap log).2 = .ok (row.id, (log.find? key).isNone) := by
  obtain ⟨row, hrow⟩ := log.exists_insertOrIgnore key payloadJson now gap
  have happend : appendLaneEvent a now gap log =
      (log.insertOrIgnore key payloadJson now gap, .ok (row.id, (log.find? key).isNone)) := by
    simp only [appendLaneEvent, hkey, hpayload, hrow]
  obtain ⟨hmem, hrowkey⟩ := EventLog.find?_eq_some hrow
  rw [happend]
  exact ⟨row, hmem, hrowkey, rfl⟩

theorem appendLaneEvent_present (hrow : row ∈ log.events) (hkey : b.key = .ok row.key)
    (hpayload : b.payload = .ok payloadJson) (now : String) (gap : Nat) :
    (appendLaneEvent b now gap log).2 = .ok (row.id, false) ∧
      (appendLaneEvent b now gap log).1.events = log.events ∧
      (appendLaneEvent b now gap log).1.consumers = log.consumers := by
  have hinsert : log.insertOrIgnore row.key payloadJson now gap =
      { log with sequence := log.sequence + gap, bounded := log.bounded_burn gap } := by
    rw [EventLog.insertOrIgnore, dif_neg (fun hall => hall row hrow rfl)]
  have hfind := EventLog.find?_of_mem hrow
  have hfind' : (log.insertOrIgnore row.key payloadJson now gap).find? row.key = some row := by
    rw [hinsert]
    exact hfind
  have happend : appendLaneEvent b now gap log =
      (log.insertOrIgnore row.key payloadJson now gap, .ok (row.id, false)) := by
    simp only [appendLaneEvent, hkey, hpayload, hfind', hfind, Option.isNone_some]
  rw [happend, hinsert]
  exact ⟨rfl, rfl, rfl⟩

/-- A compaction of some calls deletes the row with an id. -/
def DeletedBy (id : Nat) (log : EventLog) (calls : List Call) : Prop :=
  ∃ before k after, calls = before ++ Call.compact k :: after ∧
    (∃ row ∈ (machine.run log before).events, row.id = id) ∧
    ∀ row ∈ (machine.run log (before ++ [Call.compact k])).events, row.id ≠ id

theorem mem_next (hrow : row ∈ log.events) {call : Call} (hcall : ∀ k, call ≠ .compact k) :
    row ∈ (machine.next log call).events := by
  rw [next_eq]
  cases call with
  | append a now gap => exact (appendLaneEvent_cases a now gap log).1 row hrow
  | read consumer limit => exact hrow
  | ack consumer uptoId now =>
    show row ∈ (ackLaneEvents consumer uptoId now log).1.events
    rcases ackLaneEvents_cases consumer uptoId now log with hsame | ⟨upto, -, -, hraised⟩
    · rw [hsame]
      exact hrow
    · rw [hraised]
      exact hrow
  | compact k => exact absurd rfl (hcall k)

theorem subset_compact (k : Compaction) (log : EventLog) :
    ∀ row ∈ (compactLaneEvents k log).1.events, row ∈ log.events := by
  intro row hrow
  rcases compactLaneEvents_cases k log with ⟨hsame, -⟩ | ⟨limit, w, cutoff, -, -, -, -, -, hdel⟩
  · rw [hsame] at hrow
    exact hrow
  · rw [hdel] at hrow
    exact (List.mem_filter.mp hrow).1

/-- A row stays, unless a compaction deletes it. -/
theorem mem_run (hrow : row ∈ log.events) (calls : List Call) :
    row ∈ (machine.run log calls).events ∨ DeletedBy row.id log calls := by
  induction calls generalizing log with
  | nil => exact .inl hrow
  | cons call calls ih =>
    by_cases hkept : row ∈ (machine.next log call).events
    · rcases ih hkept with hmem | ⟨before, k, after, rfl, hpresent, hgone⟩
      · exact .inl hmem
      · exact .inr ⟨call :: before, k, after, rfl, hpresent, hgone⟩
    · right
      by_cases hcompact : ∀ k, call ≠ .compact k
      · exact absurd (mem_next hrow hcompact) hkept
      · push Not at hcompact
        obtain ⟨k, rfl⟩ := hcompact
        refine ⟨[], k, calls, rfl, ⟨row, hrow, rfl⟩, fun e he hid => hkept ?_⟩
        have hmem := subset_compact k log e he
        rw [← EventLog.eq_of_id hmem hrow hid]
        exact he

/-- Two appends of a key, with any calls between them: the later one returns the id of the earlier
one, reports nothing inserted and leaves the rows and the offsets, unless a compaction between them
has deleted the row of the key. -/
theorem append_again (ha : a.key = .ok key) (hb : b.key = .ok key) {pa pb : String}
    (hpa : a.payload = .ok pa) (hpb : b.payload = .ok pb) (log : EventLog) (calls : List Call)
    (now now' : String) (gap gap' : Nat) :
    ∃ id inserted, (appendLaneEvent a now gap log).2 = .ok (id, inserted) ∧
      (∀ log', machine.run (appendLaneEvent a now gap log).1 calls = log' →
        ((appendLaneEvent b now' gap' log').2 = .ok (id, false) ∧
          (appendLaneEvent b now' gap' log').1.events = log'.events ∧
          (appendLaneEvent b now' gap' log').1.consumers = log'.consumers) ∨
        DeletedBy id (appendLaneEvent a now gap log).1 calls) := by
  obtain ⟨row, hmem, hkey, hanswer⟩ := appendLaneEvent_eq_ok ha hpa now gap log
  refine ⟨row.id, _, hanswer, ?_⟩
  rintro log' rfl
  rcases mem_run hmem calls with hstays | hdeleted
  · exact .inl (appendLaneEvent_present hstays (hb.trans (by rw [hkey])) hpb now' gap')
  · exact .inr hdeleted

/-- An append of one event. -/
def anAppend : Append := { taskRef := "t", laneId := "l", dispatchId := "d", kind := "started" }

theorem append_again_sample : ∃ id inserted,
    (appendLaneEvent anAppend "2024" 0 .empty).2 = .ok (id, inserted) ∧
      (appendLaneEvent anAppend "2025" 3
        (machine.run (appendLaneEvent anAppend "2024" 0 .empty).1 [.ack "c" (some 7) "2025"])).2 =
        .ok (id, false) := by
  have hkey : anAppend.key = .ok ⟨"t", "l", "d", .started⟩ := by decide +kernel
  obtain ⟨id, inserted, hanswer, hagain⟩ := append_again hkey hkey rfl rfl .empty
    [.ack "c" (some 7) "2025"] "2024" "2025" 0 3
  refine ⟨id, inserted, hanswer, ?_⟩
  rcases hagain _ rfl with hsame | ⟨before, k, after, hcalls, -⟩
  · exact hsame.1
  · have hmem : Call.compact k ∈ [Call.ack "c" (some 7) "2025"] := by
      rw [hcalls]
      exact List.mem_append_right _ List.mem_cons_self
    cases List.mem_singleton.mp hmem

/-- A run that acknowledges an event and compacts it away. -/
def compactedRun : List Call :=
  [.append anAppend "2024" 0, .ack "c" (some 1) "2025",
    .compact { olderThanDays := some 1, cutoff := some "2025" }]

/-- The key of an event that was compacted away is inserted once more, under another id. -/
theorem inserted_twice : ¬ ∀ calls : List Call, ∀ before middle a b now now' gap gap' key,
    calls = before ++ Call.append a now gap :: middle → a.key = .ok key → b.key = .ok key →
    ∀ id, (appendLaneEvent a now gap (machine.run .empty before)).2 = .ok (id, true) →
    ∀ id' inserted, (appendLaneEvent b now' gap' (machine.run .empty calls)).2 =
      .ok (id', inserted) → id' = id ∧ inserted = false := by
  intro hall
  have hagain := hall compactedRun [] _ anAppend anAppend "2024" "2025" 0 0
    ⟨"t", "l", "d", .started⟩ rfl (by decide +kernel) (by decide +kernel) 1 (by decide +kernel) 2
    true (by decide +kernel)
  exact absurd hagain.1 (by decide)

end Workbay.Events
