import Workbay.Completion.Proofs.AttentionProofs
import Workbay.Data.Keyset

/-!
# Reading the inbox

The pages of an inbox are a listing of the pending events in their sequence. An event that is
pending when the reading starts and when it ends was pending in between, so it is listed.
-/

namespace Workbay.Completion

open Effects List

variable {host : AttentionHost} {s : AttentionStore} {taskRef : String}

variable {rounds : List (List AttentionCall × Int)} {e e' : EventRow}

theorem EventsKept.trans {a b c : List EventRow} (h : EventsKept a b) (h' : EventsKept b c) :
    EventsKept a c := by
  intro e he
  obtain ⟨e', he', hkept⟩ := h e he
  obtain ⟨e'', he'', hkept'⟩ := h' e' he'
  exact ⟨e'', he'', hkept.trans hkept'⟩

theorem Kept.pending (h : Kept e e') (hpending : e'.pending = true) : e.pending = true := by
  by_contra hnot
  have hres := (h.resolved (Bool.not_eq_true _ ▸ hnot)).1
  rw [hpending] at hres
  cases hres

theorem sequence_of_id {stores : List AttentionStore}
    (hkept : stores.Pairwise fun a b => EventsKept a.events b.events)
    (hinv : ∀ store ∈ stores, EventsInv store.events) {a b : AttentionStore} (ha : a ∈ stores)
    (hb : b ∈ stores) {x y : EventRow} (hx : x ∈ a.events) (hy : y ∈ b.events)
    (hid : x.eventId = y.eventId) : x.eventSequence = y.eventSequence := by
  have hpairs : stores.Pairwise fun a b => ∀ x ∈ a.events, ∀ y ∈ b.events,
      x.eventId = y.eventId → x.eventSequence = y.eventSequence := by
    refine hkept.imp_of_mem fun {a b} _ hb hab x hx y hy hid => ?_
    obtain ⟨x', hx', hxkept⟩ := hab x hx
    have hsame : x' = y := (hinv b hb).eq_of_id hx' hy (hxkept.eventId.trans hid)
    rw [← hsame, hxkept.eventSequence]
  have hself : ∀ a ∈ stores, ∀ x ∈ a.events, ∀ y ∈ a.events,
      x.eventId = y.eventId → x.eventSequence = y.eventSequence := by
    intro a ha x hx y hy hid
    rw [(hinv a ha).eq_of_id hx hy hid]
  exact List.Pairwise.forall_of_forall_of_flip hself hpairs
    (hpairs.imp fun {a b} h x hx y hy hid => (h y hy x hx hid.symm).symm) ha hb x hx y hy hid

/-- The events that the pages list, as they were in the stores that the pages were read in. -/
structure Listed (taskRef : String) (pages : List (AttentionStore × CompletionAttention))
    (rows : List EventRow) : Prop where
  items : pages.flatMap (fun p => p.2.events) = rows.map EventRow.item
  ordered : rows.Pairwise fun a b => a.eventSequence < b.eventSequence
  pending : ∀ row ∈ rows, row.pending = true ∧ row.receipt.taskRef = taskRef
  stored : ∀ row ∈ rows, ∃ p ∈ pages, row ∈ p.1.events

theorem Listed.nodup {pages : List (AttentionStore × CompletionAttention)} {rows : List EventRow}
    (h : Listed taskRef pages rows)
    (hkept : (pages.map Prod.fst).Pairwise fun a b => EventsKept a.events b.events)
    (hinv : ∀ store ∈ pages.map Prod.fst, EventsInv store.events) :
    (rows.map EventRow.eventId).Nodup := by
  refine pairwise_map.mpr (h.ordered.imp_of_mem fun {a b} ha hb hab hid => ?_)
  obtain ⟨p, hp, hpa⟩ := h.stored a ha
  obtain ⟨q, hq, hqb⟩ := h.stored b hb
  have heq : a.eventSequence = b.eventSequence :=
    sequence_of_id hkept hinv (mem_map_of_mem hp) (mem_map_of_mem hq) hpa hqb hid
  omega

theorem Listed.ids {pages : List (AttentionStore × CompletionAttention)} {rows : List EventRow}
    (h : Listed taskRef pages rows) :
    (pages.flatMap fun p => p.2.events).map AttentionItem.eventId = rows.map EventRow.eventId := by
  rw [h.items, map_map]
  rfl

end Workbay.Completion
