import Auxlry.Proof.Events
import Auxlry.Spec.Persister
import Auxlry.Sys.Run

/-!
# What is persisted

The persister takes the events off the bus in their order and one at a time. A run of it is
any interleaving of its steps with events that are published, however many and how fast.

* `Invariant.step`, `Invariant.run`: the table holds the events that were inserted, and every
  event published is received, missed, or waits.
* `recentEvents_events`: a query for the recent events returns the latest as they were published.
* `persister_table`: **the log**, from the bus to the query.
-/

namespace Auxlry

open Sys (Accounts Receiver Reaches)

namespace EventCodec

variable {P : Type} {c : EventCodec P}

/-- **The recent events**: the latest of those in the table, each as it was inserted. -/
theorem recentEvents_events (hc : c.Faithful) {es : List (Event P)} {limit : ℤ} (hlimit : 0 ≤ limit)
    {rows : List EventRow} (hrows : Answers (es.map c.row) limit rows) :
    ∃ events rest, c.recentEvents rows = some events ∧ (events ++ rest).Perm es ∧
      events.length = min limit.toNat es.length ∧ events.Pairwise (fun x y => y.timestamp ≤ x.timestamp) ∧
      ∀ x ∈ events, ∀ y ∈ rest, y.timestamp ≤ x.timestamp := by
  obtain ⟨order, horder, rfl⟩ := hrows
  obtain ⟨order, ⟨hperm, hpair⟩, rfl⟩ := horder.exists_map
  have hsorted : order.Pairwise (fun x y => y.timestamp ≤ x.timestamp) := by
    refine hpair.imp fun {x y} h => ?_
    have htext : c.toRfc3339 y.timestamp ≤ c.toRfc3339 x.timestamp := h
    rwa [hc.writes, hc.writes, Time.DateTime.text_le_iff] at htext
  have hsplit := List.take_append_drop limit.toNat order
  rw [← hsplit, List.pairwise_append] at hsorted
  obtain ⟨hfirst, -, hrest⟩ := hsorted
  rw [if_neg (Int.not_lt.2 hlimit), ← List.map_take, recentEvents_map hc]
  refine ⟨order.take limit.toNat, order.drop limit.toNat, rfl, ?_, ?_, hfirst, hrest⟩
  · rwa [hsplit]
  · rw [List.length_take, hperm.length_eq]

end EventCodec

namespace Persister

open EventCodec (row)

variable {P : Type} {c : EventCodec P} {es : List (Event P)} {s s' : Persister P} {act : Action P}

/-- What holds of a persister that found the events `es` in the table, if no two events have
the same id. -/
structure Invariant (c : EventCodec P) (es : List (Event P)) (s : Persister P) : Prop where
  accounts : Accounts busCapacity s.published s.received s.skipped s.rx
  table : ((es ++ s.published).map (·.id)).Nodup → s.table = (es ++ EventCodec.inserted s.handled).map c.row
  ended : s.ended = true → s.inserting = none ∧ s.rx.lost = 0 ∧ s.rx.waiting = [] ∧ s.closed = true

theorem Invariant.spawn : Invariant c es (spawn (es.map c.row)) where
  accounts := .new
  table := fun _ => by rw [Persister.spawn, EventCodec.inserted, List.filter_nil, List.map_nil, List.append_nil]
  ended := fun h => by cases h

theorem inserted_concat (calls : List (Event P × Bool)) (event : Event P) (queryOk : Bool) :
    EventCodec.inserted (calls ++ [(event, queryOk)]) =
      EventCodec.inserted calls ++ if queryOk then [event] else [] := by
  cases queryOk <;> simp [EventCodec.inserted]

/-- The event in hand is in the table under no other's id. -/
theorem Invariant.fresh (h : Invariant c es s) (hids : ((es ++ s.published).map (·.id)).Nodup) {event : Event P}
    (hevent : s.inserting = some event) : ∀ r ∈ s.table, r.id ≠ event.id := by
  have hsub : (es ++ s.received).Sublist (es ++ s.published) := h.accounts.sublist.append_left es
  have hnodup := hids.sublist (hsub.map (·.id))
  rw [received, hevent, Option.toList_some, ← List.append_assoc, List.map_append, List.nodup_append] at hnodup
  intro r hr
  rw [h.table hids] at hr
  obtain ⟨e, he, rfl⟩ := List.mem_map.1 hr
  refine hnodup.2.2 _ (List.mem_map_of_mem ?_) _ (List.mem_map_of_mem (List.mem_singleton.2 rfl))
  rcases List.mem_append.1 he with he | he
  · exact List.mem_append_left _ he
  · obtain ⟨call, hcall, rfl⟩ := List.mem_map.1 he
    exact List.mem_append_right _ (List.mem_map_of_mem (List.mem_of_mem_filter hcall))

/-- **One step** keeps it. -/
theorem Invariant.step (hc : c.Faithful) (h : Invariant c es s) (hstep : s.step c act = some s') :
    Invariant c es s' := by
  cases act with
  | publish event =>
    simp only [Persister.step] at hstep
    split at hstep
    · cases hstep
    · rename_i hopen
      cases hstep
      refine ⟨h.accounts.send (by decide) event, fun hids => h.table (hids.sublist ?_), fun hended => ?_⟩
      · exact ((List.sublist_append_left _ [event]).append_left es).map _
      · exact absurd (h.ended hended).2.2.2 hopen
  | close =>
    cases hstep
    exact ⟨h.accounts, h.table, fun hended => ⟨(h.ended hended).1, (h.ended hended).2.1, (h.ended hended).2.2.1, rfl⟩⟩
  | recv =>
    simp only [Persister.step] at hstep
    split at hstep
    · cases hstep
    rename_i hidle
    obtain ⟨hrunning, hnone⟩ := not_or.1 hidle
    have hnone : s.inserting = none := Option.not_isSome_iff_eq_none.1 hnone
    split at hstep
    · rename_i event rx hrecv
      cases hstep
      refine ⟨?_, h.table, fun hended => absurd hended hrunning⟩
      have hnext := h.accounts.value hrecv
      rwa [received, hnone, Option.toList_none, List.append_nil] at hnext
    · rename_i n rx hrecv
      cases hstep
      exact ⟨h.accounts.lagged hrecv, h.table, fun hended => absurd hended hrunning⟩
    · rename_i hrecv
      split at hstep
      · rename_i hclosed
        cases hstep
        obtain ⟨hlost, hwaiting⟩ := Receiver.recv_none hrecv
        exact ⟨h.accounts, h.table, fun _ => ⟨hnone, hlost, hwaiting, hclosed⟩⟩
      · cases hstep
  | insert queryOk =>
    simp only [Persister.step] at hstep
    obtain ⟨event, hevent, rfl⟩ := Option.map_eq_some_iff.1 hstep
    refine ⟨?_, fun hids => ?_, fun hended => ?_⟩
    · have haccounts := h.accounts
      rw [received, hevent, Option.toList_some] at haccounts
      rwa [received, List.map_append, List.map_singleton, Option.toList_none, List.append_nil]
    · have hrow : (c.insertEvent s.table event queryOk).toOption.getD s.table = if queryOk then _ else _ :=
        EventCodec.insertEvent_row hc s.table event (h.fresh hids hevent)
      dsimp only
      rw [hrow, h.table hids, inserted_concat]
      cases queryOk with
      | true =>
        rw [if_pos rfl, if_pos rfl, ← List.append_assoc]
        show _ ++ [event].map c.row = _
        rw [← List.map_append]
      | false => rw [if_neg Bool.false_ne_true, if_neg Bool.false_ne_true, List.append_nil]
    · have hnone := (h.ended hended).1
      rw [hnone] at hevent
      cases hevent

/-- **A run** keeps it. -/
theorem Invariant.run (hc : c.Faithful) (hs : Reaches (Persister.step c) (Persister.spawn (es.map c.row)) s) :
    Invariant c es s :=
  hs.inv (fun _ _ _ h hstep => h.step hc hstep) .spawn

/-- **The log.** Whatever is published while the persister runs, and whichever statements fail: if no
two events have the same id, the table holds the events of earlier runs and those inserted since, in
their order; every event published was received in its order, was missed by a subscriber a full bus
behind, or waits; and a query for the recent events returns the latest of the table as they were
published. -/
theorem persister_table (hc : c.Faithful) (hs : Reaches (Persister.step c) (.spawn (es.map c.row)) s)
    (hids : ((es ++ s.published).map (·.id)).Nodup) :
    s.table = (es ++ EventCodec.inserted s.handled).map c.row ∧
    s.received.Sublist s.published ∧
    s.published.length = s.received.length + s.skipped + s.rx.lost + s.rx.waiting.length ∧
    (s.skipped = 0 → s.rx.lost = 0 → s.published = s.received ++ s.rx.waiting) ∧
    (s.ended = true → s.published.length = s.handled.length + s.skipped) ∧
    ∀ limit rows, 0 ≤ limit → EventCodec.Answers s.table limit rows →
      ∃ events rest, c.recentEvents rows = some events ∧
        (events ++ rest).Perm (es ++ EventCodec.inserted s.handled) ∧
        events.length = min limit.toNat (es ++ EventCodec.inserted s.handled).length ∧
        events.Pairwise (fun x y => y.timestamp ≤ x.timestamp) ∧
        ∀ x ∈ events, ∀ y ∈ rest, y.timestamp ≤ x.timestamp := by
  have hinv := Invariant.run hc hs
  have htable := hinv.table hids
  refine ⟨htable, hinv.accounts.sublist, hinv.accounts.length_sent, hinv.accounts.received_eq, fun hended => ?_,
    fun limit rows hlimit hrows => EventCodec.recentEvents_events hc hlimit (htable ▸ hrows)⟩
  obtain ⟨hnone, hlost, hwaiting, -⟩ := hinv.ended hended
  have hlen := hinv.accounts.length_sent
  rw [hlost, hwaiting, received, hnone, Option.toList_none, List.append_nil, List.length_map] at hlen
  exact hlen

/-- An event is published while another is inserted, whose statement fails. -/
def twoPublished : List (Action Bool) :=
  [.publish ⟨"a", ⟨2023, 3, 1, 8, 0, 5, 0, by decide⟩, false⟩, .recv,
   .publish ⟨"b", ⟨2023, 3, 1, 8, 0, 6, 0, by decide⟩, true⟩, .insert false, .recv, .insert true]

/-- The other one is persisted. -/
theorem persister_table_twoPublished : ∃ s, Reaches (Persister.step EventCodec.bits) (.spawn []) s ∧
    s.table.map (·.payload) = ["true"] ∧ s.received.length = 2 := by
  have hrun : Sys.run (Persister.step EventCodec.bits) (.spawn []) twoPublished = some _ := rfl
  have hreach : Reaches (Persister.step EventCodec.bits) (.spawn (List.map EventCodec.bits.row [])) _ :=
    ⟨twoPublished, hrun⟩
  obtain ⟨htable, -⟩ := persister_table EventCodec.faithful_bits hreach (by decide)
  exact ⟨_, ⟨twoPublished, hrun⟩, by rw [htable]; rfl, rfl⟩

end Persister

end Auxlry
