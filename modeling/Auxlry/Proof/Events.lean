import Auxlry.Spec.Events
import Auxlry.Time.Rfc3339
import Mathlib.Data.List.Perm.Basic
import Mathlib.Data.Set.List

/-!
# Recent events

The query for the recent events sorts texts. Texts of times sort as the times do, so it
returns the latest events, and each as it was inserted.

* `table_eq`: what the table holds.
* `recentEvents_latest`: **the latest events**, newest first and unchanged.
-/

namespace Auxlry.EventCodec

open Time

variable {P : Type} {c : EventCodec P}

/-- What the log relies on: JSON texts read as what they were written for, a time is written
in UTC with no, three, six or nine digits of a fraction, and texts of UTC times read as what
they denote. -/
structure Faithful (c : EventCodec P) : Prop where
  json : ∀ p, ∃ s, c.toJson p = some s ∧ c.fromJson s = some p
  writes : ∀ t, c.toRfc3339 t = t.text
  reads : ∀ s t, Denotes s t → c.parseFromRfc3339 s = some t

/-- The row of an event. -/
def row (c : EventCodec P) (e : Event P) : EventRow :=
  ⟨e.id, c.kind e.payload, (c.toJson e.payload).getD "", c.toRfc3339 e.timestamp⟩

/-- The events of the calls whose statements succeed. -/
def inserted (calls : List (Event P × Bool)) : List (Event P) := (calls.filter (·.2)).map (·.1)

/-! ## The table -/

theorem insertEvent_row (hc : c.Faithful) (t : List EventRow) (e : Event P) {queryOk : Bool}
    (hfresh : ∀ r ∈ t, r.id ≠ e.id) :
    (c.insertEvent t e queryOk).toOption.getD t = if queryOk then t ++ [c.row e] else t := by
  obtain ⟨s, hs, -⟩ := hc.json e.payload
  unfold insertEvent row
  rw [hs]
  cases queryOk with
  | true => simp only [true_and, if_pos hfresh]; rfl
  | false => simp only [Bool.false_eq_true, false_and, if_false]; rfl

/-- Inserting events with new ids. -/
theorem insertAll_eq (hc : c.Faithful) (t : List EventRow) (calls : List (Event P × Bool))
    (hids : (t.map (·.id) ++ calls.map (·.1.id)).Nodup) :
    c.insertAll t calls = t ++ (inserted calls).map c.row := by
  induction calls generalizing t with
  | nil => exact (List.append_nil t).symm
  | cons call calls ih =>
    have hfresh : ∀ r ∈ t, r.id ≠ call.1.id := fun r hr he =>
      (List.nodup_append.1 hids).2.2 _ (List.mem_map_of_mem hr) _ (List.mem_cons_self ..) he
    unfold insertAll at ih ⊢
    rw [List.foldl_cons, insertEvent_row hc t call.1 hfresh]
    unfold inserted
    cases hq : call.2 with
    | true =>
      rw [if_pos rfl, ih, List.filter_cons_of_pos hq, List.append_assoc]
      · rfl
      · rwa [List.map_append, List.append_assoc]
    | false =>
      rw [if_neg (by decide), ih, List.filter_cons_of_neg (by rw [hq]; decide)]
      · rfl
      · exact hids.sublist ((List.sublist_cons_self ..).append_left _)

/-- **What the table holds**: a row for each event that was inserted. -/
theorem table_eq (hc : c.Faithful) {calls : List (Event P × Bool)} (hids : (calls.map (·.1.id)).Nodup) :
    c.insertAll [] calls = (inserted calls).map c.row := insertAll_eq hc [] calls hids

/-- **A row reads** as the event it was written for. -/
theorem readRow_row (hc : c.Faithful) (e : Event P) : c.readRow (c.row e) = some e := by
  obtain ⟨s, hs, hread⟩ := hc.json e.payload
  have htime : c.parseFromRfc3339 (c.toRfc3339 e.timestamp) = some e.timestamp :=
    hc.reads _ _ (hc.writes e.timestamp ▸ denotes_text e.timestamp)
  simp only [readRow, row, hs, Option.getD_some, hread, htime, Option.bind_some, Option.map_some]

theorem recentEvents_map (hc : c.Faithful) (es : List (Event P)) : c.recentEvents (es.map c.row) = some es := by
  unfold recentEvents
  induction es with
  | nil => rfl
  | cons e es ih => simp only [List.map_cons, List.mapM_cons, readRow_row hc, ih]; rfl

/-! ## The query -/

/-- **The latest events.** For every sequence of insertions and every answer of the query,
the events that are returned and the rest make up what was inserted, and none of the rest is
later; and the texts of times sort as the times. -/
theorem recentEvents_latest (hc : c.Faithful) (calls : List (Event P × Bool))
    (hids : (calls.map (·.1.id)).Nodup) {limit : ℤ} (hlimit : 0 ≤ limit) {rows : List EventRow}
    (hrows : Answers (c.insertAll [] calls) limit rows) :
    (∀ t u, c.toRfc3339 t < c.toRfc3339 u ↔ t < u) ∧
    ∃ events rest, c.recentEvents rows = some events ∧ (events ++ rest).Perm (inserted calls) ∧
      events.length = min limit.toNat (inserted calls).length ∧
      events.Pairwise (fun x y => y.timestamp ≤ x.timestamp) ∧
      ∀ x ∈ events, ∀ y ∈ rest, y.timestamp ≤ x.timestamp := by
  refine ⟨fun t u => by rw [hc.writes, hc.writes, DateTime.text_lt_iff], ?_⟩
  obtain ⟨order, ⟨hperm, hpair⟩, rfl⟩ := hrows
  rw [table_eq hc hids] at hperm
  -- the order is one of the rows of events
  have hinj : Function.Injective c.row := fun x y h =>
    Option.some.inj ((readRow_row hc x).symm.trans (h ▸ readRow_row hc y))
  obtain ⟨es, rfl⟩ : ∃ es : List (Event P), es.map c.row = order := by
    have hmem : order ∈ {l | ∀ r ∈ l, r ∈ Set.range c.row} := fun r hr => by
      obtain ⟨e, -, he⟩ := List.mem_map.1 (hperm.subset hr)
      exact ⟨e, he⟩
    rwa [← Set.range_list_map] at hmem
  have hes : es.Perm (inserted calls) := (List.map_perm_map_iff hinj).1 hperm
  have hsorted : es.Pairwise (fun x y => y.timestamp ≤ x.timestamp) := by
    refine (List.pairwise_map.1 hpair).imp fun {x y} h => ?_
    have h : c.toRfc3339 y.timestamp ≤ c.toRfc3339 x.timestamp := h
    rwa [hc.writes, hc.writes, DateTime.text_le_iff] at h
  rw [if_neg (Int.not_lt.2 hlimit), ← List.map_take, recentEvents_map hc]
  rw [← List.take_append_drop limit.toNat es] at hsorted
  obtain ⟨hfirst, -, hrest⟩ := List.pairwise_append.1 hsorted
  refine ⟨es.take limit.toNat, es.drop limit.toNat, rfl, ?_, ?_, hfirst, hrest⟩
  · rwa [List.take_append_drop]
  · rw [List.length_take, hes.length_eq]

/-! ## Two events -/

/-- Payloads of one bit, and times as RFC 3339 has them. -/
def bits : EventCodec Bool where
  kind := fun _ => "bit"
  toJson := fun b => some (if b then "true" else "false")
  fromJson := fun s => if s = "true" then some true else if s = "false" then some false else none
  toRfc3339 := DateTime.text
  parseFromRfc3339 := readUtc

theorem faithful_bits : bits.Faithful where
  json := fun b => by cases b <;> exact ⟨_, rfl, by decide⟩
  writes := fun _ => rfl
  reads := fun _ _ => reads_readUtc

/-- Two events of one second, the later one with a fraction. -/
def twoEvents : List (Event Bool × Bool) :=
  [(⟨"b", ⟨2024, 2, 29, 23, 59, 5, 123000000, by decide⟩, true⟩, true),
   (⟨"a", ⟨2024, 2, 29, 23, 59, 5, 0, by decide⟩, false⟩, true)]

/-- One of the two. -/
theorem recentEvents_latest_twoEvents : ∃ rows events, Answers (bits.insertAll [] twoEvents) 1 rows ∧
    bits.recentEvents rows = some events ∧ events.length = 1 := by
  obtain ⟨order, horder⟩ := Sql.exists_orderBy EventRow.createdAt (bits.insertAll [] twoEvents)
  have hanswers : Answers (bits.insertAll [] twoEvents) 1 (order.take 1) := ⟨order, horder, rfl⟩
  obtain ⟨-, events, rest, hread, -, hlen, -⟩ :=
    recentEvents_latest faithful_bits twoEvents (by decide) (show 0 ≤ 1 by decide) hanswers
  exact ⟨_, events, hanswers, hread, hlen⟩

end Auxlry.EventCodec
