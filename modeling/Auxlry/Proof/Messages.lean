import Auxlry.Spec.Messages

/-!
# Recent messages

The recent messages of a channel should be the last ones inserted there, oldest first:
they become the chat history of the model. The query sorts by a time in whole seconds.

* `getRecentMessages_iff`: **the exact condition** on the inserts under which they are.
* `burst_reversed`: two messages of one second may come back in the wrong order, and the
  limit may drop the later one.
-/

namespace Auxlry

/-- The call inserts its message. -/
def InsertCall.Inserts (m : InsertCall) : Prop :=
  m.queryOk = true ∧ (m.direction = "inbound" ∨ m.direction = "outbound")

instance (m : InsertCall) : Decidable m.Inserts := by unfold InsertCall.Inserts; infer_instance

def InsertCall.message (m : InsertCall) : StoredMessage := ⟨m.author, m.content, m.direction, m.now⟩

/-- The messages that a sequence of calls inserts for an interface and a channel. -/
def inserted (calls : List InsertCall) (interface channel : String) : List StoredMessage :=
  (calls.filter fun m => m.Inserts ∧ m.interface = interface ∧ m.channel = channel).map InsertCall.message

namespace MessageTable

/-- The table holds what was inserted, in that order. -/
theorem stored_insertAll (t : MessageTable) (calls : List InsertCall) (interface channel : String) :
    ((t.insertAll calls).select interface channel).map MessageRow.stored =
      (t.select interface channel).map MessageRow.stored ++ inserted calls interface channel := by
  induction calls generalizing t with
  | nil => simp [insertAll, inserted]
  | cons m calls ih =>
    have hcons : t.insertAll (m :: calls) = ((t.insertMessage m).toOption.getD t).insertAll calls := rfl
    rw [hcons, ih]
    by_cases hm : m.Inserts
    · have hinsert : t.insertMessage m = .ok ⟨t.rows ++
          [⟨t.seq + 1, m.interface, m.channel, m.author, m.content, m.direction, m.now⟩], t.seq + 1⟩ := if_pos hm
      rw [hinsert]
      by_cases hmatch : m.interface = interface ∧ m.channel = channel
      · simp [select, inserted, hm, hmatch, Except.toOption, MessageRow.stored, InsertCall.message]
      · simp [select, inserted, hm, hmatch, Except.toOption]
    · have hinsert : t.insertMessage m = .error "failed to insert message" := if_neg hm
      rw [hinsert]
      simp [inserted, hm, Except.toOption]

/-- **The exact condition** for the recent messages to be the last ones inserted, oldest
first, whatever order the database gives to rows of the same second: each of the last
`limit` messages was inserted in a later second than all before it, or repeats them. -/
theorem getRecentMessages_iff (calls : List InsertCall) (interface channel : String) (limit : ℕ) :
    (∀ rows, (empty.insertAll calls).Answers interface channel limit rows →
        getRecentMessages rows = (inserted calls interface channel).rtake limit) ↔
      Sql.Newest StoredMessage.createdAt (inserted calls interface channel) limit := by
  have hstored := stored_insertAll empty calls interface channel
  rw [show (empty.select interface channel).map MessageRow.stored = [] from rfl, List.nil_append] at hstored
  rw [← hstored, ← Sql.newest_iff MessageRow.stored StoredMessage.createdAt]
  have hlimit : ∀ order : List MessageRow,
      (if (limit : ℤ) < 0 then order else order.take (limit : ℤ).toNat) = order.take limit := by
    intro order
    rw [if_neg (by omega), Int.toNat_natCast]
  constructor
  · intro h order horder
    exact h _ ⟨order, horder, (hlimit order).symm⟩
  · rintro h rows ⟨order, horder, rfl⟩
    rw [hlimit]
    exact h order horder

/-- Two messages of one second. -/
def burst : List InsertCall :=
  [⟨"discord", "1", "a", "first", "inbound", 0, true⟩, ⟨"discord", "1", "a", "second", "inbound", 0, true⟩]

/-- **A burst comes back reversed**, and with a limit of one its last message is missing. -/
theorem burst_reversed :
    (∃ rows, (empty.insertAll burst).Answers "discord" "1" 2 rows ∧
      (getRecentMessages rows).map StoredMessage.content = ["second", "first"]) ∧
    ((inserted burst "discord" "1").rtake 2).map StoredMessage.content = ["first", "second"] ∧
    (∃ rows, (empty.insertAll burst).Answers "discord" "1" 1 rows ∧
      (getRecentMessages rows).map StoredMessage.content = ["first"]) ∧
    ((inserted burst "discord" "1").rtake 1).map StoredMessage.content = ["second"] := by
  have horder : Sql.OrderBy MessageRow.createdAt ((empty.insertAll burst).select "discord" "1")
      [⟨1, "discord", "1", "a", "first", "inbound", 0⟩, ⟨2, "discord", "1", "a", "second", "inbound", 0⟩] :=
    ⟨by decide, by decide⟩
  exact ⟨⟨_, ⟨_, horder, rfl⟩, rfl⟩, rfl, ⟨_, ⟨_, horder, rfl⟩, rfl⟩, rfl⟩

end MessageTable

end Auxlry
