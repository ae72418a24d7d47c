import Mathlib.Data.List.Infix

/-!
# Subscribers of a broadcast channel

Every subscriber of a broadcast channel is sent every value. One that is as far behind as
the channel has room loses the oldest value that it has not received, and before it receives
the next it is told how many it has lost.

* `Accounts`: what a subscriber was sent is what it has received, has lost and has to
  receive. Each step keeps it: `Accounts.send`, `Accounts.value`, `Accounts.lagged`.
* `Accounts.received_eq`: a subscriber that lost nothing has received all that does not wait.
-/

namespace Sys

variable {α : Type*}

/-- A subscriber: how many values it lost since it was last told, and those that wait. -/
structure Receiver (α : Type*) where
  lost : ℕ
  waiting : List α

/-- What a subscriber receives. -/
inductive Received (α : Type*)
  | value (x : α)
  | lagged (lost : ℕ)

namespace Receiver

/-- A new subscriber. -/
def new : Receiver α := ⟨0, []⟩

/-- A value is sent, over a channel with room for `capacity` values. -/
def send (capacity : ℕ) (r : Receiver α) (x : α) : Receiver α :=
  if r.waiting.length < capacity then { r with waiting := r.waiting ++ [x] }
  else ⟨r.lost + 1, r.waiting.tail ++ [x]⟩

/-- What is received next, if there is anything. -/
def recv (r : Receiver α) : Option (Received α × Receiver α) :=
  if 0 < r.lost then some (.lagged r.lost, { r with lost := 0 })
  else
    match r.waiting with
    | [] => none
    | x :: rest => some (.value x, { r with waiting := rest })

theorem recv_value {r r' : Receiver α} {x : α} (h : r.recv = some (.value x, r')) :
    r.lost = 0 ∧ r.waiting = x :: r'.waiting ∧ r'.lost = 0 := by
  unfold recv at h
  split at h
  · cases h
  · rename_i hlost
    have hzero : r.lost = 0 := by omega
    split at h
    · cases h
    · rename_i y rest hwaiting
      cases h
      exact ⟨hzero, hwaiting, hzero⟩

theorem recv_lagged {r r' : Receiver α} {n : ℕ} (h : r.recv = some (.lagged n, r')) :
    n = r.lost ∧ r' = ⟨0, r.waiting⟩ := by
  unfold recv at h
  split at h
  · cases h; exact ⟨rfl, rfl⟩
  · split at h <;> cases h

theorem recv_none {r : Receiver α} (h : r.recv = none) : r.lost = 0 ∧ r.waiting = [] := by
  unfold recv at h
  split at h
  · cases h
  · rename_i hlost
    split at h
    · rename_i hwaiting
      exact ⟨by omega, hwaiting⟩
    · cases h

end Receiver

/-- **What a subscriber was sent**: it has received some of it in its order, was told of those
it lost, but for the last ones, and the rest waits. -/
structure Accounts (capacity : ℕ) (sent received : List α) (told : ℕ) (r : Receiver α) : Prop where
  room : r.waiting.length ≤ capacity
  split : ∃ past, sent = past ++ r.waiting ∧ received.Sublist past ∧
    past.length = received.length + told + r.lost

namespace Accounts

variable {capacity told : ℕ} {sent received : List α} {r r' : Receiver α}

theorem new : Accounts capacity ([] : List α) [] 0 .new :=
  ⟨Nat.zero_le _, [], rfl, List.Sublist.refl _, rfl⟩

theorem send (h : Accounts capacity sent received told r) (hpos : 0 < capacity) (x : α) :
    Accounts capacity (sent ++ [x]) received told (r.send capacity x) := by
  have hroom := h.room
  obtain ⟨past, hsent, hsub, hlen⟩ := h.split
  unfold Receiver.send
  by_cases hfull : r.waiting.length < capacity
  · rw [if_pos hfull]
    refine ⟨?_, past, ?_, hsub, hlen⟩
    · rw [List.length_append]; exact hfull
    · rw [hsent, List.append_assoc]
  · -- the oldest value that waits is lost
    rw [if_neg hfull]
    obtain ⟨oldest, rest, hwaiting⟩ : ∃ oldest rest, r.waiting = oldest :: rest := by
      cases hw : r.waiting with
      | nil => rw [hw] at hfull; exact absurd hpos hfull
      | cons oldest rest => exact ⟨oldest, rest, rfl⟩
    rw [hwaiting, List.length_cons] at hroom
    refine ⟨?_, past ++ [oldest], ?_, hsub.trans (List.sublist_append_left ..), ?_⟩
    · rw [hwaiting, List.tail_cons, List.length_append]; exact hroom
    · rw [hsent, hwaiting, List.tail_cons, List.append_assoc, List.append_assoc]; rfl
    · rw [List.length_append, List.length_singleton, hlen]; dsimp only; omega

theorem value (h : Accounts capacity sent received told r) {x : α} (hrecv : r.recv = some (.value x, r')) :
    Accounts capacity sent (received ++ [x]) told r' := by
  obtain ⟨hlost, hwaiting, hlost'⟩ := Receiver.recv_value hrecv
  have hroom := h.room
  obtain ⟨past, hsent, hsub, hlen⟩ := h.split
  rw [hwaiting, List.length_cons] at hroom
  refine ⟨by omega, past ++ [x], ?_, hsub.append (List.Sublist.refl _), ?_⟩
  · rw [hsent, hwaiting, List.append_assoc]; rfl
  · rw [List.length_append, List.length_append, hlen, hlost, hlost']
    omega

theorem lagged (h : Accounts capacity sent received told r) {n : ℕ} (hrecv : r.recv = some (.lagged n, r')) :
    Accounts capacity sent received (told + n) r' := by
  obtain ⟨rfl, rfl⟩ := Receiver.recv_lagged hrecv
  obtain ⟨past, hsent, hsub, hlen⟩ := h.split
  exact ⟨h.room, past, hsent, hsub, by rw [hlen]; exact Nat.add_assoc ..⟩

theorem sublist (h : Accounts capacity sent received told r) : received.Sublist sent := by
  obtain ⟨past, hsent, hsub, -⟩ := h.split
  rw [hsent]
  exact hsub.trans (List.sublist_append_left ..)

/-- **Every value** is received, told of, lost or waits. -/
theorem length_sent (h : Accounts capacity sent received told r) :
    sent.length = received.length + told + r.lost + r.waiting.length := by
  obtain ⟨past, hsent, -, hlen⟩ := h.split
  rw [hsent, List.length_append, hlen]

/-- **Without losses** all is received that does not wait. -/
theorem received_eq (h : Accounts capacity sent received told r) (htold : told = 0) (hlost : r.lost = 0) :
    sent = received ++ r.waiting := by
  obtain ⟨past, hsent, hsub, hlen⟩ := h.split
  have hall : received = past := hsub.eq_of_length (by omega)
  rw [hsent, hall]

end Accounts

end Sys
