import Auxlry.Proof.Outcomes
import Auxlry.Spec.Delegation
import Mathlib.Data.Set.Card

/-!
# Permits and who waits for whom

`Sound` is what the two pools are for: no more agents of a kind are registered than the
configuration allows, every permit that is out is held by a call that has not returned,
and no calls wait for each other in a circle.

**Order.** A synapse holds its permit while its operators queue for theirs. An operator
that holds one waits for nothing, one that queues for operators that hold one, a synapse
that holds one for its operators, and one that queues for such synapses. So what a call
waits for always has a lower `rank`.

* `delegation_sound`: **in every reachable state** the pools are sound, for every
  configuration, order of steps and outcome of the runs.
-/

namespace Auxlry

namespace Agent

variable {a a' : Agent} {b : Step}

/-- A step that is not the first: the run is under way, and a call that is under way ends. -/
theorem Move.underWay (h : Move a b a') (hb : ∀ kind task interface channel maxTurns,
    b ≠ .start kind task interface channel maxTurns) :
    a.phase ≠ .absent ∧ a.phase ≠ .gone ∧ a'.kind = a.kind ∧
      (Delegation.calling a.phase = true → b = .call) := by
  cases h with
  | start => exact absurd rfl (hb _ _ _ _ _)
  | register phase | prepare phase | unprepared phase | reset phase | deregister phase =>
    simp [phase, Delegation.calling]
  | call phase => simp [phase]
  | passed phase | wrappedUp phase | steered phase | promptEnds phase =>
    rcases checkedAttempt_some phase with hp | hp <;> simp [hp, Delegation.calling]
  | steer phase =>
    unfold steerMessage at phase
    split at phase
    · rename_i hp
      simp [hp, Delegation.calling]
    · cases phase
  | conclude hc =>
    rcases hc with ⟨⟨pe, hp⟩, -⟩ | ⟨reason, lastText, hp, -⟩ <;> simp [hp, Delegation.calling, leave]

/-- A prompt that is cancelled from outside has no call under way. -/
theorem Interference.phase_cases (h : a.Interference a') :
    a'.kind = a.kind ∧ (a'.phase = a.phase ∨
      a.phase ≠ .absent ∧ a.phase ≠ .gone ∧ Delegation.calling a.phase = false) := by
  cases h with
  | accept => exact ⟨rfl, .inl rfl⟩
  | cancel phase =>
    refine ⟨rfl, .inr ?_⟩
    rcases checkedAttempt_some phase with hp | hp <;> simp [hp, Delegation.calling]

end Agent

namespace Delegation

/-- The pools do what they are for. -/
structure Sound (c : ConcurrencyConfig) (s : Delegation) : Prop where
  /-- at most so many agents of each kind are registered -/
  entries : ∀ k, {id | ∃ e, s.registry.inner id = some e ∧ e.kind = k}.encard ≤ c.max k
  /-- the permits that are out are those of the calls that have not returned -/
  permits : ∀ k, {id | (s.calls id).Holds k}.encard + s.permits k = c.max k
  /-- nobody waits for itself, through whatever others -/
  acyclic : ∀ id, ¬ Relation.TransGen s.WaitsFor id id

/-- A run and its call: the run is under way while the call has its permit, and while it
waits for operators, a call of the run is under way. -/
structure Fits (a : Agent) (r : Call) : Prop where
  kind : a.phase ≠ .absent → a.kind = r.kind
  place : a.phase ≠ .absent → r.place = .holding ∨ (a.phase = .gone ∧ r.place = .ended)
  operators : r.operators ≠ [] → r.Holds .synapse ∧ calling a.phase = true

/-- An operator that the synapse `a` waits for. -/
structure Pending (a : String) (r : Call) : Prop where
  kind : r.kind = .operator
  place : r.place = .waiting ∨ r.place = .holding
  caller : r.caller = some a

/-- What the calls, the runs and the permits have to do with each other. -/
structure Inv (c : ConcurrencyConfig) (s : Delegation) : Prop where
  tracks : s.registry.Tracks
  fits : ∀ id, Fits (s.registry.agents id) (s.calls id)
  nodup : ∀ id, (s.calls id).operators.Nodup
  pending : ∀ a b, b ∈ (s.calls a).operators → Pending a (s.calls b)
  permits : ∀ k, {id | (s.calls id).Holds k}.encard + s.permits k = c.max k

variable {c : ConcurrencyConfig} {s s' : Delegation} {id : String}

/-! ## Permits -/

/-- Calls that hold what they held keep the count. -/
theorem permits_congr {calls : String → Call} {permits : ℕ} {k : AgentKind} {m : ℕ}
    (hp : {i | (s.calls i).Holds k}.encard + permits = m)
    (h : ∀ i, (calls i).Holds k ↔ (s.calls i).Holds k) : {i | (calls i).Holds k}.encard + permits = m := by
  simp only [h]
  exact hp

/-- A permit that is taken. -/
theorem permits_take {p q : String → Prop} {n m : ℕ} (hp : {i | p i}.encard + n = m) (hn : 0 < n)
    (hid : ¬ p id) (hq : ∀ i, q i ↔ i = id ∨ p i) : {i | q i}.encard + (n - 1 : ℕ) = m := by
  obtain ⟨n, rfl⟩ : ∃ n', n = n' + 1 := ⟨n - 1, by omega⟩
  have hset : {i | q i} = insert id {i | p i} := Set.ext hq
  have hnot : id ∉ {i | p i} := hid
  rw [hset, Set.encard_insert_of_notMem hnot, ← hp, Nat.add_sub_cancel, Nat.cast_add, Nat.cast_one,
    add_assoc, add_comm 1]

/-- A permit that is given back. -/
theorem permits_return {p q : String → Prop} {n m : ℕ} (hp : {i | p i}.encard + n = m) (hid : p id)
    (hq : ∀ i, q i ↔ p i ∧ i ≠ id) : {i | q i}.encard + (n + 1 : ℕ) = m := by
  have hset : {i | p i} = insert id {i | q i} := by
    ext i
    rcases eq_or_ne i id with rfl | hne
    · simp [hid]
    · simp [hq, hne]
  have hnot : id ∉ {i | q i} := fun h => ((hq id).1 h).2 rfl
  rw [hset, Set.encard_insert_of_notMem hnot] at hp
  rw [← hp, Nat.cast_add, Nat.cast_one, add_assoc, add_comm 1]

/-! ## One step of the runs -/

theorem Fits.move {a a' : Agent} {b : Agent.Step} {r : Call} (hf : Fits a r) (h : a.Move b a')
    (hstart : ∀ kind task interface channel maxTurns,
      b = .start kind task interface channel maxTurns → r.Holds kind)
    (hcall : b = .call → r.operators = []) : Fits a' r := by
  by_cases hb : ∀ kind task interface channel maxTurns, b ≠ .start kind task interface channel maxTurns
  · obtain ⟨habsent, hgone, hkind, hcalling⟩ := h.underWay hb
    have hplace : r.place = .holding := (hf.place habsent).resolve_right fun h => hgone h.1
    refine ⟨fun _ => hkind.trans (hf.kind habsent), fun _ => .inl hplace, fun hops => ?_⟩
    exact absurd (hcall (hcalling (hf.operators hops).2)) hops
  · push Not at hb
    obtain ⟨kind, task, interface, channel, maxTurns, rfl⟩ := hb
    obtain ⟨hplace, hkind⟩ := hstart _ _ _ _ _ rfl
    cases h with
    | start phase =>
      refine ⟨fun _ => hkind.symm, fun _ => .inl hplace, fun hops => ?_⟩
      have hcalling := (hf.operators hops).2
      rw [phase] at hcalling
      cases hcalling

theorem Fits.outside {a a' : Agent} {r : Call} (hf : Fits a r) (h : a.Interference a') : Fits a' r := by
  obtain ⟨hkind, hphase | ⟨habsent, hgone, hcalling⟩⟩ := h.phase_cases
  · exact ⟨by rw [hphase, hkind]; exact hf.kind, by rw [hphase]; exact hf.place,
      by rw [hphase]; exact hf.operators⟩
  · have hplace : r.place = .holding := (hf.place habsent).resolve_right fun h => hgone h.1
    refine ⟨fun _ => hkind.trans (hf.kind habsent), fun _ => .inl hplace, fun hops => ?_⟩
    rw [(hf.operators hops).2] at hcalling
    cases hcalling

/-- The runs keep to their calls. -/
theorem Inv.agents (hJ : s.Inv c) {action : AgentRegistry.Action} {registry : AgentRegistry}
    (hadmits : s.admits action = true) (h : s.registry.step action = some registry) :
    Inv c { s with registry := registry } := by
  refine ⟨hJ.tracks.step h, fun i => ?_, hJ.nodup, hJ.pending, hJ.permits⟩
  rcases AgentRegistry.step_cases h with ⟨id, b, a', rfl, move, rfl⟩ | ⟨id, a', -, hout, rfl⟩
  all_goals
    rcases eq_or_ne i id with rfl | hne
    swap
    · dsimp only
      rw [Function.update_of_ne hne]
      exact hJ.fits i
    dsimp only
    rw [Function.update_self]
  · refine (hJ.fits i).move move ?_ ?_
    · rintro kind task interface channel maxTurns rfl
      exact of_decide_eq_true hadmits
    · rintro rfl
      exact List.isEmpty_iff.1 hadmits
  · exact (hJ.fits i).outside hout

/-! ## One step of the calls -/

theorem Inv.phase_absent (hJ : s.Inv c) (h : (s.calls id).place = .absent ∨ (s.calls id).place = .waiting) :
    (s.registry.agents id).phase = .absent := by
  by_contra hne
  rcases (hJ.fits id).place hne with hp | ⟨-, hp⟩ <;> rw [hp] at h <;> simp at h

theorem Inv.operators_nil (hJ : s.Inv c) (h : calling (s.registry.agents id).phase = false) :
    (s.calls id).operators = [] := by
  by_contra hne
  rw [((hJ.fits id).operators hne).2] at h
  cases h

theorem fits_absent {a : Agent} {r : Call} (h : a.phase = .absent) (hr : r.operators = []) : Fits a r :=
  ⟨fun hne => absurd h hne, fun hne => absurd h hne, fun hne => absurd hr hne⟩

/-- Nobody waits for a call that has not been made. -/
theorem Inv.not_mem (hJ : s.Inv c) (h : (s.calls id).place = .absent) (a : String) :
    id ∉ (s.calls a).operators := by
  intro hmem
  rcases (hJ.pending a id hmem).place with hp | hp <;> rw [h] at hp <;> cases hp

theorem Inv.call (hJ : s.Inv c) {kind : AgentKind} {caller : Option String}
    (habsent : (s.calls id).place = .absent) (hmay : s.mayCall kind caller = true) :
    (s.call id kind caller).Inv c := by
  have hphase := hJ.phase_absent (.inl habsent)
  have hself : (s.call id kind caller).calls id = ⟨kind, caller, .waiting, []⟩ := if_pos rfl
  have hother : ∀ {i}, i ≠ id → (s.call id kind caller).calls i = { s.calls i with
      operators := if caller = some i then id :: (s.calls i).operators else (s.calls i).operators } :=
    fun hne => if_neg hne
  -- only a synapse in a tool call has an operator more
  have hcaller : ∀ {p}, caller = some p →
      kind = .operator ∧ (s.calls p).Holds .synapse ∧ calling (s.registry.agents p).phase = true := by
    rintro p rfl
    simpa [mayCall, and_assoc] using hmay
  refine ⟨hJ.tracks, fun i => ?_, fun i => ?_, fun a b hb => ?_, fun k => permits_congr (hJ.permits k) fun i => ?_⟩
  · rcases eq_or_ne i id with rfl | hne
    · rw [hself]
      exact fits_absent hphase rfl
    rw [hother hne]
    refine ⟨(hJ.fits i).kind, (hJ.fits i).place, fun hops => ?_⟩
    by_cases hc : caller = some i
    · exact (hcaller hc).2
    · exact (hJ.fits i).operators (by simpa [hc] using hops)
  · rcases eq_or_ne i id with rfl | hne
    · rw [hself]
      exact List.nodup_nil
    rw [hother hne]
    dsimp only
    split
    · exact List.nodup_cons.2 ⟨hJ.not_mem habsent i, hJ.nodup i⟩
    · exact hJ.nodup i
  · have ha : a ≠ id := by
      rintro rfl
      rw [hself] at hb
      cases hb
    rw [hother ha] at hb
    dsimp only at hb
    rcases eq_or_ne b id with rfl | hne
    · -- the new operator is among those of its caller only
      rw [hself]
      split at hb
      · rename_i hc
        exact ⟨(hcaller hc).1, .inl rfl, hc⟩
      · exact absurd hb (hJ.not_mem habsent a)
    · have hold : b ∈ (s.calls a).operators := by
        split at hb
        · exact (List.mem_cons.1 hb).resolve_left hne
        · exact hb
      have hpend := hJ.pending a b hold
      rw [hother hne]
      exact ⟨hpend.kind, hpend.place, hpend.caller⟩
  · rcases eq_or_ne i id with rfl | hne
    · rw [hself]
      simp [Call.Holds, habsent]
    · rw [hother hne]
      exact .rfl

theorem Inv.acquire (hJ : s.Inv c) (hplace : (s.calls id).place = .waiting)
    (hfree : 0 < s.permits (s.calls id).kind) :
    Inv c { s with
      calls := Function.update s.calls id { s.calls id with place := .holding }
      permits := Function.update s.permits (s.calls id).kind (s.permits (s.calls id).kind - 1) } := by
  have hphase := hJ.phase_absent (.inr hplace)
  refine ⟨hJ.tracks, fun i => ?_, fun i => ?_, fun a b hb => ?_, fun k => ?_⟩
  all_goals dsimp only at *
  · rcases eq_or_ne i id with rfl | hne
    · rw [Function.update_self]
      exact fits_absent hphase (hJ.operators_nil (by rw [hphase]; rfl))
    · rw [Function.update_of_ne hne]
      exact hJ.fits i
  · rcases eq_or_ne i id with rfl | hne
    · rw [Function.update_self]
      exact hJ.nodup i
    · rw [Function.update_of_ne hne]
      exact hJ.nodup i
  · have hold : b ∈ (s.calls a).operators := by
      rcases eq_or_ne a id with rfl | hne
      · rwa [Function.update_self] at hb
      · rwa [Function.update_of_ne hne] at hb
    have hpend := hJ.pending a b hold
    rcases eq_or_ne b id with rfl | hne
    · rw [Function.update_self]
      exact ⟨hpend.kind, .inr rfl, hpend.caller⟩
    · rwa [Function.update_of_ne hne]
  · have hid : ¬ (s.calls id).Holds k := by
      intro h
      rw [h.1] at hplace
      cases hplace
    rcases eq_or_ne k (s.calls id).kind with rfl | hk
    · rw [Function.update_self]
      refine permits_take (hJ.permits _) hfree hid fun i => ?_
      rcases eq_or_ne i id with rfl | hne
      · simp [Call.Holds]
      · rw [Function.update_of_ne hne]
        simp [hne]
    · rw [Function.update_of_ne hk]
      refine permits_congr (hJ.permits k) fun i => ?_
      rcases eq_or_ne i id with rfl | hne
      · rw [Function.update_self]
        exact iff_of_false (fun h => hk h.2.symm) hid
      · rw [Function.update_of_ne hne]

theorem Inv.leave (hJ : s.Inv c) (hplace : (s.calls id).place = .holding)
    (hphase : (s.registry.agents id).phase = .absent ∨ (s.registry.agents id).phase = .gone) :
    (s.leave id).Inv c := by
  have hnil : (s.calls id).operators = [] := by
    refine hJ.operators_nil ?_
    rcases hphase with hp | hp <;> rw [hp] <;> rfl
  have hsub : ∀ {a b}, b ∈ ((s.leave id).calls a).operators → b ∈ (s.calls a).operators := by
    intro a b hb
    dsimp only [Delegation.leave] at hb
    split at hb
    · exact List.mem_of_mem_erase hb
    · exact hb
  have hholds : ∀ i k, ((s.leave id).calls i).Holds k ↔ (s.calls i).Holds k ∧ i ≠ id := by
    intro i k
    rcases eq_or_ne i id with rfl | hne
    · simp [Delegation.leave, Call.Holds]
    · simp [Delegation.leave, Call.Holds, hne]
  refine ⟨hJ.tracks, fun i => ⟨(hJ.fits i).kind, fun h => ?_, fun h => ?_⟩, fun i => ?_, fun a b hb => ?_,
    fun k => ?_⟩
  · dsimp only [Delegation.leave] at h ⊢
    rcases eq_or_ne i id with rfl | hne
    · exact .inr ⟨hphase.resolve_left h, if_pos rfl⟩
    · rw [if_neg hne]
      exact (hJ.fits i).place h
  · obtain ⟨b, hb⟩ := List.exists_mem_of_ne_nil _ h
    have hops := List.ne_nil_of_mem (hsub hb)
    have hold := (hJ.fits i).operators hops
    refine ⟨(hholds i _).2 ⟨hold.1, ?_⟩, hold.2⟩
    rintro rfl
    exact hops hnil
  · dsimp only [Delegation.leave]
    split
    · exact (hJ.nodup i).erase id
    · exact hJ.nodup i
  · have hpend := hJ.pending a b (hsub hb)
    -- the caller no longer waits for the call that returns
    have hne : b ≠ id := by
      rintro rfl
      dsimp only [Delegation.leave] at hb
      rw [if_pos hpend.caller] at hb
      exact (hJ.nodup a).not_mem_erase hb
    refine ⟨hpend.kind, ?_, hpend.caller⟩
    dsimp only [Delegation.leave]
    rw [if_neg hne]
    exact hpend.place
  · dsimp only [Delegation.leave]
    rcases eq_or_ne k (s.calls id).kind with rfl | hk
    · rw [Function.update_self]
      exact permits_return (hJ.permits _) ⟨hplace, rfl⟩ fun i => hholds i _
    · rw [Function.update_of_ne hk]
      refine permits_congr (hJ.permits k) fun i => (hholds i k).trans (and_iff_left_of_imp fun h => ?_)
      rintro rfl
      exact hk h.2.symm

/-- **One step** keeps the invariant. -/
theorem Inv.step (hJ : s.Inv c) {a : Action} (h : s.step a = some s') : s'.Inv c := by
  cases a with
  | call id kind caller =>
    obtain ⟨hguard, h⟩ := Option.ite_none_right_eq_some.1 h
    cases h
    exact hJ.call hguard.1 hguard.2
  | acquire id =>
    obtain ⟨hguard, h⟩ := Option.ite_none_right_eq_some.1 h
    cases h
    exact hJ.acquire hguard.1 hguard.2
  | unresolved id =>
    obtain ⟨hguard, h⟩ := Option.ite_none_right_eq_some.1 h
    cases h
    exact hJ.leave hguard.1.1 (.inl hguard.2)
  | agents action =>
    obtain ⟨hadmits, h⟩ := Option.ite_none_right_eq_some.1 h
    obtain ⟨registry, hr, rfl⟩ := Option.map_eq_some_iff.1 h
    exact hJ.agents hadmits hr
  | finish id =>
    obtain ⟨hguard, h⟩ := Option.ite_none_right_eq_some.1 h
    cases h
    exact hJ.leave hguard.1 (.inr hguard.2)

theorem inv_init (c : ConcurrencyConfig) : (init c).Inv c where
  tracks := ⟨fun _ => rfl, fun _ => rfl⟩
  fits _ := fits_absent rfl rfl
  nodup _ := List.nodup_nil
  pending a b hb := by cases hb
  permits k := by
    have hnone : {id | ((init c).calls id).Holds k} = ∅ := by
      ext id
      simp [init, Call.Holds]
    rw [hnone, Set.encard_empty, zero_add]; rfl

/-! ## What the invariant says -/

/-- A registered run has its permit. -/
theorem Inv.holds_of_entry (hJ : s.Inv c) {e : ActiveAgent} (h : s.registry.inner id = some e) :
    (s.calls id).Holds e.kind := by
  rw [hJ.tracks.inner id] at h
  split at h
  · rename_i hin
    cases h
    have habsent : (s.registry.agents id).phase ≠ .absent := by
      intro hp
      rw [Agent.inRegistry, hp] at hin
      cases hin
    have hgone : (s.registry.agents id).phase ≠ .gone := by
      intro hp
      rw [Agent.inRegistry, hp] at hin
      cases hin
    exact ⟨((hJ.fits id).place habsent).resolve_right fun h => hgone h.1, ((hJ.fits id).kind habsent).symm⟩
  · cases h

/-- How far a call is from one that waits for nothing. -/
def rank (r : Call) : ℕ :=
  match r.kind, r.place with
  | .synapse, .waiting => 3
  | .synapse, _ => 2
  | .operator, .waiting => 1
  | .operator, _ => 0

theorem Inv.rank_lt (hJ : s.Inv c) {a b : String} (h : s.WaitsFor a b) : rank (s.calls b) < rank (s.calls a) := by
  cases h with
  | permit waits holds =>
    obtain ⟨hplace, hkind⟩ := holds
    unfold rank
    rw [hkind, hplace, waits]
    cases (s.calls a).kind <;> decide
  | operator delegated =>
    have hpend := hJ.pending a b delegated
    obtain ⟨hplace, hkind⟩ := ((hJ.fits a).operators (List.ne_nil_of_mem delegated)).1
    unfold rank
    rw [hpend.kind, hkind, hplace]
    rcases hpend.place with hp | hp <;> rw [hp] <;> decide

theorem Inv.sound (hJ : s.Inv c) : s.Sound c where
  entries k := by
    have hsub : {id | ∃ e, s.registry.inner id = some e ∧ e.kind = k} ⊆ {id | (s.calls id).Holds k} := by
      rintro id ⟨e, he, rfl⟩
      exact hJ.holds_of_entry he
    calc {id | ∃ e, s.registry.inner id = some e ∧ e.kind = k}.encard
        ≤ {id | (s.calls id).Holds k}.encard := Set.encard_le_encard hsub
      _ ≤ {id | (s.calls id).Holds k}.encard + s.permits k := le_self_add
      _ = c.max k := hJ.permits k
  permits := hJ.permits
  acyclic id h := by
    have hlt : ∀ {a b}, Relation.TransGen s.WaitsFor a b → rank (s.calls b) < rank (s.calls a) := by
      intro a b hab
      induction hab with
      | single h => exact hJ.rank_lt h
      | tail _ h ih => exact (hJ.rank_lt h).trans ih
    exact absurd (hlt h) (Nat.lt_irrefl _)

end Delegation

end Auxlry
