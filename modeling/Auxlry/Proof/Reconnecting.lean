import Auxlry.Spec.NodeStart

/-!
# When a node gives up

A node should go on until its token is refused or its core is shut down. Its loop takes every
close by the core for a shutdown.

* `gives_up_iff`: a node returns for one of the two reasons only, **exactly in the runs where**
  no close of another kind ends its protocol loop, and its workspace and all its endpoints
  can be created. However else a connection ends, it waits half a minute at most and goes on.
* `gives_up_on_error`: the core closes with an internal error, and the node is gone.
-/

namespace Auxlry

namespace NodeStart

/-- The core says that the token is not valid, or closes the connection as it shuts down. -/
def Action.Final (a : Action) : Prop :=
  a = .authReply (.tokenAuthResponse false) ∨ a = .ended (.applicationClosed 0 "shutdown")

/-- The step ends an attempt, or the authentication of one. -/
def Action.Ends : Action → Prop
  | .connect (.error _) | .handshake (.error _) | .authReply _ | .authLost _ | .ended _ => True
  | _ => False

/-- The step is no close for other reasons and no failure of the machine. -/
def Action.Ordinary : Action → Prop
  | .createWorkspace result | .clientEndpoint result => result = .ok ()
  | .ended (.applicationClosed code reason) => code = 0 ∧ reason = "shutdown"
  | _ => True

/-- A node with the last thing that happened to it. -/
structure Traced where
  start : NodeStart
  last : Option Action

namespace Traced

def init : Traced := ⟨.init, none⟩

def step (s : Traced) (a : Action) : Option Traced :=
  (s.start.step a).map fun start => ⟨start, some a⟩

/-- If the node has returned, what happened last was final. -/
def Justified (s : Traced) : Prop :=
  ∀ result, s.start.phase = .returned result → ∃ a, s.last = some a ∧ a.Final

end Traced

variable {s s' : NodeStart} {a : Action}

theorem orReturn_returned {phase : StartPhase} (hphase : ∀ r, phase ≠ .returned r)
    (result : Except String Unit) :
    (∃ r, (s.orReturn phase result).phase = .returned r) ↔ result ≠ .ok () := by
  cases result with
  | ok => exact iff_of_false (fun ⟨r, hr⟩ => hphase r hr) (fun h => h rfl)
  | error e => exact iff_of_true ⟨_, rfl⟩ (fun h => by cases h)

/-- The node returns on an answer exactly if it says that the token is not valid. -/
theorem authReply_returned (msg : ProtocolMessage) :
    (∃ r, (s.authenticated (NodeCmd.authResult msg)).phase = .returned r) ↔
      msg = .tokenAuthResponse false := by
  cases msg with
  | tokenAuthResponse success =>
    cases success with
    | true => exact iff_of_false (fun ⟨r, hr⟩ => by cases hr) (fun h => by cases h)
    | false => exact iff_of_true ⟨_, rfl⟩ rfl
  | _ => exact iff_of_false (fun ⟨r, hr⟩ => by cases hr) (fun h => by cases h)

/-- The node returns for a reason if it does not return. -/
theorem final_of_goes_on {phase : StartPhase} (h : ∀ r, phase ≠ .returned r) :
    (∃ r, phase = .returned r) → a.Final := fun ⟨r, hr⟩ => absurd hr (h r)

/-- **One step**: the node returns only for one of the two reasons exactly if the step is
ordinary. -/
theorem returned_step (h : s.step a = some s') :
    ((∃ r, s'.phase = .returned r) → a.Final) ↔ a.Ordinary := by
  obtain ⟨phase, backoff⟩ := s
  unfold step at h
  dsimp only at h
  split at h
  case h_1 | h_2 =>
    -- a failure of the machine is never one of the two
    cases h
    rw [orReturn_returned (fun r h => by cases h)]
    simp [Action.Final, Action.Ordinary]
  case h_7 msg =>
    cases h
    rw [authReply_returned]
    exact iff_of_true (fun hm => .inl (by rw [hm])) trivial
  case h_10 e =>
    cases e with
    | applicationClosed code reason =>
      cases h
      constructor
      · intro hfinal
        rcases hfinal ⟨_, rfl⟩ with hf | hf
        · cases hf
        · cases hf; exact ⟨rfl, rfl⟩
      · rintro ⟨rfl, rfl⟩ -
        exact .inr rfl
    | other text =>
      cases h
      exact iff_of_true (final_of_goes_on fun r h => by cases h) trivial
  case h_12 => cases h
  all_goals
    cases h
    exact iff_of_true (final_of_goes_on fun r h => by cases h) trivial

/-- **An attempt that ends** leaves the node waiting, if it does not return or serve. -/
theorem ends_step (h : s.step a = some s') (ha : a.Ends) :
    s'.phase = .serving ∨ (∃ r, s'.phase = .returned r) ∨
      s'.phase = .waiting ∧ s'.backoff = s.backoff := by
  obtain ⟨phase, backoff⟩ := s
  unfold step at h
  dsimp only at h
  split at h
  case h_7 msg =>
    cases h
    unfold authenticated
    split
    · exact .inl rfl
    · exact .inr (.inl ⟨_, rfl⟩)
    · exact .inr (.inr ⟨rfl, rfl⟩)
  case h_10 e =>
    cases e with
    | applicationClosed code reason => cases h; exact .inr (.inl ⟨_, rfl⟩)
    | other text => cases h; exact .inr (.inr ⟨rfl, rfl⟩)
  case h_4 | h_6 | h_8 => cases h; exact .inr (.inr ⟨rfl, rfl⟩)
  case h_12 => cases h
  all_goals cases ha

/-- The pauses grow up to half a minute. -/
theorem backoff_step (hb : s.backoff ≤ backoffMax) (h : s.step a = some s') : s'.backoff ≤ backoffMax := by
  obtain ⟨phase, backoff⟩ := s
  unfold step at h
  dsimp only at h
  split at h
  case h_1 result | h_2 result => cases h; cases result <;> exact hb
  case h_7 msg =>
    cases h
    unfold authenticated
    split
    · decide
    · exact hb
    · exact hb
  case h_10 e => cases e <;> cases h <;> exact hb
  case h_11 => cases h; exact Nat.min_le_right ..
  case h_12 => cases h
  all_goals cases h; exact hb

/-! ## Runs -/

namespace Traced

theorem step_some {s s' : Traced} (h : s.step a = some s') :
    s.start.step a = some s'.start ∧ s'.last = some a := by
  obtain ⟨start, hstart, rfl⟩ := Option.map_eq_some_iff.1 h
  exact ⟨hstart, rfl⟩

theorem justified_step {s s' : Traced} (h : s.step a = some s') : s'.Justified ↔ a.Ordinary := by
  obtain ⟨hstart, hlast⟩ := step_some h
  rw [← returned_step hstart, Justified, hlast]
  constructor
  · rintro hj ⟨r, hr⟩
    obtain ⟨b, hb, hf⟩ := hj r hr
    exact Option.some.inj hb ▸ hf
  · intro hf r hr
    exact ⟨a, rfl, hf ⟨r, hr⟩⟩

end Traced

/-- **A node gives up for one of the two reasons only** exactly in the runs where every step is
ordinary; and where an attempt ends that is no reason to give up, it waits for half a minute at
most and makes another. -/
theorem gives_up_iff (as : List Action) :
    ((∀ s, Sys.Visits Traced.step .init as s → s.Justified) ↔
      ∀ s a, Sys.Takes Traced.step .init as s a → a.Ordinary) ∧
    ∀ s a s', Sys.Visits Traced.step .init as s → s.step a = some s' → a.Ends →
      s'.start.phase = .serving ∨ (∃ r, s'.start.phase = .returned r) ∨
        s'.start.phase = .waiting ∧ s'.start.backoff ≤ 30 ∧
        ∃ s'', s'.step .wake = some s'' ∧ s''.start.phase = .idle := by
  constructor
  · have hinit : Traced.init.Justified := fun _ h => by cases h
    have hstep : ∀ (s : Traced) (a : Action) (s' : Traced), True → s.Justified → s.step a = some s' →
        (s'.Justified ↔ a.Ordinary) := fun _ _ _ _ _ h => Traced.justified_step h
    exact Sys.visits_iff_takes (J := fun _ => True) (fun _ _ _ _ _ _ _ => trivial) hstep as trivial hinit
  · intro s a s' hv h ha
    have hb : s.start.backoff ≤ backoffMax :=
      hv.inv (P := fun s => s.start.backoff ≤ backoffMax)
        (fun _ _ _ hb h => backoff_step hb (Traced.step_some h).1) (by decide)
    rcases ends_step (Traced.step_some h).1 ha with hs | hr | ⟨hw, hsame⟩
    · exact .inl hs
    · exact .inr (.inl hr)
    · refine .inr (.inr ⟨hw, by rw [hsame]; exact hb, ?_⟩)
      obtain ⟨⟨phase, backoff⟩, last⟩ := s'
      obtain rfl : phase = .waiting := hw
      exact ⟨_, rfl, rfl⟩

/-- **The core closes with an internal error**, because it cannot create its directory for the
node, and the node gives up. -/
theorem gives_up_on_error :
    ∃ s, Sys.Visits Traced.step .init
        [.createWorkspace (.ok ()), .clientEndpoint (.ok ()), .connect (.ok ()), .handshake (.ok ()),
          .authReply (.tokenAuthResponse true), .ended (.applicationClosed 2 "internal error")] s ∧
      s.start.phase = .returned (.ok ()) ∧ ¬ s.Justified := by
  refine ⟨⟨⟨.returned (.ok ()), 1⟩, some (.ended (.applicationClosed 2 "internal error"))⟩,
    ⟨_, List.prefix_rfl, rfl⟩, rfl, fun h => ?_⟩
  obtain ⟨a, ha, hf⟩ := h _ rfl
  obtain rfl := Option.some.inj ha
  rcases hf with hf | hf
  · cases hf
  · cases hf

end NodeStart

end Auxlry
