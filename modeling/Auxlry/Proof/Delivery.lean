import Auxlry.Spec.Startup
import Auxlry.Sys.Run

/-!
# From adapters to sessions

The bridge takes events off the bus one at a time. It loses an event that it has not
received when the bus holds as many as it can and another is published.

* `flow`: what a step does to the bus and the bridge.
* `bridge_delivers_iff`: **once the bridge is subscribed, every message gets to its session once and
  in order, exactly in the runs that overwrite none on the bus**; without that, still none
  comes twice or early, and the bridge can always catch up.
* `messages_lost`: a message before the bridge is subscribed, and one with 1024 events
  behind it.
-/

namespace Auxlry.Startup

/-- The message that the bridge has received but not added. -/
def inHand : BridgePhase → List InboundMessage
  | .adding m _ => [m]
  | _ => []

/-- The messages that the bridge has received but not added, or has on the bus. -/
def waiting (d : Daemon) : List InboundMessage := inHand d.bridge ++ d.bus.filterMap (·.message)

/-- Every message that the bridge could hear of is added, in order, or on its way. -/
def Delivered (s : Startup) : Prop := s.passed ++ waiting s.daemon = s.heard

/-- The step overwrites a message on the bus: it publishes an event when the bus is full of
events that the bridge has not received, and the oldest of them is a message. -/
def Overwrites (s : Startup) : Action → Prop
  | .daemon a => s.stage = .subscribed ∧ events s.daemon a ≠ [] ∧ s.daemon.bus.length = busCapacity ∧
      (s.daemon.bus.head?.bind (·.message)).isSome
  | _ => False

variable {s s' : Startup} {d d' : Daemon} {a : Daemon.Action} {act : Action}

/-! ## Bus and bridge -/

/-- What a step does to the bus and the bridge. -/
inductive Flow (d d' : Daemon) (a : Daemon.Action) : Prop
  | still (events : events d a = []) (adds : adds d a = []) (bus : d'.bus = d.bus) (bridge : d'.bridge = d.bridge)
  | published (event : EventPayload) (events : events d a = [event]) (adds : adds d a = [])
      (bus : d'.bus = Daemon.publish d.bus event) (bridge : d'.bridge = d.bridge)
  | received (event : EventPayload) (events : events d a = []) (adds : adds d a = []) (idle : d.bridge = .idle)
      (bus : d.bus = event :: d'.bus) (bridge : d'.bridge = Daemon.receive d.manager.now event)
  | added (m : InboundMessage) (receivedAt : ℕ) (events : events d a = []) (adds : adds d a = [m])
      (adding : d.bridge = .adding m receivedAt) (bus : d'.bus = d.bus) (bridge : d'.bridge = .inserting m)
  | inserted (m : InboundMessage) (events : events d a = []) (adds : adds d a = [])
      (inserting : d.bridge = .inserting m) (bus : d'.bus = d.bus) (bridge : d'.bridge = .idle)

theorem flow (h : d.step a = some d') : Flow d d' a := by
  cases a with
  | elapse ms => cases h; exact .still rfl rfl rfl rfl
  | publish event => cases h; exact .published event rfl rfl (by dsimp only) rfl
  | recv =>
    simp only [Daemon.step] at h
    split at h
    · rename_i event rest hbridge hbus
      cases h
      exact .received event rfl rfl hbridge hbus rfl
    · cases h
  | add =>
    simp only [Daemon.step] at h
    split at h
    · rename_i m receivedAt hbridge
      obtain ⟨manager, -, rfl⟩ := Option.map_eq_some_iff.1 h
      exact .added m receivedAt rfl (by simp only [adds, hbridge]) hbridge rfl rfl
    · cases h
  | insert now queryOk =>
    simp only [Daemon.step] at h
    split at h
    · rename_i m hbridge
      cases h
      refine .inserted m rfl rfl hbridge ?_ ?_ <;> unfold Daemon.insert <;> split <;> rfl
    · cases h
  | wake task =>
    obtain ⟨manager, -, h⟩ := Option.bind_eq_some_iff.1 h
    split at h
    · cases h; exact .still rfl rfl rfl rfl
    · obtain ⟨interface, -, rfl⟩ := Option.map_eq_some_iff.1 h
      exact .still rfl rfl rfl rfl
  | interface action =>
    simp only [Daemon.step, Daemon.interfaceStep] at h
    split at h
    · cases h
    · cases h
    · obtain ⟨interface, -, rfl⟩ := Option.map_eq_some_iff.1 h
      exact .still rfl rfl rfl rfl
    · split at h
      · obtain ⟨interface, -, rfl⟩ := Option.map_eq_some_iff.1 h
        exact .still rfl rfl rfl rfl
      · cases h
    · obtain ⟨interface, -, rfl⟩ := Option.map_eq_some_iff.1 h
      exact .still rfl rfl rfl rfl
  | prompt order =>
    simp only [Daemon.step] at h
    split at h
    · split at h
      · cases h; exact .still rfl rfl rfl rfl
      · split at h <;> cases h
        exact .still rfl rfl rfl rfl
    · cases h
  | respond now queryOk =>
    simp only [Daemon.step, Daemon.respond] at h
    split at h
    · rename_i r result hphase
      obtain ⟨interface, -, rfl⟩ := Option.map_eq_some_iff.1 h
      cases result with
      | ok response =>
        exact .published (.interfaceReply r.batch.interface r.batch.channel response)
          (by simp only [events, hphase]) rfl (by dsimp only) rfl
      | error e => exact .still (by simp only [events, hphase]) rfl rfl rfl
    · cases h

/-- Publishing keeps what is on the bus, up to its oldest event. -/
theorem publish_cases {bus : List EventPayload} (hle : bus.length ≤ busCapacity) (event : EventPayload) :
    (bus.length < busCapacity ∧ Daemon.publish bus event = bus ++ [event]) ∨
      (bus.length = busCapacity ∧
        ∃ oldest rest, bus = oldest :: rest ∧ Daemon.publish bus event = rest ++ [event]) := by
  unfold Daemon.publish
  rcases Nat.lt_or_eq_of_le hle with hlt | heq
  · left
    rw [Nat.sub_eq_zero_of_le hlt]
    exact ⟨hlt, rfl⟩
  · right
    rcases bus with _ | ⟨oldest, rest⟩
    · cases heq
    · refine ⟨heq, oldest, rest, rfl, ?_⟩
      rw [heq, Nat.add_sub_cancel_left]; rfl

/-- The bus is not over its capacity, and empty until the bridge is subscribed. -/
structure Bounded (s : Startup) : Prop where
  bus : s.daemon.bus.length ≤ busCapacity
  before : s.stage ≠ .subscribed → s.daemon.bus = [] ∧ s.daemon.bridge = .idle

/-- What a step does, by the stage it is taken in. -/
inductive Change (s s' : Startup) (act : Action) : Prop
  | early (quiet : ¬ s.Overwrites act) (starting : s.stage ≠ .subscribed) (bus : s'.daemon.bus = s.daemon.bus)
      (bridge : s'.daemon.bridge = s.daemon.bridge) (heard : s'.heard = s.heard) (passed : s'.passed = s.passed)
  | running (a : Daemon.Action) (action : act = .daemon a) (stage : s.stage = .subscribed)
      (later : s'.stage = .subscribed)
      (flow : Flow s.daemon s'.daemon a) (heard : s'.heard = s.heard ++ (events s.daemon a).filterMap (·.message))
      (passed : s'.passed = s.passed ++ adds s.daemon a)

theorem step_change (h : s.step act = some s') : Change s s' act := by
  cases act with
  | spawnAdapters | subscribe =>
    simp only [step] at h
    split at h
    · rename_i hstage
      cases h
      exact .early id (fun he => by rw [hstage] at he; cases he) rfl rfl rfl rfl
    · cases h
  | daemon a =>
    simp only [step] at h
    split at h
    · rename_i hstage
      obtain ⟨d, hd, rfl⟩ := Option.map_eq_some_iff.1 h
      exact .running a rfl hstage hstage (flow hd) rfl rfl
    · rename_i hstage
      have hquiet : ¬ s.Overwrites (.daemon a) := fun ho => hstage ho.1
      split at h
      · obtain ⟨d, hd, rfl⟩ := Option.map_eq_some_iff.1 h
        cases hd
        exact .early hquiet hstage rfl rfl rfl rfl
      · split at h <;> cases h
        exact .early hquiet hstage rfl rfl rfl rfl
      · cases h

theorem Bounded.step (hB : s.Bounded) (h : s.step act = some s') : s'.Bounded := by
  cases step_change h with
  | early quiet starting bus bridge =>
    exact ⟨bus ▸ hB.bus, fun _ => bus ▸ bridge ▸ hB.before starting⟩
  | running a action stage later flow =>
    refine ⟨?_, fun hstage => absurd later hstage⟩
    cases flow with
    | still _ _ bus | added _ _ _ _ _ bus | inserted _ _ _ _ bus => exact bus ▸ hB.bus
    | published event _ _ bus =>
      rw [bus]
      rcases publish_cases hB.bus event with ⟨hlt, hp⟩ | ⟨heq, oldest, rest, hbus, hp⟩
      · rw [hp, List.length_append]; exact hlt
      · rw [hp, List.length_append, ← heq, hbus]; exact Nat.le_refl _
    | received event _ _ _ bus =>
      have := hB.bus
      rw [bus, List.length_cons] at this
      exact Nat.le_of_succ_le this

theorem inHand_receive (now : ℕ) (event : EventPayload) :
    inHand (Daemon.receive now event) = [event].filterMap (·.message) := by
  cases event <;> rfl

/-- The messages that are added or on their way, with what becomes of them in a step. -/
def reached (s : Startup) : List InboundMessage := s.passed ++ waiting s.daemon

/-- **What a step does to the messages**: there may be more, and one may be overwritten. -/
theorem step_reached (hB : s.Bounded) (h : s.step act = some s') :
    ∃ ms, s'.heard = s.heard ++ ms ∧
      ((¬ s.Overwrites act ∧ s'.reached = s.reached ++ ms) ∨
        (s.Overwrites act ∧ ∃ xs m ys, s.reached = xs ++ m :: ys ∧ s'.reached = xs ++ ys ++ ms)) := by
  unfold reached waiting
  cases step_change h with
  | early quiet starting bus bridge heard passed =>
    refine ⟨[], by rw [heard, List.append_nil], .inl ⟨quiet, ?_⟩⟩
    rw [passed, bus, bridge, List.append_nil]
  | running a action stage later flow heard passed =>
    subst action
    refine ⟨_, heard, ?_⟩
    rw [passed]
    cases flow with
    | still events adds bus bridge =>
      refine .inl ⟨fun ho => ho.2.1 events, ?_⟩
      rw [bus, bridge, events, adds, List.filterMap_nil, List.append_nil, List.append_nil]
    | published event events adds bus bridge =>
      rw [bus, bridge, events, adds, List.append_nil]
      rcases publish_cases hB.bus event with ⟨hlt, hp⟩ | ⟨heq, oldest, rest, hbus, hp⟩
      · -- there is room
        refine .inl ⟨fun ho => (Nat.ne_of_lt hlt) ho.2.2.1, ?_⟩
        rw [hp, List.filterMap_append, List.append_assoc, List.append_assoc]
      · -- the oldest event goes
        have hover : s.Overwrites (.daemon a) ↔ oldest.message.isSome := by
          have hne : Startup.events s.daemon a ≠ [] := by rw [events]; exact List.cons_ne_nil event []
          show s.stage = .subscribed ∧ _ ∧ _ ∧ _ ↔ _
          rw [and_iff_right stage, and_iff_right hne, and_iff_right heq, hbus]; rfl
        rw [hover, hp, hbus, List.filterMap_append]
        cases hm : oldest.message with
        | none =>
          refine .inl ⟨by decide, ?_⟩
          rw [List.filterMap_cons_none hm, List.append_assoc, List.append_assoc]
        | some m =>
          refine .inr ⟨rfl, s.passed ++ inHand s.daemon.bridge, m, rest.filterMap (·.message), ?_, ?_⟩
          · rw [List.filterMap_cons_some hm, List.append_assoc]
          · rw [List.append_assoc, List.append_assoc]
    | received event events adds idle bus bridge =>
      refine .inl ⟨fun ho => ho.2.1 events, ?_⟩
      rw [bridge, idle, bus, events, adds, inHand_receive, ← List.filterMap_append]
      simp only [List.append_nil, List.filterMap_nil, List.singleton_append, inHand, List.nil_append]
    | added m receivedAt events adds adding bus bridge =>
      refine .inl ⟨fun ho => ho.2.1 events, ?_⟩
      rw [bus, bridge, adding, events, adds, List.filterMap_nil, List.append_nil, List.append_assoc]; rfl
    | inserted m events adds inserting bus bridge =>
      refine .inl ⟨fun ho => ho.2.1 events, ?_⟩
      rw [bus, bridge, inserting, events, adds, List.filterMap_nil, List.append_nil, List.append_nil]; rfl

/-- **A step loses nothing** exactly when it overwrites no message. -/
theorem delivered_step (hB : s.Bounded) (hD : s.Delivered) (h : s.step act = some s') :
    s'.Delivered ↔ ¬ s.Overwrites act := by
  have hD : s.reached = s.heard := hD
  show s'.reached = s'.heard ↔ _
  obtain ⟨ms, heard, ⟨hkept, hr⟩ | ⟨hover, xs, m, ys, hxs, hr⟩⟩ := step_reached hB h
  · rw [hr, heard, hD]
    exact iff_of_true rfl hkept
  · refine iff_of_false (fun he => ?_) (not_not_intro hover)
    -- one message is missing
    have hlen := congrArg List.length he
    rw [hr, heard, ← hD, hxs] at hlen
    simp only [List.length_append, List.length_cons] at hlen
    omega

/-- Whatever is lost, the rest keeps its order and nothing comes twice. -/
theorem sublist_step (hB : s.Bounded) (hS : s.reached.Sublist s.heard) (h : s.step act = some s') :
    s'.reached.Sublist s'.heard := by
  obtain ⟨ms, heard, ⟨-, hr⟩ | ⟨-, xs, m, ys, hxs, hr⟩⟩ := step_reached hB h
  · rw [hr, heard]
    exact hS.append_right ms
  · rw [hr, heard]
    refine .append_right (.trans ?_ hS) ms
    rw [hxs]
    exact .append_left (List.sublist_cons_self m ys) xs

/-! ## Catching up -/

/-- A step of the bridge, or time that passes. -/
def OfBridge : Action → Prop
  | .daemon .recv | .daemon .add | .daemon (.insert _ _) | .daemon (.elapse _) => True
  | _ => False

/-- What the bridge still has to do. -/
def left (d : Daemon) : ℕ :=
  3 * d.bus.length + match d.bridge with
    | .idle => 0
    | .inserting _ => 1
    | .adding _ _ => 2

/-- The bridge may still deliver everything it has heard of. -/
structure OnTrack (s : Startup) (heard : List InboundMessage) : Prop where
  stage : s.stage = .subscribed
  bounded : s.Bounded
  delivered : s.Delivered
  heard : s.heard = heard

/-- A step of the daemon, once the bridge is subscribed. -/
theorem step_daemon (hstage : s.stage = .subscribed) (hd : s.daemon.step a = some d) :
    s.step (.daemon a) = some
      { s with
        daemon := d
        published := s.published ++ (events s.daemon a).filterMap (·.message)
        heard := s.heard ++ (events s.daemon a).filterMap (·.message)
        passed := s.passed ++ adds s.daemon a } := by
  simp only [step, hstage, hd, Option.map_some]

/-- A step that publishes nothing stays on track. -/
theorem OnTrack.step {heard : List InboundMessage} (hT : s.OnTrack heard) (hd : s.daemon.step a = some d)
    (hevents : events s.daemon a = []) :
    ∃ s', s.step (.daemon a) = some s' ∧ s'.daemon = d ∧ s'.OnTrack heard := by
  have h := step_daemon hT.stage hd
  refine ⟨_, h, rfl, hT.stage, hT.bounded.step h, ?_, ?_⟩
  · exact (delivered_step hT.bounded hT.delivered h).2 fun ho => ho.2.1 hevents
  · show s.heard ++ (events s.daemon a).filterMap (·.message) = heard
    rw [hevents, List.filterMap_nil, List.append_nil, hT.heard]

/-- While something is left, the bridge can do some of it. -/
theorem OnTrack.progress {heard : List InboundMessage} (hT : s.OnTrack heard)
    (hleft : s.daemon.bridge ≠ .idle ∨ s.daemon.bus ≠ []) :
    ∃ acts s', (∀ b ∈ acts, OfBridge b) ∧ Sys.run Startup.step s acts = some s' ∧ s'.OnTrack heard ∧
      left s'.daemon < left s.daemon := by
  cases hb : s.daemon.bridge with
  | idle =>
    rw [hb] at hleft
    obtain ⟨event, rest, hbus⟩ := List.exists_cons_of_ne_nil (hleft.resolve_left (not_not_intro rfl))
    have hd : s.daemon.step .recv =
        some { s.daemon with bus := rest, bridge := Daemon.receive s.daemon.manager.now event } := by
      simp only [Daemon.step, hb, hbus]
    obtain ⟨s', hs', hd', hT'⟩ := hT.step hd rfl
    refine ⟨[.daemon .recv], s', by simp [OfBridge], Sys.run_cons_some hs' [], hT', ?_⟩
    rw [left, left, hd', hb, hbus]
    cases event <;> simp only [Daemon.receive, List.length_cons] <;> omega
  | inserting m =>
    have hd : s.daemon.step (.insert 0 false) = some (s.daemon.insert m 0 false) := by
      simp only [Daemon.step, hb]
    obtain ⟨s', hs', hd', hT'⟩ := hT.step hd rfl
    refine ⟨[.daemon (.insert 0 false)], s', by simp [OfBridge], Sys.run_cons_some hs' [], hT', ?_⟩
    rw [left, left, hd', hb]
    exact Nat.lt_succ_self _
  | adding m receivedAt =>
    -- the message is not from the future once enough time has passed
    obtain ⟨s₁, hs₁, hd₁, hT₁⟩ := hT.step (a := .elapse receivedAt) rfl rfl
    have hadd : s₁.daemon.step .add = s₁.daemon.add m receivedAt := by simp only [hd₁, Daemon.step, hb]
    have hnow : receivedAt ≤ s₁.daemon.manager.now := by rw [hd₁]; exact Nat.le_add_left ..
    obtain ⟨manager, hmanager⟩ : ∃ manager, s₁.daemon.manager.step
        (.addMessage m.interface m.channel m.author m.content receivedAt) = some manager := ⟨_, if_pos hnow⟩
    obtain ⟨d, hd, hbridge, hbus⟩ : ∃ d, s₁.daemon.add m receivedAt = some d ∧ d.bridge = .inserting m ∧
        d.bus = s₁.daemon.bus := by
      unfold Daemon.add
      rw [hmanager]
      exact ⟨_, rfl, rfl, rfl⟩
    obtain ⟨s', hs', hd', hT'⟩ := hT₁.step (hadd.trans hd) rfl
    refine ⟨[.daemon (.elapse receivedAt), .daemon .add], s', by simp [OfBridge], ?_, hT', ?_⟩
    · rw [Sys.run_cons_some hs₁, Sys.run_cons_some hs']; rfl
    · rw [left, left, hd', hbridge, hbus, hd₁, hb]
      exact Nat.lt_succ_self _

/-- **The bridge can catch up.** -/
theorem OnTrack.catch_up {heard : List InboundMessage} (hT : s.OnTrack heard) :
    ∃ acts s', (∀ b ∈ acts, OfBridge b) ∧ Sys.run Startup.step s acts = some s' ∧ s'.passed = heard := by
  induction hn : left s.daemon using Nat.strongRecOn generalizing s with
  | ind n ih =>
    by_cases hleft : s.daemon.bridge ≠ .idle ∨ s.daemon.bus ≠ []
    · obtain ⟨acts, s₁, hof, hrun, hT₁, hlt⟩ := hT.progress hleft
      obtain ⟨acts', s', hof', hrun', hpassed⟩ := ih _ (hn ▸ hlt) hT₁ rfl
      refine ⟨acts ++ acts', s', ?_, ?_, hpassed⟩
      · exact fun b hb => (List.mem_append.1 hb).elim (hof b) (hof' b)
      · rw [Sys.run_append, hrun]; exact hrun'
    · -- nothing is left, so all that was heard of is passed
      rw [not_or, not_not, not_not] at hleft
      refine ⟨[], s, by simp, rfl, ?_⟩
      have hD : s.passed ++ waiting s.daemon = s.heard := hT.delivered
      rw [waiting, hleft.1, hleft.2] at hD
      rw [← hT.heard, ← hD]; exact (List.append_nil _).symm

/-! ## Runs -/

theorem bounded_init (now : ℕ) (adapters : List String) (messages : MessageTable) :
    (init now adapters messages).Bounded := ⟨Nat.zero_le _, fun _ => ⟨rfl, rfl⟩⟩

/-- **The exact condition** for messages to get to their sessions, in every state of every
run, and what holds without it. -/
theorem bridge_delivers_iff (now : ℕ) (adapters : List String) (messages : MessageTable) (acts : List Action) :
    ((∀ s, Sys.Visits Startup.step (init now adapters messages) acts s → s.Delivered) ↔
        ∀ s a, Sys.Takes Startup.step (init now adapters messages) acts s a → ¬ s.Overwrites a) ∧
      ∀ s, Sys.Visits Startup.step (init now adapters messages) acts s →
        s.passed.Sublist s.heard ∧
          (s.stage = .subscribed → s.Delivered →
            ∃ acts' s', (∀ a ∈ acts', OfBridge a) ∧ Sys.run Startup.step s acts' = some s' ∧
              s'.passed = s.heard) := by
  constructor
  · exact Sys.visits_iff_takes (J := Bounded) (fun _ _ _ hB _ _ h => hB.step h)
      (fun _ _ _ hB hD h => delivered_step hB hD h) acts (bounded_init now adapters messages) rfl
  · intro s hs
    have hall : s.Bounded ∧ s.reached.Sublist s.heard := by
      refine hs.inv (P := fun s => s.Bounded ∧ s.reached.Sublist s.heard) ?_
        ⟨bounded_init now adapters messages, List.Sublist.refl _⟩
      rintro t b t' ⟨hB, hS⟩ h
      exact ⟨hB.step h, sublist_step hB hS h⟩
    exact ⟨(List.sublist_append_left ..).trans hall.2, fun hstage hD => OnTrack.catch_up ⟨hstage, hall.1, hD, rfl⟩⟩

/-! ## Messages that are lost -/

/-- A message between the spawn of its adapter and the subscription of the bridge. -/
def early : List Action :=
  [.spawnAdapters, .daemon (.publish (.messageReceived "discord" "7" "ann" "hi")), .subscribe]

/-- A message, and as many events behind it as the bus holds. -/
def behind : List Action :=
  [.spawnAdapters, .subscribe, .daemon (.publish (.messageReceived "discord" "7" "ann" "hi"))] ++
    List.replicate busCapacity (.daemon (.publish .other))

/-- One more event, and who has heard of messages and passed them stays the same. -/
theorem step_publish (hstage : s.stage = .subscribed) :
    ∃ s', s.step (.daemon (.publish .other)) = some s' ∧ s'.stage = .subscribed ∧
      s'.daemon.bus = Daemon.publish s.daemon.bus .other ∧ s'.daemon.bridge = s.daemon.bridge ∧
      s'.published = s.published ∧ s'.heard = s.heard ∧ s'.passed = s.passed := by
  have hd : s.daemon.step (.publish .other) =
      some { s.daemon with bus := Daemon.publish s.daemon.bus .other } := rfl
  exact ⟨_, step_daemon hstage hd, hstage, by dsimp only, rfl, List.append_nil _, List.append_nil _,
    List.append_nil _⟩

/-- As long as there is room, events pile up on the bus. -/
theorem run_publish (hstage : s.stage = .subscribed) (n : ℕ) (hroom : s.daemon.bus.length + n ≤ busCapacity) :
    ∃ s', Sys.run Startup.step s (List.replicate n (.daemon (.publish .other))) = some s' ∧
      s'.stage = .subscribed ∧ s'.daemon.bus = s.daemon.bus ++ List.replicate n .other ∧
      s'.daemon.bridge = s.daemon.bridge ∧ s'.published = s.published ∧ s'.heard = s.heard ∧
        s'.passed = s.passed := by
  induction n generalizing s with
  | zero => exact ⟨s, rfl, hstage, (List.append_nil _).symm, rfl, rfl, rfl, rfl⟩
  | succ n ih =>
    obtain ⟨s₁, hs₁, hstage₁, hbus₁, hbridge₁, hpub₁, hheard₁, hpassed₁⟩ := step_publish hstage
    rcases publish_cases (Nat.le_trans (Nat.le_add_right ..) hroom) .other with ⟨-, hp⟩ | ⟨heq, -⟩
    · rw [hp] at hbus₁
      obtain ⟨s', hs', hstage', hbus', hbridge', hpub', hheard', hpassed'⟩ :=
        ih hstage₁ (by rw [hbus₁, List.length_append, List.length_singleton]; omega)
      refine ⟨s', ?_, hstage', ?_, hbridge'.trans hbridge₁, hpub'.trans hpub₁, hheard'.trans hheard₁,
        hpassed'.trans hpassed₁⟩
      · rw [List.replicate_succ, Sys.run_cons_some hs₁, hs']
      · rw [hbus', hbus₁, List.append_assoc]; rfl
    · omega

/-- **Both are lost**: none of them is passed or on its way. -/
theorem messages_lost :
    (∃ s, Sys.run Startup.step (init 0 ["discord"] .empty) early = some s ∧
      s.published = [⟨"discord", "7", "ann", "hi"⟩] ∧ s.passed ++ waiting s.daemon = []) ∧
    ∃ s, Sys.run Startup.step (init 0 ["discord"] .empty) behind = some s ∧
      s.published = [⟨"discord", "7", "ann", "hi"⟩] ∧ s.passed ++ waiting s.daemon = [] ∧ ¬ s.Delivered := by
  refine ⟨⟨_, rfl, rfl, rfl⟩, ?_⟩
  obtain ⟨s₁, hs₁, hstage₁, hbus₁, hbridge₁, hpub₁, hheard₁, hpassed₁⟩ : ∃ s₁,
      Sys.run Startup.step (init 0 ["discord"] .empty)
        [.spawnAdapters, .subscribe, .daemon (.publish (.messageReceived "discord" "7" "ann" "hi"))] = some s₁ ∧
      s₁.stage = .subscribed ∧ s₁.daemon.bus = [.messageReceived "discord" "7" "ann" "hi"] ∧
      s₁.daemon.bridge = .idle ∧ s₁.published = [⟨"discord", "7", "ann", "hi"⟩] ∧
      s₁.heard = [⟨"discord", "7", "ann", "hi"⟩] ∧ s₁.passed = [] := ⟨_, rfl, rfl, rfl, rfl, rfl, rfl, rfl⟩
  -- the bus is filled up, and then there is one event more
  obtain ⟨s₂, hs₂, hstage₂, hbus₂, hbridge₂, hpub₂, hheard₂, hpassed₂⟩ :=
    run_publish hstage₁ 1023 (by rw [hbus₁]; decide)
  obtain ⟨s₃, hs₃, -, hbus₃, hbridge₃, hpub₃, hheard₃, hpassed₃⟩ := step_publish hstage₂
  have hfull : s₂.daemon.bus.length = busCapacity := by
    rw [hbus₂, hbus₁, List.length_append, List.length_replicate]; rfl
  have hbus : s₃.daemon.bus = List.replicate 1023 .other ++ [.other] := by
    rcases publish_cases hfull.le .other with ⟨hlt, -⟩ | ⟨-, oldest, rest, hrest, hp⟩
    · exact absurd hfull hlt.ne
    · rw [hbus₂, hbus₁] at hrest
      obtain ⟨-, rfl⟩ := List.cons.inj hrest
      rw [hbus₃, hp]; rfl
  have hnone :
      (List.replicate 1023 EventPayload.other ++ [EventPayload.other]).filterMap EventPayload.message = [] := by
    rw [List.filterMap_eq_nil_iff]
    intro event he
    rcases List.mem_append.1 he with he | he
    · rw [List.eq_of_mem_replicate he]; rfl
    · rw [List.mem_singleton.1 he]; rfl
  have hgone : s₃.passed ++ waiting s₃.daemon = [] := by
    rw [hpassed₃, hpassed₂, hpassed₁, waiting, hbridge₃, hbridge₂, hbridge₁, hbus, hnone]; rfl
  refine ⟨s₃, ?_, hpub₃.trans (hpub₂.trans hpub₁), hgone, fun hD => ?_⟩
  · rw [behind, show busCapacity = 1023 + 1 from rfl, List.replicate_succ', Sys.run_append, hs₁, Option.bind_some,
      Sys.run_append, hs₂, Option.bind_some, Sys.run_cons_some hs₃]; rfl
  · have hD : s₃.passed ++ waiting s₃.daemon = s₃.heard := hD
    rw [hgone, hheard₃, hheard₂, hheard₁] at hD
    cases hD

end Auxlry.Startup
