import Auxlry.Proof.Stun
import Auxlry.Spec.Traversal

/-!
# Who answered a probe

A probe succeeds when anything is received, and says that the target did.

* `received_eq_some`: what a probe takes is what arrives first.
* `established_iff`: a direct or hole-punched result comes from a datagram of the target **exactly
  when** each strategy that is tried hears the target first, if it hears anyone.
* `others_heard`: a stranger's datagram makes either strategy succeed.
-/

namespace Auxlry

/-- A datagram of the target is received until the deadline. -/
def AnsweredBy (target : SocketAddr) (w : SocketWorld) (deadline : ℕ) : Prop :=
  ∃ a ∈ w.arrivals, a.time ≤ deadline ∧ ∃ d, a.event = .ok d ∧ d.sender = target

/-- What is received first until the deadline, if anything is. -/
def FirstReceived (w : SocketWorld) (deadline : ℕ) (event : Except String Datagram) : Prop :=
  ∃ early a late, w.arrivals = early ++ a :: late ∧ (∀ x ∈ early, deadline < x.time) ∧ a.time ≤ deadline ∧
    a.event = event

/-- What is received first is a datagram of this sender. -/
def FirstFrom (w : SocketWorld) (deadline : ℕ) (sender : SocketAddr) : Prop :=
  ∃ d, FirstReceived w deadline (.ok d) ∧ d.sender = sender

/-- The socket is bound and the probes are sent. -/
def Ready (w : SocketWorld) (probes : ℕ) : Prop := w.bind = .ok () ∧ ∀ i < probes, w.send i = .ok ()

/-- The probes are sent, and what is received first is a datagram, of anyone. -/
def Heard (w : SocketWorld) (probes deadline : ℕ) : Prop :=
  Ready w probes ∧ ∃ sender, FirstFrom w deadline sender

/-- If the result says that the target answered, it did, and the datagram that the probe took was
its own. -/
structure Sound (w : TraversalWorld) (target : SocketAddr) (result : Except Failure TraversalResult) :
    Prop where
  direct : ∀ addr, result = .ok (.direct addr) →
    addr = target ∧ AnsweredBy target w.direct 3000 ∧ FirstFrom w.direct 3000 target
  punched : ∀ addr, result = .ok (.holePunched addr) →
    addr = target ∧ AnsweredBy target w.punch 3300 ∧ FirstFrom w.punch 3300 target

/-! ## One strategy -/

theorem systemCall_ok {e : Except String Unit} : systemCall e = .ok () ↔ e = .ok () := by
  cases e <;> simp [systemCall]

theorem systemCall_error {e : Except String Unit} (h : e ≠ .ok ()) :
    ∃ m, systemCall e = .error (.bail m) := by
  cases e with
  | ok => exact absurd rfl h
  | error m => exact ⟨m, rfl⟩

/-- **What a probe takes** is what arrives first. -/
theorem received_eq_some {w : SocketWorld} {deadline : ℕ} {event : Except String Datagram} :
    w.received deadline = some event ↔ FirstReceived w deadline event := by
  unfold SocketWorld.received FirstReceived
  rw [Option.map_eq_some_iff]
  simp only [List.find?_eq_some_iff_append]
  constructor
  · rintro ⟨a, ⟨ha, early, late, harrivals, hearly⟩, hevent⟩
    refine ⟨early, a, late, harrivals, fun x hx => ?_, of_decide_eq_true ha, hevent⟩
    simpa using hearly x hx
  · rintro ⟨early, a, late, harrivals, hearly, ha, hevent⟩
    refine ⟨a, ⟨decide_eq_true ha, early, late, harrivals, fun x hx => ?_⟩, hevent⟩
    simpa using hearly x hx

theorem heard_iff {w : SocketWorld} {probes deadline : ℕ} :
    Heard w probes deadline ↔ Ready w probes ∧ ∃ d, w.received deadline = some (.ok d) := by
  unfold Heard FirstFrom
  simp only [received_eq_some]
  constructor
  · rintro ⟨hready, sender, d, hd, -⟩
    exact ⟨hready, d, hd⟩
  · rintro ⟨hready, d, hd⟩
    exact ⟨hready, d.sender, d, hd, rfl⟩

/-- Only one datagram is the first. -/
theorem FirstFrom.unique {w : SocketWorld} {deadline : ℕ} {a b : SocketAddr} (ha : FirstFrom w deadline a)
    (hb : FirstFrom w deadline b) : a = b := by
  obtain ⟨d, hd, rfl⟩ := ha
  obtain ⟨d', hd', rfl⟩ := hb
  rw [← received_eq_some] at hd hd'
  rw [hd] at hd'
  obtain rfl := Except.ok.inj (Option.some.inj hd')
  rfl

theorem FirstFrom.answeredBy {w : SocketWorld} {deadline : ℕ} {target : SocketAddr}
    (h : FirstFrom w deadline target) : AnsweredBy target w deadline := by
  obtain ⟨d, ⟨early, a, late, harrivals, -, ha, hevent⟩, hd⟩ := h
  exact ⟨a, harrivals ▸ List.mem_append_right _ List.mem_cons_self, ha, d, hevent, hd⟩

/-- **A strategy that succeeds** does so on a datagram of the target exactly if it hears no other first. -/
theorem own_iff {w : SocketWorld} {probes deadline : ℕ} {target : SocketAddr} (h : Heard w probes deadline) :
    (AnsweredBy target w deadline ∧ FirstFrom w deadline target) ↔
      (Ready w probes → ∀ sender, FirstFrom w deadline sender → sender = target) := by
  constructor
  · rintro ⟨-, hfirst⟩ - sender hsender
    exact hsender.unique hfirst
  · intro hall
    obtain ⟨hready, sender, hsender⟩ := h
    obtain rfl := hall hready sender hsender
    exact ⟨hsender.answeredBy, hsender⟩

/-- **The direct probe succeeds exactly if something is heard**, and names the target. -/
theorem tryDirect_spec (w : SocketWorld) (target : SocketAddr) (timeout : ℕ) :
    (Heard w 1 timeout → tryDirect w target timeout = .ok target) ∧
      (¬ Heard w 1 timeout → ∃ m, tryDirect w target timeout = .error (.bail m)) := by
  rw [heard_iff]
  unfold tryDirect Ready
  by_cases hb : w.bind = .ok ()
  swap
  · obtain ⟨m, hm⟩ := systemCall_error hb
    exact ⟨fun h => absurd h.1.1 hb, fun _ => ⟨m, by rw [hm]; rfl⟩⟩
  by_cases hs : w.send 0 = .ok ()
  swap
  · obtain ⟨m, hm⟩ := systemCall_error hs
    exact ⟨fun h => absurd (h.1.2 0 (by decide)) hs,
      fun _ => ⟨m, by rw [systemCall_ok.2 hb, hm]; rfl⟩⟩
  rw [systemCall_ok.2 hb, systemCall_ok.2 hs]
  have hsends : ∀ i < 1, w.send i = .ok () := by
    intro i hi
    obtain rfl : i = 0 := by omega
    exact hs
  rcases hr : w.received timeout with _ | _ | d
  · exact ⟨fun ⟨_, d, hd⟩ => (by cases hd), fun _ => ⟨_, rfl⟩⟩
  · exact ⟨fun ⟨_, d, hd⟩ => (by cases hd), fun _ => ⟨_, rfl⟩⟩
  · exact ⟨fun _ => rfl, fun h => absurd ⟨⟨hb, hsends⟩, d, rfl⟩ h⟩

/-- **The hole punch succeeds exactly if** the STUN server answers and something is heard. -/
theorem tryHolePunch_spec (stun : String → Except Failure SocketAddr) (w : SocketWorld)
    (target : SocketAddr) (server : String) :
    ((∃ addr, stun server = .ok addr) ∧ Heard w 3 3300 → tryHolePunch stun w target server = .ok target) ∧
      (¬ ((∃ addr, stun server = .ok addr) ∧ Heard w 3 3300) →
        ∃ e, tryHolePunch stun w target server = .error e) := by
  rw [heard_iff]
  unfold tryHolePunch Ready
  cases hstun : stun server with
  | error e => exact ⟨fun ⟨⟨_, h⟩, _⟩ => (by cases h), fun _ => ⟨e, rfl⟩⟩
  | ok addr =>
    by_cases hb : w.bind = .ok ()
    swap
    · obtain ⟨m, hm⟩ := systemCall_error hb
      exact ⟨fun h => absurd h.2.1.1 hb, fun _ => ⟨.bail m, by rw [hm]; rfl⟩⟩
    by_cases hs : ∀ i < 3, w.send i = .ok ()
    · rw [systemCall_ok.2 hb, systemCall_ok.2 (hs 0 (by decide)), systemCall_ok.2 (hs 1 (by decide)),
        systemCall_ok.2 (hs 2 (by decide))]
      rcases hr : w.received (300 + 3000) with _ | _ | d
      · exact ⟨fun ⟨_, _, d, hd⟩ => (by cases hd), fun _ => ⟨_, rfl⟩⟩
      · exact ⟨fun ⟨_, _, d, hd⟩ => (by cases hd), fun _ => ⟨_, rfl⟩⟩
      · exact ⟨fun _ => rfl, fun h => absurd ⟨⟨addr, rfl⟩, ⟨hb, hs⟩, d, rfl⟩ h⟩
    · -- one of the probes is not sent, and the first such ends the attempt
      refine ⟨fun h => absurd h.2.1.2 hs, fun _ => ?_⟩
      rw [systemCall_ok.2 hb]
      rcases h0 : w.send 0 with e | _
      · exact ⟨_, rfl⟩
      rcases h1 : w.send 1 with e | _
      · exact ⟨_, rfl⟩
      rcases h2 : w.send 2 with e | _
      · exact ⟨_, rfl⟩
      refine absurd (fun i hi => ?_) hs
      obtain rfl | rfl | rfl : i = 0 ∨ i = 1 ∨ i = 2 := by omega
      · exact h0
      · exact h1
      · exact h2

theorem tryRelay_result {w : TraversalWorld} {target : String} {config : CoreConfig}
    {result : TraversalResult} (h : tryRelay w target config = .ok result) :
    ∃ relay, result = .relayed relay := by
  unfold tryRelay at h
  split at h
  · rename_i server username credential _ _ _
    rcases hc : w.turnClient server username credential with _ | client
    · rw [hc] at h; cases h
    · rw [hc] at h
      rcases ha : withContext "TURN allocation failed" (w.allocate client) with _ | relay
      · rw [ok_bind, ha] at h; cases h
      · rw [ok_bind, ha] at h
        exact ⟨relay, (Except.ok.inj h).symm⟩
  · cases h

/-- A relay says nothing about the target. -/
theorem sound_relay (w : TraversalWorld) (target : SocketAddr) (name : String) (config : CoreConfig) :
    Sound w target (tryRelay w name config) := by
  constructor
  · intro addr h
    obtain ⟨relay, hr⟩ := tryRelay_result h
    cases hr
  · intro addr h
    obtain ⟨relay, hr⟩ := tryRelay_result h
    cases hr

/-! ## The cascade -/

/-- **A result that names the target comes from a datagram of the target exactly when** what the
direct probe receives first is from nobody else, and if it hears nobody, what the hole punch
receives first is not either. -/
theorem established_iff (display : SocketAddr → String) (w : TraversalWorld) (target : SocketAddr)
    (config : CoreConfig) :
    Sound w target (establishConnection display w target config) ↔
      (Ready w.direct 1 → ∀ sender, FirstFrom w.direct 3000 sender → sender = target) ∧
      (¬ Heard w.direct 1 3000 → ∀ server more, config.stunServers = server :: more →
        (∃ addr, w.stun server = .ok addr) → Ready w.punch 3 →
          ∀ sender, FirstFrom w.punch 3300 sender → sender = target) := by
  rw [establishConnection]
  by_cases hd : Heard w.direct 1 3000
  · -- the direct probe succeeds
    rw [(tryDirect_spec w.direct target 3000).1 hd, ← own_iff hd]
    constructor
    · exact fun h => ⟨(h.direct target rfl).2, fun hn => absurd hd hn⟩
    · rintro ⟨h, -⟩
      exact ⟨fun addr ha => (by cases ha; exact ⟨rfl, h⟩), fun addr ha => by cases ha⟩
  · obtain ⟨m, hm⟩ := (tryDirect_spec w.direct target 3000).2 hd
    have hfirst : Ready w.direct 1 → ∀ sender, FirstFrom w.direct 3000 sender → sender = target :=
      fun hready sender hsender => absurd ⟨hready, sender, hsender⟩ hd
    rw [hm]
    cases hs : config.stunServers with
    | nil =>
      exact iff_of_true (sound_relay w target _ config) ⟨hfirst, fun _ _ _ h => by cases h⟩
    | cons server more =>
      dsimp only
      by_cases hp : (∃ addr, w.stun server = .ok addr) ∧ Heard w.punch 3 3300
      · -- the hole punch succeeds
        rw [(tryHolePunch_spec w.stun w.punch target server).1 hp]
        constructor
        · intro h
          refine ⟨hfirst, fun _ _ _ _ _ => ?_⟩
          exact (own_iff hp.2).1 (h.punched target rfl).2
        · rintro ⟨-, h⟩
          have hown := (own_iff hp.2).2 (h hd server more rfl hp.1)
          exact ⟨fun addr ha => (by cases ha), fun addr ha => by cases ha; exact ⟨rfl, hown⟩⟩
      · obtain ⟨e, he⟩ := (tryHolePunch_spec w.stun w.punch target server).2 hp
        rw [he]
        refine iff_of_true ?_ ⟨hfirst, fun _ server' more' heq hstun hready sender hsender => ?_⟩
        · cases e with
          | panicked => exact ⟨fun _ h => (by cases h), fun _ h => by cases h⟩
          | bail m => exact sound_relay w target _ config
        · obtain ⟨rfl, rfl⟩ := List.cons.inj heq
          exact absurd ⟨hstun, hready, sender, hsender⟩ hp

/-! ## A stranger -/

def targetAddr : SocketAddr := .v4 #v[198, 51, 100, 7] 9100

/-- A socket that works, and at which a datagram of somebody else arrives. -/
def strangeSocket : SocketWorld :=
  ⟨.ok (), fun _ => .ok (), [⟨5, .ok ⟨.v4 #v[203, 0, 113, 5] 4444, [0]⟩⟩]⟩

def silentSocket : SocketWorld := ⟨.ok (), fun _ => .ok (), []⟩

/-- A world whose STUN server answers; there is no relay. -/
def worldOf (direct punch : SocketWorld) : TraversalWorld where
  direct := direct
  stun _ := .ok (.v4 #v[192, 0, 2, 77] 40000)
  punch := punch
  turnClient _ _ _ := .error (.bail "TURN DNS lookup failed")
  allocate _ := .error (.bail "TURN allocate timeout")

def stunOnly : CoreConfig := ⟨["stun.example:3478"], none, none, none⟩

theorem stranger_ne (deadline : ℕ) : ¬ AnsweredBy targetAddr strangeSocket deadline := by
  rintro ⟨a, ha, -, d, hd, hs⟩
  obtain rfl := List.mem_singleton.1 ha
  obtain rfl := Except.ok.inj hd
  exact absurd hs (by decide)

/-- **A stranger's datagram is taken for the target's answer**, by either strategy. -/
theorem others_heard :
    (establishConnection (fun _ => "") (worldOf strangeSocket silentSocket) targetAddr stunOnly =
        .ok (.direct targetAddr) ∧ ¬ AnsweredBy targetAddr strangeSocket 3000) ∧
      establishConnection (fun _ => "") (worldOf silentSocket strangeSocket) targetAddr stunOnly =
        .ok (.holePunched targetAddr) ∧ ¬ AnsweredBy targetAddr strangeSocket 3300 :=
  ⟨⟨rfl, stranger_ne 3000⟩, rfl, stranger_ne 3300⟩

end Auxlry
