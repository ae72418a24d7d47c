import Auxlry.Spec.LiveFeed
import Auxlry.Sys.Run
import Auxlry.Time.Rfc3339
import Mathlib.Data.List.DropRight
import Mathlib.Data.List.ReduceOption

/-!
# What the live feed shows

What is streamed of an event is one line of JSON, whatever its strings hold, and so the server
never panics over one. The dashboard shows the events as they were published, but for the kinds
that it does not listen to.

* `Documented`: what the packages that stream are said to do.
* `Invariant.step`, `Invariant.run`: what the server has written are the events it received.
* `useEventStream_map`: what the dashboard holds after events of the stream.
* `liveFeed_shows`: **the live feed**, from the bus to the dashboard.
-/

namespace Auxlry.Events

open Sys (Accounts Receiver Reaches)

variable {V : Type} {f : Streaming V} {value : Event EventPayload → V}

/-! ## What is documented -/

def OneLine (s : String) : Prop := '\n' ∉ s.toList ∧ '\r' ∉ s.toList

instance (s : String) : Decidable (OneLine s) := inferInstanceAs (Decidable (_ ∧ _))

/-- An event that fits a stream as it is: its kind and its data are one line each, and not empty. -/
structure Plain (x : Frame) : Prop where
  event : x.event ≠ "" ∧ OneLine x.event
  data : x.data ≠ "" ∧ OneLine x.data

/-- What is relied on: an event is serialized as JSON in one line, which reads as the object
`value` of the event; a line is taken for the kind and for the data of an event of the stream; and
whatever has arrived of a stream of such events, those that are complete are dispatched, in their
order and as they were written. -/
structure Documented (f : Streaming V) (value : Event EventPayload → V) : Prop where
  json : ∀ e, ∃ data, f.toJson e = some data ∧ data ≠ "" ∧ OneLine data ∧ f.parse data = some (value e)
  makes : ∀ x : Frame, OneLine x.event → OneLine x.data → f.panics x = false
  dispatches : ∀ items n, (∀ x ∈ items.reduceOption, Plain x) →
    f.dispatched items n <+: items.reduceOption ∧ (f.size items ≤ n → f.dispatched items n = items.reduceOption)

/-! ## One event -/

theorem kind_plain (p : EventPayload) : p.kind ≠ "" ∧ OneLine p.kind := by
  cases p <;> (simp only [EventPayload.kind]; decide)

/-- **An event can be written**, and fits the stream. -/
theorem plain_sseEvent (hf : Documented f value) (e : Event EventPayload) :
    Plain (sseEvent f e) ∧ f.panics (sseEvent f e) = false := by
  obtain ⟨data, hdata, hne, hline, -⟩ := hf.json e
  have hkind := kind_plain e.payload
  have hsse : sseEvent f e = ⟨e.payload.kind, data⟩ := by
    unfold sseEvent
    rw [hdata]; rfl
  rw [hsse]
  exact ⟨⟨hkind, hne, hline⟩, hf.makes _ hkind.2 hline⟩

/-- An event that the dashboard shows. -/
def Shown (e : Event EventPayload) : Prop := e.payload.kind ≠ "agent_interrupted" ∧ e.payload.kind ≠ "agent_steered"

instance (e : Event EventPayload) : Decidable (Shown e) := inferInstanceAs (Decidable (_ ∧ _))

/-- The dashboard listens to every kind but two. -/
theorem mem_eventTypes (p : EventPayload) :
    p.kind ∈ eventTypes ↔ p.kind ≠ "agent_interrupted" ∧ p.kind ≠ "agent_steered" := by
  cases p <;> (simp only [EventPayload.kind]; decide)

/-- **An event comes in.** -/
theorem handler_sseEvent (hf : Documented f value) (maxEvents : ℕ) (prev : List V) (e : Event EventPayload) :
    handler f maxEvents prev (sseEvent f e) = if Shown e then (value e :: prev).take maxEvents else prev := by
  obtain ⟨data, hdata, -, -, hparse⟩ := hf.json e
  unfold handler sseEvent
  rw [hdata]
  dsimp only [Option.getD_some]
  rw [hparse]
  exact if_congr (mem_eventTypes e.payload) rfl rfl

/-- **What the dashboard holds**: the newest events that it shows, the latest first. -/
theorem useEventStream_map (hf : Documented f value) (maxEvents : ℕ) (es : List (Event EventPayload)) :
    useEventStream f maxEvents (es.map (sseEvent f)) =
      ((es.filter Shown).map value).reverse.take maxEvents := by
  induction es using List.reverseRecOn with
  | nil => exact List.take_nil.symm
  | append_singleton es e ih =>
    rw [useEventStream, List.map_append, List.foldl_append, List.map_singleton, List.foldl_cons, List.foldl_nil,
      handler_sseEvent hf]
    rw [useEventStream] at ih
    rw [ih, List.filter_append, List.map_append, List.reverse_append]
    by_cases hshown : Shown e
    · rw [if_pos hshown, List.filter_cons_of_pos (by simpa using hshown), List.filter_nil, List.map_singleton,
        List.reverse_singleton, List.singleton_append]
      cases maxEvents with
      | zero => rfl
      | succ n => rw [List.take_succ_cons, List.take_succ_cons, List.take_take, Nat.min_eq_left (Nat.le_succ n)]
    · rw [if_neg hshown, List.filter_cons_of_neg (by simpa using hshown)]; rfl

/-! ## A connection -/

namespace LiveFeed

variable {s s' : LiveFeed} {act : Action}

/-- What holds of a connection. -/
structure Invariant (f : Streaming V) (s : LiveFeed) : Prop where
  accounts : Accounts busCapacity s.published s.streamed s.skipped s.rx
  panicked : s.panicked = false
  written : s.written.reduceOption = s.streamed.map (sseEvent f)

theorem Invariant.subscribe : Invariant f subscribe := ⟨.new, rfl, rfl⟩

/-- **One step** keeps it. -/
theorem Invariant.step (hf : Documented f value) (h : Invariant f s) (hstep : s.step f act = some s') :
    Invariant f s' := by
  cases act with
  | publish event =>
    cases hstep
    exact ⟨h.accounts.send (by decide) event, h.panicked, h.written⟩
  | poll =>
    rw [LiveFeed.step, h.panicked, if_neg Bool.false_ne_true] at hstep
    split at hstep
    · cases hstep
    · rename_i n rx hrecv
      cases hstep
      exact ⟨h.accounts.lagged hrecv, rfl, h.written⟩
    · rename_i event rx hrecv
      rw [(plain_sseEvent hf event).2, if_neg Bool.false_ne_true] at hstep
      cases hstep
      refine ⟨h.accounts.value hrecv, rfl, ?_⟩
      dsimp only
      rw [List.reduceOption_append, h.written, List.map_append]; rfl
  | keepAlive =>
    rw [LiveFeed.step, h.panicked, if_neg Bool.false_ne_true] at hstep
    cases hstep
    refine ⟨h.accounts, rfl, ?_⟩
    dsimp only
    rw [List.reduceOption_append, h.written]; exact List.append_nil _
  | arrive n =>
    cases hstep
    exact ⟨h.accounts, h.panicked, h.written⟩

/-- **A run** keeps it. -/
theorem Invariant.run (hf : Documented f value) (hs : Reaches (LiveFeed.step f) LiveFeed.subscribe s) :
    Invariant f s :=
  hs.inv (fun _ _ _ h hstep => h.step hf hstep) .subscribe

/-- What was dispatched are the first of the events streamed, and all of them in the end. -/
theorem Invariant.dispatched (hf : Documented f value) (h : Invariant f s) :
    ∃ seen, seen <+: s.streamed ∧ s.dispatched f = seen.map (sseEvent f) ∧
      (f.size s.written ≤ s.arrived → seen = s.streamed) := by
  have hplain : ∀ x ∈ s.written.reduceOption, Plain x := by
    intro x hx
    rw [h.written] at hx
    obtain ⟨e, -, rfl⟩ := List.mem_map.1 hx
    exact (plain_sseEvent hf e).1
  obtain ⟨hpre, hall⟩ := hf.dispatches s.written s.arrived hplain
  rw [h.written] at hpre hall
  obtain ⟨rest, hrest⟩ := hpre
  obtain ⟨seen, later, hsplit, hseen, -⟩ := List.map_eq_append_iff.1 hrest.symm
  refine ⟨seen, ⟨later, hsplit.symm⟩, hseen.symm, fun hsize => ?_⟩
  have hlen := congrArg List.length (hseen.trans (hall hsize))
  rw [List.length_map, List.length_map] at hlen
  have hpre : seen <+: s.streamed := ⟨later, hsplit.symm⟩
  exact hpre.eq_of_length hlen

end LiveFeed

/-- **The live feed.** Whatever is published while a dashboard is connected: the server writes
every event that it receives, and panics over none; of the events published each is streamed in
its order, skipped by a connection a full bus behind, or waits; and the dashboard holds the
newest of those that it has read, as they were published, but for interrupted and steered agents. -/
theorem liveFeed_shows (hf : Documented f value) {s : LiveFeed}
    (hs : Reaches (LiveFeed.step f) LiveFeed.subscribe s) (maxEvents : ℕ) :
    s.panicked = false ∧ s.streamed.Sublist s.published ∧
    s.published.length = s.streamed.length + s.skipped + s.rx.lost + s.rx.waiting.length ∧
    (s.skipped = 0 → s.rx.lost = 0 → s.published = s.streamed ++ s.rx.waiting) ∧
    ∃ seen, seen <+: s.streamed ∧ (f.size s.written ≤ s.arrived → seen = s.streamed) ∧
      useEventStream f maxEvents (s.dispatched f) = ((seen.filter Shown).map value).reverse.take maxEvents := by
  have hinv := LiveFeed.Invariant.run hf hs
  refine ⟨hinv.panicked, hinv.accounts.sublist, hinv.accounts.length_sent, hinv.accounts.received_eq, ?_⟩
  obtain ⟨seen, hseen, hdispatched, hall⟩ := hinv.dispatched hf
  exact ⟨seen, hseen, hall, by rw [hdispatched, useEventStream_map hf]⟩

/-! ## Two events -/

/-- The JSON of an event with no fields and nothing to escape. -/
def plainJson (e : Event EventPayload) : String :=
  let members := "\"id\":\"" ++ e.id ++ "\",\"timestamp\":\"" ++
    String.ofList (e.timestamp.text.toList.rdrop 6 ++ ['Z']) ++ "\",\"payload\":\x7b\"type\":\"" ++
    e.payload.kind ++ "\"\x7d\x7d"
  String.ofList ('\x7b' :: members.toList.filter fun c => ' ' ≤ c)

theorem plainJson_line (e : Event EventPayload) : plainJson e ≠ "" ∧ OneLine (plainJson e) := by
  have hlist : ∃ cs : List Char, (plainJson e).toList = '\x7b' :: cs.filter fun c => ' ' ≤ c :=
    ⟨_, String.toList_ofList⟩
  obtain ⟨cs, hcs⟩ := hlist
  have hcontrol : ∀ c ∈ (plainJson e).toList, ' ' ≤ c := by
    intro c hc
    rw [hcs] at hc
    rcases List.mem_cons.1 hc with rfl | hc
    · decide
    · exact of_decide_eq_true (List.mem_filter.1 hc).2
  refine ⟨fun hempty => ?_, fun hbreak => ?_, fun hbreak => ?_⟩
  · rw [hempty] at hcs
    cases hcs
  · exact absurd (hcontrol _ hbreak) (by decide)
  · exact absurd (hcontrol _ hbreak) (by decide)

/-- How many bytes an event of the stream has, or a comment. -/
def bytes : Option Frame → ℕ
  | some x => x.event.utf8ByteSize + x.data.utf8ByteSize + 16
  | none => 3

def bytesAll : List (Option Frame) → ℕ
  | [] => 0
  | item :: items => bytes item + bytesAll items

/-- The events of which every byte has arrived. -/
def complete : List (Option Frame) → ℕ → List Frame
  | [], _ => []
  | item :: items, n => if bytes item ≤ n then item.toList ++ complete items (n - bytes item) else []

theorem complete_prefix (items : List (Option Frame)) (n : ℕ) :
    complete items n <+: items.reduceOption ∧ (bytesAll items ≤ n → complete items n = items.reduceOption) := by
  induction items generalizing n with
  | nil => exact ⟨List.prefix_rfl, fun _ => rfl⟩
  | cons item items ih =>
    have hreduce : (item :: items).reduceOption = item.toList ++ items.reduceOption := by
      cases item <;> rfl
    obtain ⟨hpre, hall⟩ := ih (n - bytes item)
    rw [hreduce, complete, bytesAll]
    split
    · rename_i hfits
      exact ⟨List.prefix_append_right_inj _ |>.2 hpre, fun h => by rw [hall (by omega)]⟩
    · rename_i hmore
      exact ⟨List.nil_prefix, fun h => absurd (Nat.le_trans (Nat.le_add_right _ _) h) hmore⟩

/-- The packages, for such events; an object is known by its text. -/
def plainStreaming : Streaming String where
  toJson e := some (plainJson e)
  panics x := x.event.toList.any (fun c => c = '\n' || c = '\r') || x.data.toList.any (· = '\r')
  size := bytesAll
  dispatched := complete
  parse := some

theorem documented_plain : Documented plainStreaming plainJson where
  json e := ⟨plainJson e, rfl, (plainJson_line e).1, (plainJson_line e).2, rfl⟩
  makes x hevent hdata := by
    refine Bool.or_eq_false_iff.2
      ⟨List.any_eq_false.2 fun c hc hbreak => ?_, List.any_eq_false.2 fun c hc hbreak => ?_⟩
    · rcases Bool.or_eq_true_iff.1 hbreak with hbreak | hbreak
      · exact hevent.1 (of_decide_eq_true hbreak ▸ hc)
      · exact hevent.2 (of_decide_eq_true hbreak ▸ hc)
    · exact hdata.2 (of_decide_eq_true hbreak ▸ hc)
  dispatches items n _ := complete_prefix items n

/-- A connection whose second event is still arriving. -/
def twoStreamed : List LiveFeed.Action :=
  [.publish ⟨"a", ⟨2023, 6, 30, 12, 30, 5, 0, by decide⟩, .coreStarted⟩, .poll, .keepAlive,
   .publish ⟨"b", ⟨2023, 6, 30, 12, 30, 6, 0, by decide⟩, .coreStopping⟩, .poll, .arrive 150]

/-- The dashboard shows the first. -/
theorem liveFeed_shows_twoStreamed :
    ∃ s, Reaches (LiveFeed.step plainStreaming) LiveFeed.subscribe s ∧ s.panicked = false ∧
      s.published = s.streamed ∧ s.streamed.length = 2 ∧ (s.dispatched plainStreaming).length = 1 := by
  have hrun : Sys.run (LiveFeed.step plainStreaming) LiveFeed.subscribe twoStreamed = some _ := rfl
  obtain ⟨hpanicked, -, -, hsame, -⟩ := liveFeed_shows documented_plain ⟨twoStreamed, hrun⟩ 30
  exact ⟨_, ⟨twoStreamed, hrun⟩, hpanicked, hsame rfl rfl, rfl, rfl⟩

end Auxlry.Events
