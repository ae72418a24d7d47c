import Auxlry.Proof.Events
import Auxlry.Time.Sqlite

/-!
# Counting events

The counts are to be of the last hours or days. The query compares two spellings of times.

* `selected_iff`: an event is counted exactly if it is on the day of the cutoff or later.
* `counts_iff`: the counts are those of the last N hours, or days, **exactly when** no event
  of these kinds is on the day of the cutoff and before it, and no time is too far away.
* `early_event_counted`: an event of four hours ago among those of the last hour.
-/

namespace Auxlry

open Time

/-- Julian day 0, in seconds before the year 0: SQLite has no times before it. -/
def julianEpoch : ℕ := 148699540800

/-- The second that is `n` units before a time. -/
def cutoffSecond (now : DateTime) (unit : ℕ) (n : ℤ) : ℤ := now.seconds - n * unit

/-- The time is not earlier than `n` units ago. -/
def Since (now : DateTime) (unit : ℕ) (n : ℤ) (t : DateTime) : Prop :=
  cutoffSecond now unit n < t.seconds ∨ cutoffSecond now unit n = t.seconds ∧ now.nano ≤ t.nano

instance (now : DateTime) (unit : ℕ) (n : ℤ) (t : DateTime) : Decidable (Since now unit n t) :=
  inferInstanceAs (Decidable (_ ∨ _))

/-- The modifier is a number, and the time one that SQLite has. -/
def Reachable (now : DateTime) (unit : ℕ) (n : ℤ) : Prop :=
  0 ≤ n ∧ -(julianEpoch : ℤ) ≤ cutoffSecond now unit n

instance (now : DateTime) (unit : ℕ) (n : ℤ) : Decidable (Reachable now unit n) :=
  inferInstanceAs (Decidable (_ ∧ _))

/-- **What `datetime` returns** for some units ago: a time to the second, with a minus sign in
front of a year before 0, or NULL for a time that it does not have and for a number with two
minus signs. -/
structure CountsBack (now : DateTime) (unit : ℕ) (n : ℤ) (text : Option String) : Prop where
  time : Reachable now unit n → 0 ≤ cutoffSecond now unit n →
    ∃ c : DateTime, (c.seconds : ℤ) = cutoffSecond now unit n ∧ text = some (sqliteText c)
  early : Reachable now unit n → cutoffSecond now unit n < 0 → ∃ s, text = some ("-" ++ s)
  null : ¬ Reachable now unit n → text = none

theorem days_eq (t : DateTime) : (t.days : ℤ) = t.seconds / 86400 := by
  obtain ⟨-, -, -, -, -, hh, hm, hs, -⟩ := t.valid
  unfold DateTime.seconds
  omega

variable {now : DateTime} {unit : ℕ} {n : ℤ} {text : Option String}

/-- **An event is counted exactly if** it is on the day of the cutoff, or later. -/
theorem selected_iff (hback : CountsBack now unit n text) (t : DateTime) :
    text.any (· ≤ t.text) = true ↔ Reachable now unit n ∧ cutoffSecond now unit n / 86400 ≤ t.days := by
  by_cases hr : Reachable now unit n
  swap
  · rw [hback.null hr]
    exact iff_of_false (by simp) (fun h => hr h.1)
  rcases lt_or_ge (cutoffSecond now unit n) 0 with hneg | hpos
  · -- before every event
    obtain ⟨s, hs⟩ := hback.early hr hneg
    rw [hs, Option.any_some, decide_eq_true_eq]
    exact iff_of_true (minus_le_text s t) ⟨hr, by omega⟩
  · obtain ⟨c, hc, hs⟩ := hback.time hr hpos
    rw [hs, Option.any_some, decide_eq_true_eq, sqliteText_le_text_iff, ← hc, ← days_eq]
    exact ⟨fun h => ⟨hr, by exact_mod_cast h⟩, fun h => by exact_mod_cast h.2⟩

/-- What is not earlier than the cutoff is not on an earlier day. -/
theorem Since.day {t : DateTime} (h : Since now unit n t) : cutoffSecond now unit n / 86400 ≤ t.days := by
  rw [days_eq]
  unfold Since at h
  omega

/-! ## Counts -/

/-- If all that one test accepts another does, they count the same exactly if the other
accepts no more. -/
theorem countP_eq_iff {α : Type} {p q : α → Bool} {l : List α} (h : ∀ x ∈ l, p x → q x) :
    l.countP p = l.countP q ↔ ∀ x ∈ l, q x → p x := by
  induction l with
  | nil => simp
  | cons x l ih =>
    rw [List.forall_mem_cons] at h
    have hle : l.countP p ≤ l.countP q := List.countP_mono_left h.2
    have ih := ih h.2
    rw [List.countP_cons, List.countP_cons, List.forall_mem_cons, ← ih]
    cases hp : p x with
    | true => rw [h.1 hp]; simp
    | false =>
      cases hq : q x with
      | true =>
        refine iff_of_false (fun heq => ?_) (fun h => absurd (h.1 rfl) (by decide))
        simp only [if_true, Bool.false_eq_true, if_false] at heq
        omega
      | false => simp

section

variable {P : Type} (c : EventCodec P) (bucket : String → String) (events : List (Event P))
  (kinds : List String)

/-- The counts, per bucket and kind, are those of the events of these kinds that are not
earlier than `n` units ago. -/
def ExactCounts (now : DateTime) (unit : ℕ) (n : ℤ) (out : List (String × String × ℕ)) : Prop :=
  ∀ b kind m, (b, kind, m) ∈ out ↔
    m = events.countP (fun e => (bucket (c.toRfc3339 e.timestamp) = b ∧ c.kind e.payload = kind) ∧
      c.kind e.payload ∈ kinds ∧ Since now unit n e.timestamp) ∧ 0 < m

/-- No event of these kinds is on the day of the cutoff and before it; and if SQLite does not
have the cutoff, none is to be counted. -/
def ClearCut (now : DateTime) (unit : ℕ) (n : ℤ) : Prop :=
  ∀ e ∈ events, c.kind e.payload ∈ kinds →
    if Reachable now unit n then
      Since now unit n e.timestamp ∨ (e.timestamp.days : ℤ) < cutoffSecond now unit n / 86400
    else ¬ Since now unit n e.timestamp

end

section

variable {P : Type} {c : EventCodec P} {bucket : String → String} {events : List (Event P)}
  {kinds : List String} {out : List (String × String × ℕ)}

/-- What the query counts. -/
theorem countP_eventsSince (hc : c.Faithful) (hback : CountsBack now unit n text) (b kind : String) :
    (eventsSince (events.map c.row) kinds text).countP (fun r => bucket r.createdAt = b ∧ r.kind = kind) =
      events.countP (fun e => (bucket (c.toRfc3339 e.timestamp) = b ∧ c.kind e.payload = kind) ∧
        c.kind e.payload ∈ kinds ∧ Reachable now unit n ∧
          cutoffSecond now unit n / 86400 ≤ e.timestamp.days) := by
  rw [eventsSince, List.countP_filter, List.countP_map]
  refine List.countP_congr fun e _ => ?_
  have hsel := selected_iff hback e.timestamp
  rw [← hc.writes] at hsel
  rw [decide_eq_true_eq, ← hsel]
  exact (Bool.and_eq_true_iff ..).trans (and_congr decide_eq_true_iff decide_eq_true_iff)

/-- Exact counts: for each bucket and kind, as many events are counted as are to be. -/
theorem exactCounts_iff_countP (hc : c.Faithful) (hback : CountsBack now unit n text) (hkinds : kinds ≠ [])
    (hout : CountedSince bucket (events.map c.row) kinds text out) :
    ExactCounts c bucket events kinds now unit n out ↔ ∀ b kind,
      events.countP (fun e => (bucket (c.toRfc3339 e.timestamp) = b ∧ c.kind e.payload = kind) ∧
        c.kind e.payload ∈ kinds ∧ Reachable now unit n ∧
          cutoffSecond now unit n / 86400 ≤ e.timestamp.days) =
      events.countP (fun e => (bucket (c.toRfc3339 e.timestamp) = b ∧ c.kind e.payload = kind) ∧
        c.kind e.payload ∈ kinds ∧ Since now unit n e.timestamp) := by
  rw [CountedSince, if_neg hkinds] at hout
  have hcounts := hout.counts
  simp only [countP_eventsSince hc hback] at hcounts
  have hsame : ∀ A B : ℕ, (∀ m, m = A ∧ 0 < m ↔ m = B ∧ 0 < m) ↔ A = B := by
    intro A B
    refine ⟨fun h => ?_, fun h m => by rw [h]⟩
    have hA := h A
    have hB := h B
    omega
  simp only [ExactCounts, hcounts, hsame]

/-- **The counts are exact exactly if** the cut is clear. -/
theorem exactCounts_iff (hc : c.Faithful) (hback : CountsBack now unit n text) (hkinds : kinds ≠ [])
    (hout : CountedSince bucket (events.map c.row) kinds text out) :
    ExactCounts c bucket events kinds now unit n out ↔ ClearCut c events kinds now unit n := by
  rw [exactCounts_iff_countP hc hback hkinds hout]
  by_cases hr : Reachable now unit n
  · -- whatever is to be counted is
    have hclear : ClearCut c events kinds now unit n ↔ ∀ e ∈ events, c.kind e.payload ∈ kinds →
        Since now unit n e.timestamp ∨ (e.timestamp.days : ℤ) < cutoffSecond now unit n / 86400 := by
      simp only [ClearCut, if_pos hr]
    simp only [hclear, hr, true_and]
    constructor
    · intro h e he hk
      by_contra hnot
      rw [not_or, not_lt] at hnot
      have heq := (h (bucket (c.toRfc3339 e.timestamp)) (c.kind e.payload)).symm
      rw [countP_eq_iff (fun x _ hx => by
        rw [decide_eq_true_eq] at hx ⊢
        exact ⟨hx.1, hx.2.1, hx.2.2.day⟩)] at heq
      have hx := heq e he (decide_eq_true ⟨⟨rfl, rfl⟩, hk, hnot.2⟩)
      exact hnot.1 (of_decide_eq_true hx).2.2
    · intro h b kind
      refine List.countP_congr fun e he => ?_
      rw [decide_eq_true_eq, decide_eq_true_eq]
      constructor
      · exact fun hx => ⟨hx.1, hx.2.1, (h e he hx.2.1).resolve_right (not_lt.2 hx.2.2)⟩
      · exact fun hx => ⟨hx.1, hx.2.1, hx.2.2.day⟩
  · have hclear : ClearCut c events kinds now unit n ↔ ∀ e ∈ events, c.kind e.payload ∈ kinds →
        ¬ Since now unit n e.timestamp := by simp only [ClearCut, if_neg hr]
    simp only [hclear, hr, false_and, and_false, decide_false, List.countP_false]
    constructor
    · intro h e he hk hs
      have hzero := List.countP_eq_zero.1
        (h (bucket (c.toRfc3339 e.timestamp)) (c.kind e.payload)).symm e he
      exact hzero (decide_eq_true ⟨⟨rfl, rfl⟩, hk, hs⟩)
    · intro h b kind
      refine (List.countP_eq_zero.2 fun e he hx => ?_).symm
      have hx := of_decide_eq_true hx
      exact h e he hx.2.1 hx.2.2

/-- **The counts by hour and by day are those of the last N hours and days exactly when** no event
of these kinds is on the day of the cutoff and before it, or is to be counted where SQLite does
not have the cutoff. -/
theorem counts_iff (hc : c.Faithful) (calls : List (Event P × Bool)) (hids : (calls.map (·.1.id)).Nodup)
    (sql : SqliteTime) (now : DateTime) (hkinds : kinds ≠ []) (n : ℤ)
    (hhours : CountsBack now 3600 n (sql.back "hours" n))
    (hdays : CountsBack now 86400 n (sql.back "days" n)) :
    (∀ out, EventsByHour sql (c.insertAll [] calls) kinds n out →
      (ExactCounts c sql.hour (EventCodec.inserted calls) kinds now 3600 n out ↔
        ClearCut c (EventCodec.inserted calls) kinds now 3600 n)) ∧
    ∀ out, EventsByDay sql (c.insertAll [] calls) kinds n out →
      (ExactCounts c sql.day (EventCodec.inserted calls) kinds now 86400 n out ↔
        ClearCut c (EventCodec.inserted calls) kinds now 86400 n) := by
  rw [EventCodec.table_eq hc hids]
  exact ⟨fun _ hout => exactCounts_iff hc hhours hkinds hout,
    fun _ hout => exactCounts_iff hc hdays hkinds hout⟩

end

/-! ## One event -/

/-- A day at noon. -/
def noon : DateTime := ⟨2025, 1, 2, 12, 0, 0, 0, by decide⟩

/-- SQLite at that time: its buckets, and what was an hour ago and a day ago. -/
def sqliteAtNoon : SqliteTime where
  hour text := String.ofList (text.toList.take 10 ++ ' ' :: ((text.toList.drop 11).take 2 ++ ":00".toList))
  day text := String.ofList (text.toList.take 10)
  back unit n :=
    if n ≠ 1 then none
    else if unit = "hours" then some "2025-01-02 11:00:00"
    else if unit = "days" then some "2025-01-01 12:00:00"
    else none

theorem hours_at_noon : CountsBack noon 3600 1 (sqliteAtNoon.back "hours" 1) := by
  have hback : ((⟨2025, 1, 2, 11, 0, 0, 0, by decide⟩ : DateTime).seconds : ℤ) = cutoffSecond noon 3600 1 := by
    simp only [cutoffSecond, noon, DateTime.seconds, DateTime.days]; omega
  have hpos : 0 ≤ cutoffSecond noon 3600 1 := by rw [← hback]; exact Int.natCast_nonneg _
  refine ⟨fun _ _ => ⟨⟨2025, 1, 2, 11, 0, 0, 0, by decide⟩, hback, by decide⟩, fun _ h => ?_, fun h => ?_⟩
  · omega
  · exact absurd ⟨by decide, by omega⟩ h

theorem days_at_noon : CountsBack noon 86400 1 (sqliteAtNoon.back "days" 1) := by
  have hback : ((⟨2025, 1, 1, 12, 0, 0, 0, by decide⟩ : DateTime).seconds : ℤ) = cutoffSecond noon 86400 1 := by
    simp only [cutoffSecond, noon, DateTime.seconds, DateTime.days]; omega
  have hpos : 0 ≤ cutoffSecond noon 86400 1 := by rw [← hback]; exact Int.natCast_nonneg _
  refine ⟨fun _ _ => ⟨⟨2025, 1, 1, 12, 0, 0, 0, by decide⟩, hback, by decide⟩, fun _ h => ?_, fun h => ?_⟩
  · omega
  · exact absurd ⟨by decide, by omega⟩ h

/-- An event of the same day, four hours before noon. -/
def morning : Event Bool := ⟨"a", ⟨2025, 1, 2, 8, 0, 0, 0, by decide⟩, true⟩

/-- The event is in the counts of the last day as it should be. -/
theorem counts_iff_morning :
    (∀ out, EventsByHour sqliteAtNoon (EventCodec.bits.insertAll [] [(morning, true)]) ["bit"] 1 out →
      (ExactCounts EventCodec.bits sqliteAtNoon.hour [morning] ["bit"] noon 3600 1 out ↔
        ClearCut EventCodec.bits [morning] ["bit"] noon 3600 1)) ∧
    ∀ out, EventsByDay sqliteAtNoon (EventCodec.bits.insertAll [] [(morning, true)]) ["bit"] 1 out →
      (ExactCounts EventCodec.bits sqliteAtNoon.day [morning] ["bit"] noon 86400 1 out ↔
        ClearCut EventCodec.bits [morning] ["bit"] noon 86400 1) :=
  counts_iff EventCodec.faithful_bits [(morning, true)] (by decide) sqliteAtNoon noon (by decide) 1
    hours_at_noon days_at_noon

/-- **An event of four hours ago is counted among those of the last hour.** -/
theorem early_event_counted :
    EventsByHour sqliteAtNoon (EventCodec.bits.insertAll [] [(morning, true)]) ["bit"] 1
        [("2025-01-02 08:00", "bit", 1)] ∧
      ¬ Since noon 3600 1 morning.timestamp ∧
      ¬ ExactCounts EventCodec.bits sqliteAtNoon.hour [morning] ["bit"] noon 3600 1
        [("2025-01-02 08:00", "bit", 1)] := by
  have hearly : ¬ Since noon 3600 1 morning.timestamp := by
    simp only [Since, cutoffSecond, noon, morning, DateTime.seconds, DateTime.days]; omega
  have hrows : eventsSince (EventCodec.bits.insertAll [] [(morning, true)]) ["bit"]
      (sqliteAtNoon.back "hours" 1) = [EventCodec.bits.row morning] := by decide
  refine ⟨?_, hearly, fun h => ?_⟩
  · rw [EventsByHour, CountedSince, if_neg (by decide), hrows]
    refine ⟨List.pairwise_singleton _ _, by decide, fun b kind m => ?_⟩
    have hbucket : sqliteAtNoon.hour (EventCodec.bits.row morning).createdAt = "2025-01-02 08:00" := by decide
    have hkind : (EventCodec.bits.row morning).kind = "bit" := rfl
    rw [List.countP_singleton, hbucket, hkind]
    by_cases hb : "2025-01-02 08:00" = b ∧ "bit" = kind
    · obtain ⟨rfl, rfl⟩ := hb
      simp only [List.mem_singleton, Prod.mk.injEq, true_and, and_self, decide_true, if_true]
      omega
    · rw [if_neg (by simpa using hb)]
      refine iff_of_false (fun hm => ?_) (by omega)
      have hm := List.mem_singleton.1 hm
      injection hm with hb' hrest
      injection hrest with hk' _
      exact hb ⟨hb'.symm, hk'.symm⟩
  · have hcount := (h "2025-01-02 08:00" "bit" 1).1 (List.mem_singleton.2 rfl)
    rw [List.countP_singleton, if_neg (by simp [hearly])] at hcount
    exact absurd hcount.1 (by decide)

end Auxlry
