import Auxlry.Spec.HybridSearch
import Auxlry.Spec.Importance
import Auxlry.Spec.MemoryCalls
import Auxlry.Time.Sqlite
import Mathlib.Tactic.GCongr

/-!
# Importance goes with use

A memory that is found, or is joined to another, should not lose importance by it.

* `recency_le`: the recency depends on the age alone, and falls with it.
* `importance_spec`: **importance is not negative, and monotone** in accesses, edges and the
  time of the last access; it falls with time, and goes by the instant and not by the spelling.
  A recorded access and a new edge lower nobody's importance.
-/

namespace Auxlry

open Time

/-- The seconds of the calendar before 1970. -/
def unixEpoch : ℤ := 62167219200

/-- **What the formats read**: RFC 3339 with any offset, and nothing of SQLite's; SQLite's as UTC. -/
structure TimeFormats.Documented (f : TimeFormats) : Prop where
  rfc3339 : ∀ t zeros zone, f.rfc3339 (zonedText t zeros zone) =
    some ((t.seconds - zone.seconds - unixEpoch) * 10 ^ 9)
  other : ∀ t, f.rfc3339 (sqliteText t) = none
  sqlite : ∀ t, f.sqlite (sqliteText t) = some ((t.seconds - unixEpoch) * 10 ^ 9)

/-- The instant that a text is read as. -/
def TimeFormats.read (f : TimeFormats) (text : String) : Option ℤ := (f.rfc3339 text).or (f.sqlite text)

variable {f : TimeFormats}

/-! ## Recency -/

/-- **The older, the less**: a greater age has no greater recency. -/
theorem recency_le {text text' : String} {now now' i i' : ℤ} (hi : f.read text = some i)
    (hi' : f.read text' = some i') (h : now' - i' ≤ now - i) :
    recency f text now ≤ recency f text' now' := by
  have hhours : max ((now' - i').tdiv (3600 * 10 ^ 9)) 0 ≤ max ((now - i).tdiv (3600 * 10 ^ 9)) 0 :=
    max_le_max (Int.tdiv_le_tdiv (by norm_num) h) (le_refl _)
  have hcast : ((max ((now' - i').tdiv (3600 * 10 ^ 9)) 0 : ℤ) : ℝ) ≤
      (max ((now - i).tdiv (3600 * 10 ^ 9)) 0 : ℤ) := by exact_mod_cast hhours
  have hlog : 0 ≤ Real.log 2 := Real.log_nonneg (by norm_num)
  rw [TimeFormats.read] at hi hi'
  simp only [recency, hi, hi']
  apply Real.exp_le_exp.2
  gcongr

/-- The same text loses with time, or stays as it is if it is not read. -/
theorem recency_anti (text : String) {now now' : ℤ} (h : now' ≤ now) :
    recency f text now ≤ recency f text now' := by
  cases hi : f.read text with
  | some i => exact recency_le hi hi (by omega)
  | none =>
    rw [TimeFormats.read] at hi
    simp only [recency, hi, le_refl]

/-- **Nothing is more recent** than what is less than an hour old. -/
theorem recency_le_recent (text : String) {text' : String} {now now' i' : ℤ} (hi' : f.read text' = some i')
    (h : now' - i' < 3600 * 10 ^ 9) : recency f text now ≤ recency f text' now' := by
  have hzero : max ((now' - i').tdiv (3600 * 10 ^ 9)) 0 = 0 := by
    refine max_eq_right ?_
    rcases le_or_gt 0 (now' - i') with hpos | hneg
    · rw [Int.tdiv_eq_ediv_of_nonneg hpos, Int.ediv_eq_zero_of_lt hpos h]
    · exact (Int.tdiv_le_tdiv (by norm_num) hneg.le).trans_eq (Int.zero_tdiv _)
  have hone : recency f text' now' = 1 := by
    rw [TimeFormats.read] at hi'
    simp only [recency, hi', hzero]
    simp
  rw [hone, recency]
  split
  · refine Real.exp_le_one_iff.2 ?_
    have hlog : 0 ≤ Real.log 2 := Real.log_nonneg (by norm_num)
    rename_i accessed _
    have hmax : (0 : ℝ) ≤ (max ((now - accessed).tdiv (3600 * 10 ^ 9)) 0 : ℤ) := by
      exact_mod_cast le_max_right _ _
    rw [neg_mul, neg_div, neg_nonpos]
    positivity
  · norm_num

/-! ## Importance -/

/-- Importance is monotone in its three factors. -/
theorem computeImportance_le {now now' : ℤ} {accesses accesses' edges edges' : ℕ} {text text' : String}
    (hrecency : recency f text now ≤ recency f text' now') (ha : accesses ≤ accesses') (he : edges ≤ edges') :
    computeImportance f now accesses edges text ≤ computeImportance f now' accesses' edges' text' := by
  have hr := recency_pos f text now
  have hr' := recency_pos f text' now'
  have hpos := logFactor_pos accesses
  have hpos' := logFactor_pos edges
  have hpos'' := logFactor_pos accesses'
  unfold computeImportance
  exact mul_le_mul (mul_le_mul hrecency (logFactor_mono ha) hpos.le hr'.le) (logFactor_mono he) hpos'.le
    (by positivity)

theorem computeImportance_nonneg (f : TimeFormats) (now : ℤ) (accesses edges : ℕ) (text : String) :
    0 ≤ computeImportance f now accesses edges text := (earned f now).nonneg accesses edges text

/-- **The instant counts, and not how it is written.** -/
theorem computeImportance_spelling (hf : f.Documented) (now : ℤ) (accesses edges : ℕ) (t t' : DateTime)
    (zeros : ℕ) (zone : Zone) (h : (t'.seconds : ℤ) = t.seconds - zone.seconds) :
    computeImportance f now accesses edges (zonedText t zeros zone) =
      computeImportance f now accesses edges (sqliteText t') := by
  simp only [computeImportance, recency, hf.rfc3339, hf.other, hf.sqlite, h, Option.some_or, Option.none_or]

section

variable {V : Type}

/-- The importance of a memory, if it has metadata. -/
noncomputable def Stores.importanceAt (f : TimeFormats) (now : ℤ) (s : Stores V) (id : String) : Option ℝ :=
  (s.metadata id).map fun md => computeImportance f now md.accessCount (s.edgesAt id).card md.lastAccessedAt

/-- No memory has less importance in the later stores. -/
def Stores.NoneLowered (f : TimeFormats) (now : ℤ) (s s' : Stores V) : Prop :=
  ∀ id, ∀ i ∈ s.importanceAt f now id, ∃ i' ∈ s'.importanceAt f now id, i ≤ i'

/-- **A recorded access** lowers nothing if it makes the memory no less recent. -/
theorem noneLowered_access {s : Stores V} {id text : String} {now : ℤ}
    (h : ∀ md, s.metadata id = some md → recency f md.lastAccessedAt now ≤ recency f text now) :
    s.NoneLowered f now (s.recordMemoryAccess text id) := by
  intro id' i hi
  obtain ⟨md, hmd, rfl⟩ := Option.map_eq_some_iff.1 hi
  by_cases hid : id' = id
  · subst hid
    refine ⟨_, Option.map_eq_some_iff.2 ⟨⟨md.memoryType, md.accessCount + 1, text, md.createdAt⟩, ?_, rfl⟩,
      computeImportance_le (h md hmd) (Nat.le_succ _) (le_refl _)⟩
    simp only [Stores.recordMemoryAccess, Stores.setMetadata, Function.update_self, hmd, Option.map_some]
  · -- the others are as they were
    refine ⟨_, Option.map_eq_some_iff.2 ⟨md, ?_, rfl⟩, le_refl _⟩
    simp only [Stores.recordMemoryAccess, Stores.setMetadata, Function.update_of_ne hid, hmd]

/-- **A new edge** lowers nothing. -/
theorem noneLowered_edge (f : TimeFormats) (now : ℤ) (s : Stores V) (n : ℕ) (sourceId targetId : String)
    (t : EdgeType) : s.NoneLowered f now (s.createEdge n sourceId targetId t) := by
  intro id i hi
  obtain ⟨md, hmd, rfl⟩ := Option.map_eq_some_iff.1 hi
  have hmeta : (s.createEdge n sourceId targetId t).metadata = s.metadata := by
    unfold Stores.createEdge
    split <;> rfl
  have hedges : (s.edgesAt id).card ≤ ((s.createEdge n sourceId targetId t).edgesAt id).card := by
    unfold Stores.createEdge
    split
    · exact le_refl _
    · exact Multiset.card_le_card (Multiset.filter_le_filter _ (Multiset.le_cons_self _ _))
  refine ⟨_, Option.map_eq_some_iff.2 ⟨md, by rw [hmeta, hmd], rfl⟩, ?_⟩
  exact computeImportance_le (le_refl _) (le_refl _) hedges

end

/-- **Importance** is not negative; it grows with the accesses, the edges and the instant of the
last access, and falls with time; the spelling of the instant does not matter; and neither a
recorded access nor a new edge lowers it. -/
theorem importance_spec (hf : f.Documented) :
    (∀ now accesses edges text, 0 ≤ computeImportance f now accesses edges text) ∧
    (∀ {now now' i i' : ℤ} {accesses accesses' edges edges' : ℕ} {text text' : String},
      f.read text = some i → f.read text' = some i' → accesses ≤ accesses' → edges ≤ edges' →
      i ≤ i' → now' ≤ now →
      computeImportance f now accesses edges text ≤ computeImportance f now' accesses' edges' text') ∧
    (∀ {now now' : ℤ} {accesses accesses' edges edges' : ℕ} (text : String),
      accesses ≤ accesses' → edges ≤ edges' → now' ≤ now →
      computeImportance f now accesses edges text ≤ computeImportance f now' accesses' edges' text) ∧
    (∀ (now : ℤ) (accesses edges : ℕ) (t t' : DateTime) (zeros : ℕ) (zone : Zone),
      (t'.seconds : ℤ) = t.seconds - zone.seconds →
      computeImportance f now accesses edges (zonedText t zeros zone) =
        computeImportance f now accesses edges (sqliteText t')) ∧
    ∀ {V : Type} (s : Stores V) (now : ℤ),
      (∀ (id : String) (t : DateTime), now < (t.seconds + 1 - unixEpoch) * 10 ^ 9 →
        s.NoneLowered f now (s.recordMemoryAccess (sqliteText t) id)) ∧
      (∀ (id : String) (t : DateTime),
        (∀ md, s.metadata id = some md →
          ∃ i ≤ (t.seconds - unixEpoch) * 10 ^ 9, f.read md.lastAccessedAt = some i) →
        s.NoneLowered f now (s.recordMemoryAccess (sqliteText t) id)) ∧
      ∀ n sourceId targetId t, s.NoneLowered f now (s.createEdge n sourceId targetId t) := by
  have hread : ∀ t, f.read (sqliteText t) = some ((t.seconds - unixEpoch) * 10 ^ 9) := by
    intro t
    rw [TimeFormats.read, hf.other, hf.sqlite, Option.none_or]
  refine ⟨computeImportance_nonneg f, ?_, ?_, computeImportance_spelling hf, fun s now => ⟨?_, ?_, ?_⟩⟩
  · intro now now' i i' accesses accesses' edges edges' text text' hi hi' ha he hle hnow
    exact computeImportance_le (recency_le hi hi' (by omega)) ha he
  · intro now now' accesses accesses' edges edges' text ha he hnow
    exact computeImportance_le (recency_anti text hnow) ha he
  · -- at the time of the access, nothing is more recent
    intro id t hnow
    exact noneLowered_access fun md _ => recency_le_recent _ (hread t) (by omega)
  · intro id t hold
    refine noneLowered_access fun md hmd => ?_
    obtain ⟨i, hle, hi⟩ := hold md hmd
    exact recency_le hi (hread t) (by omega)
  · exact fun n sourceId targetId t => noneLowered_edge f now s n sourceId targetId t

/-- Readers of the two formats, to the second. -/
def secondFormats : TimeFormats where
  rfc3339 text := (readZoned text).map fun second => (second - unixEpoch) * 10 ^ 9
  sqlite text := (readSqlite text).map fun (second : ℕ) => (second - unixEpoch) * 10 ^ 9

theorem documented_secondFormats : secondFormats.Documented where
  rfc3339 t zeros zone := by simp only [secondFormats, readZoned_text, Option.map_some]
  other t := by simp only [secondFormats, readZoned_sqliteText, Option.map_none]
  sqlite t := by simp only [secondFormats, readSqlite_text, Option.map_some]

/-- Midnight in UTC is two o'clock further east. -/
theorem importance_spec_midnight :
    computeImportance secondFormats 0 3 2 "2025-01-01T02:00:00+02:00" =
      computeImportance secondFormats 0 3 2 "2025-01-01 00:00:00" := by
  have hlocal : zonedText ⟨2025, 1, 1, 2, 0, 0, 0, by decide⟩ 0 (.offset false 2 0) =
      "2025-01-01T02:00:00+02:00" := by decide
  have hutc : sqliteText ⟨2025, 1, 1, 0, 0, 0, 0, by decide⟩ = "2025-01-01 00:00:00" := by decide
  rw [← hlocal, ← hutc]
  refine (importance_spec documented_secondFormats).2.2.2.1 0 3 2 _ _ 0 _ ?_
  simp only [DateTime.seconds, DateTime.days, Zone.seconds]
  push_cast
  omega

end Auxlry
