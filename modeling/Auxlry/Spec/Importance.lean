import Mathlib.Analysis.SpecialFunctions.Log.Basic

/-!
# Earned importance

How important a memory is depends on how often and how recently it was found, and on its
edges. Scores are exact: a search uses the function through its bounds (`Importance`),
over any ordered field.
-/

namespace Auxlry

/-- Importance from an access count, an edge count and the time of the last access. -/
structure Importance (K : Type*) [Zero K] [LE K] where
  of : ℕ → ℕ → String → K
  nonneg : ∀ accessCount edgeCount lastAccessedAt, 0 ≤ of accessCount edgeCount lastAccessedAt
  /-- more edges make a memory no less important -/
  mono : ∀ accessCount lastAccessedAt {m n : ℕ}, m ≤ n →
    of accessCount m lastAccessedAt ≤ of accessCount n lastAccessedAt

/-- How `chrono` reads a time, in nanoseconds: as RFC 3339, or in the format of SQLite. -/
structure TimeFormats where
  rfc3339 : String → Option ℤ
  sqlite : String → Option ℤ

/-- Exponential decay, 7-day half-life; one half for a time that is not read. -/
noncomputable def recency (f : TimeFormats) (lastAccessedAt : String) (now : ℤ) : ℝ :=
  match (f.rfc3339 lastAccessedAt).or (f.sqlite lastAccessedAt) with
  | some accessed =>
    let hours := max ((now - accessed).tdiv (3600 * 10 ^ 9)) 0
    Real.exp (-(hours : ℝ) * Real.log 2 / (7 * 24))
  | none => 1 / 2

/-- A logarithmic factor, floor 0.1. -/
noncomputable def logFactor (count : ℕ) : ℝ := max (Real.log (1 + count)) (1 / 10)

noncomputable def computeImportance (f : TimeFormats) (now : ℤ) (accessCount edgeCount : ℕ)
    (lastAccessedAt : String) : ℝ :=
  recency f lastAccessedAt now * logFactor accessCount * logFactor edgeCount

theorem recency_pos (f : TimeFormats) (lastAccessedAt : String) (now : ℤ) :
    0 < recency f lastAccessedAt now := by
  unfold recency
  split
  · exact Real.exp_pos _
  · norm_num

theorem logFactor_pos (count : ℕ) : 0 < logFactor count :=
  lt_of_lt_of_le (by norm_num) (le_max_right _ _)

theorem logFactor_mono {m n : ℕ} (h : m ≤ n) : logFactor m ≤ logFactor n := by
  unfold logFactor
  have hlog : Real.log (1 + m) ≤ Real.log (1 + n) := by
    refine Real.log_le_log (by positivity) ?_
    have hcast : (m : ℝ) ≤ n := by exact_mod_cast h
    linarith
  exact max_le_max hlog (le_refl _)

/-- The importance that the program computes. -/
noncomputable def earned (f : TimeFormats) (now : ℤ) : Importance ℝ where
  of := computeImportance f now
  nonneg accessCount edgeCount lastAccessedAt := by
    have hrecency := recency_pos f lastAccessedAt now
    have haccess := logFactor_pos accessCount
    have hedges := logFactor_pos edgeCount
    unfold computeImportance
    positivity
  mono accessCount lastAccessedAt m n h := by
    have hrecency := recency_pos f lastAccessedAt now
    have haccess := logFactor_pos accessCount
    exact mul_le_mul_of_nonneg_left (logFactor_mono h) (by positivity)

end Auxlry
