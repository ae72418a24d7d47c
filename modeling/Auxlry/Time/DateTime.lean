import Mathlib.Data.List.Lex
import Mathlib.Data.Prod.Lex

/-!
# Times of the calendar

UTC times of the years 0 to 9999, by their calendar fields. A leap second is the second 59
with a billion nanoseconds or more. Times are ordered by the seconds that have passed, and
within a second by the nanoseconds.

* `lt_iff_fields`: **the order of times is that of their fields**, from the year down.
-/

namespace Time

/-- A year with a leap day. -/
def IsLeap (y : ℕ) : Prop := y % 4 = 0 ∧ (y % 100 ≠ 0 ∨ y % 400 = 0)

instance (y : ℕ) : Decidable (IsLeap y) := inferInstanceAs (Decidable (_ ∧ _))

/-- The days of a month. -/
def daysIn (y : ℕ) : ℕ → ℕ
  | 0 => 0
  | 2 => if IsLeap y then 29 else 28
  | 4 | 6 | 9 | 11 => 30
  | _ => 31

/-- The fields of a time. -/
def Valid (year month day hour minute second nano : ℕ) : Prop :=
  year ≤ 9999 ∧ 1 ≤ month ∧ month ≤ 12 ∧ 1 ≤ day ∧ day ≤ daysIn year month ∧ hour < 24 ∧ minute < 60 ∧
    second < 60 ∧ (nano < 1000000000 ∨ second = 59 ∧ nano < 2000000000)

instance (year month day hour minute second nano : ℕ) :
    Decidable (Valid year month day hour minute second nano) := inferInstanceAs (Decidable (_ ∧ _))

/-- A UTC time. -/
@[ext] structure DateTime where
  year : ℕ
  month : ℕ
  day : ℕ
  hour : ℕ
  minute : ℕ
  second : ℕ
  nano : ℕ
  valid : Valid year month day hour minute second nano

/-- The days of the years before `y`. -/
def daysBeforeYear : ℕ → ℕ
  | 0 => 0
  | y + 1 => daysBeforeYear y + if IsLeap y then 366 else 365

/-- The days of the months before `m`. -/
def daysBeforeMonth (y : ℕ) : ℕ → ℕ
  | 0 => 0
  | m + 1 => daysBeforeMonth y m + daysIn y m

namespace DateTime

variable {t u : DateTime}

/-- The days before the day of a time. -/
def days (t : DateTime) : ℕ := daysBeforeYear t.year + daysBeforeMonth t.year t.month + (t.day - 1)

/-- The seconds before a time. -/
def seconds (t : DateTime) : ℕ := ((t.days * 24 + t.hour) * 60 + t.minute) * 60 + t.second

def instant (t : DateTime) : ℕ ×ₗ ℕ := toLex (t.seconds, t.nano)

def fields (t : DateTime) : List ℕ := [t.year, t.month, t.day, t.hour, t.minute, t.second, t.nano]

theorem fields_injective : Function.Injective fields := by
  intro t u h
  simp only [fields, List.cons.injEq, and_true] at h
  obtain ⟨hy, hm, hd, hh, hmi, hs, hn⟩ := h
  exact DateTime.ext hy hm hd hh hmi hs hn

/-! ## Counting days -/

theorem daysBeforeYear_mono {y y' : ℕ} (h : y ≤ y') : daysBeforeYear y ≤ daysBeforeYear y' := by
  induction h with
  | refl => exact Nat.le_refl _
  | step _ ih => exact Nat.le_trans ih (Nat.le_add_right ..)

theorem daysBeforeMonth_mono (y : ℕ) {m m' : ℕ} (h : m ≤ m') : daysBeforeMonth y m ≤ daysBeforeMonth y m' := by
  induction h with
  | refl => exact Nat.le_refl _
  | step _ ih => exact Nat.le_trans ih (Nat.le_add_right ..)

/-- The months make up the year. -/
theorem daysBeforeMonth_year (y : ℕ) :
    daysBeforeYear (y + 1) = daysBeforeYear y + daysBeforeMonth y 13 := by
  by_cases h : IsLeap y <;> simp [daysBeforeYear, daysBeforeMonth, daysIn, h]

/-- A day is before the end of its month. -/
theorem lt_of_month (t : DateTime) {m : ℕ} (h : t.month < m) :
    daysBeforeMonth t.year t.month + (t.day - 1) < daysBeforeMonth t.year m := by
  obtain ⟨-, -, -, hpos, hday, -⟩ := t.valid
  have hmono : daysBeforeMonth t.year (t.month + 1) ≤ daysBeforeMonth t.year m := daysBeforeMonth_mono t.year h
  have hstep : daysBeforeMonth t.year (t.month + 1) = daysBeforeMonth t.year t.month + daysIn t.year t.month := rfl
  omega

theorem days_lt (h : t.year < u.year ∨ t.year = u.year ∧ (t.month < u.month ∨ t.month = u.month ∧ t.day < u.day)) :
    t.days < u.days := by
  unfold days
  rcases h with hy | ⟨hy, hm | ⟨hm, hd⟩⟩
  · have hend := t.lt_of_month (m := 13) (Nat.lt_succ_of_le t.valid.2.2.1)
    have hmono := daysBeforeYear_mono (Nat.succ_le_of_lt hy)
    rw [Nat.succ_eq_add_one, daysBeforeMonth_year] at hmono
    omega
  · have hend := t.lt_of_month hm
    rw [hy] at hend ⊢
    omega
  · have hpos := t.valid.2.2.2.1
    rw [hy, hm]
    omega

/-! ## The order -/

/-- **An earlier time by the fields** comes before in seconds and nanoseconds. -/
theorem instant_lt (h : t.fields < u.fields) : t.instant < u.instant := by
  obtain ⟨-, -, -, -, -, hh, hm, hs, -⟩ := t.valid
  obtain ⟨-, -, -, -, -, hh', hm', hs', -⟩ := u.valid
  unfold instant seconds
  rw [Prod.Lex.toLex_lt_toLex]
  simp only [fields, List.cons_lt_cons_iff, List.not_lt_nil, and_false, or_false] at h
  rcases h with h | ⟨hy, h | ⟨hmo, h | ⟨hd, h⟩⟩⟩
  · have := days_lt (.inl h)
    left; dsimp only; omega
  · have := days_lt (.inr ⟨hy, .inl h⟩)
    left; dsimp only; omega
  · have := days_lt (.inr ⟨hy, .inr ⟨hmo, h⟩⟩)
    left; dsimp only; omega
  · -- the same day
    have hdays : t.days = u.days := by unfold days; rw [hy, hmo, hd]
    dsimp only
    rcases h with h | ⟨hho, h | ⟨hmi, h | ⟨hse, h⟩⟩⟩ <;> omega

theorem instant_injective : Function.Injective instant := by
  intro t u h
  -- times with different fields are at different instants
  rcases lt_trichotomy t.fields u.fields with hlt | heq | hlt
  · exact absurd h (instant_lt hlt).ne
  · exact fields_injective heq
  · exact absurd h (instant_lt hlt).ne'

instance : LinearOrder DateTime := LinearOrder.lift' instant instant_injective

/-- **Times are ordered by their fields**, from the year down. -/
theorem lt_iff_fields : t < u ↔ t.fields < u.fields := by
  refine ⟨fun h => ?_, fun h => instant_lt h⟩
  rcases lt_trichotomy t.fields u.fields with hlt | heq | hlt
  · exact hlt
  · rw [fields_injective heq] at h
    exact absurd h (lt_irrefl _)
  · exact absurd h (lt_asymm (show u < t from instant_lt hlt))

end DateTime

end Time
