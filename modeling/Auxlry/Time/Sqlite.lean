import Auxlry.Time.Rfc3339

/-!
# Texts of SQLite, and offsets

SQLite writes a UTC time to the second, with a blank between date and time. RFC 3339 has a
letter there, and behind the seconds a fraction and the offset of the local time from UTC.

* `sqliteText_le_text_iff`: **between the two spellings, only the date is compared**.
* `readSqlite_text`, `readZoned_text`: readers of the two.
-/

namespace Time

/-- A time to the second, with a separator behind the date. -/
def wall (sep : Char) (t : DateTime) : List Char :=
  pad 4 t.year ++ '-' :: (pad 2 t.month ++ '-' :: (pad 2 t.day ++ sep :: (pad 2 t.hour ++ ':' ::
    (pad 2 t.minute ++ ':' :: pad 2 t.second))))

/-- `YYYY-MM-DD HH:MM:SS`. -/
def sqliteText (t : DateTime) : String := String.ofList (wall ' ' t)

example : sqliteText ⟨2024, 2, 29, 23, 59, 5, 0, by decide⟩ = "2024-02-29 23:59:05" := by decide

/-! ## Comparing the spellings -/

/-- The date of a time. -/
def DateTime.date (t : DateTime) : List ℕ := [t.year, t.month, t.day]

theorem DateTime.days_lt_iff {t u : DateTime} : t.days < u.days ↔ t.date < u.date := by
  have forward : ∀ {t u : DateTime}, t.date < u.date → t.days < u.days := by
    intro t u h
    refine days_lt ?_
    simpa only [date, List.cons_lt_cons_iff, List.not_lt_nil, and_false, or_false] using h
  refine ⟨fun h => ?_, forward⟩
  rcases lt_trichotomy t.date u.date with hlt | heq | hlt
  · exact hlt
  · simp only [date, List.cons.injEq, and_true] at heq
    obtain ⟨hy, hm, hd⟩ := heq
    unfold days at h
    rw [hy, hm, hd] at h
    exact absurd h (lt_irrefl _)
  · exact absurd h (lt_asymm (forward hlt))

/-- Texts that start with a date are in the order of their dates, and behind one date in
that of what follows. -/
theorem date_lt {t u : DateTime} {sep sep' : Char} {x y : List Char}
    (h : t.date < u.date ∨ t.date = u.date ∧ sep < sep') :
    pad 4 t.year ++ '-' :: (pad 2 t.month ++ '-' :: (pad 2 t.day ++ sep :: x)) <
      pad 4 u.year ++ '-' :: (pad 2 u.month ++ '-' :: (pad 2 u.day ++ sep' :: y)) := by
  obtain ⟨hy, -, hmo, -, hd, -⟩ := u.valid
  have hd' := Nat.le_trans hd (daysIn_le ..)
  simp only [DateTime.date, List.cons_lt_cons_iff, List.not_lt_nil, and_false, or_false, List.cons.injEq,
    and_true] at h
  have hfields : t.year < u.year ∨ t.year = u.year ∧ (t.month < u.month ∨ t.month = u.month ∧
      (t.day < u.day ∨ t.day = u.day ∧ sep < sep')) := by tauto
  refine field_lt (by omega) hfields fun hmonth => ?_
  refine field_lt (by omega) hmonth fun hday => ?_
  refine pad_append_lt (by omega) (hday.imp_right fun h => ⟨h.1, ?_⟩)
  exact List.cons_lt_cons_iff.2 (.inl h.2)

/-- **Only the date is compared**: on one day, the blank comes before the letter. -/
theorem sqliteText_le_text_iff {c t : DateTime} : sqliteText c ≤ t.text ↔ c.days ≤ t.days := by
  rw [← not_lt, ← not_lt, DateTime.days_lt_iff, String.lt_iff_toList_lt, sqliteText, DateTime.text,
    String.toList_ofList, String.toList_ofList, not_iff_not]
  unfold stamp wall
  constructor
  · intro h
    rcases lt_trichotomy t.date c.date with hlt | heq | hlt
    · exact hlt
    · exact absurd h (lt_asymm (date_lt (.inr ⟨heq.symm, by decide⟩)))
    · exact absurd h (lt_asymm (date_lt (.inl hlt)))
  · exact fun h => date_lt (.inl h)

/-- A text that starts with a minus sign comes before the text of a time. -/
theorem minus_le_text (s : String) (t : DateTime) : "-" ++ s ≤ t.text := by
  refine le_of_lt ?_
  have ht : t.text.toList = stamp .. := String.toList_ofList
  have hlen : (pad 4 t.year).length = 4 := length_pad 4 t.year
  rw [String.lt_iff_toList_lt, String.toList_append, ht]
  unfold stamp
  rcases hp : pad 4 t.year with _ | ⟨c, cs⟩
  · rw [hp] at hlen; cases hlen
  · have hc : '0' ≤ c := (isDigit_pad 4 t.year c (by rw [hp]; exact List.mem_cons_self)).2
    exact List.cons_lt_cons_iff.2 (.inl (lt_of_lt_of_le (show '-' < '0' by decide) hc))

/-! ## Offsets -/

/-- How the offset of the local time is written. -/
inductive Zone
  | utc
  | offset (negative : Bool) (hours : Fin 24) (minutes : Fin 60)
  deriving DecidableEq, Repr

namespace Zone

def text : Zone → List Char
  | .utc => ['Z']
  | .offset negative hours minutes =>
    (if negative then '-' else '+') :: (pad 2 hours ++ ':' :: pad 2 minutes)

/-- By how many seconds the local time is ahead of UTC. -/
def seconds : Zone → ℤ
  | .utc => 0
  | .offset negative hours minutes =>
    if negative then -(hours * 3600 + minutes * 60 : ℤ) else hours * 3600 + minutes * 60

end Zone

/-- A local time to the second in RFC 3339, with any number of zeros for a fraction. -/
def zonedText (t : DateTime) (zeros : ℕ) (zone : Zone) : String :=
  String.ofList (wall 'T' t ++ ((if zeros = 0 then [] else '.' :: List.replicate zeros '0') ++ zone.text))

/-! ## Reading -/

/-- Read a time to the second: the seconds before it, and what follows. -/
def readWall (cs : List Char) : ℕ × List Char :=
  let (year, cs) := number 4 cs
  let (month, cs) := number 2 (cs.drop 1)
  let (day, cs) := number 2 (cs.drop 1)
  let (hour, cs) := number 2 (cs.drop 1)
  let (minute, cs) := number 2 (cs.drop 1)
  let (second, cs) := number 2 (cs.drop 1)
  ((((daysBeforeYear year + daysBeforeMonth year month + (day - 1)) * 24 + hour) * 60 + minute) * 60 + second, cs)

/-- Read a text of SQLite. -/
def readSqlite (s : String) : Option ℕ :=
  if s.toList[10]? = some ' ' then some (readWall s.toList).1 else none

/-- Read an offset. -/
def readZone : List Char → ℤ
  | '-' :: cs => -((number 2 cs).1 * 3600 + (number 2 ((number 2 cs).2.drop 1)).1 * 60)
  | '+' :: cs => (number 2 cs).1 * 3600 + (number 2 ((number 2 cs).2.drop 1)).1 * 60
  | _ => 0

def skipFraction : List Char → List Char
  | '.' :: cs => cs.dropWhile Char.isDigit
  | cs => cs

/-- Read a text of RFC 3339, to the second. -/
def readZoned (s : String) : Option ℤ :=
  if s.toList[10]? = some 'T' then
    some ((readWall s.toList).1 - readZone (skipFraction (readWall s.toList).2))
  else none

theorem readWall_wall (sep : Char) (t : DateTime) (rest : List Char) :
    readWall (wall sep t ++ rest) = (t.seconds, rest) := by
  obtain ⟨hy, -, hmo, -, hd, hh, hmi, hs, -⟩ := t.valid
  have hd' := Nat.le_trans hd (daysIn_le ..)
  unfold readWall wall
  simp only [List.append_assoc, List.cons_append]
  simp only [number_pad (show t.year < 10 ^ 4 by omega), number_pad (show t.month < 10 ^ 2 by omega),
    number_pad (show t.day < 10 ^ 2 by omega), number_pad (show t.hour < 10 ^ 2 by omega),
    number_pad (show t.minute < 10 ^ 2 by omega), number_pad (show t.second < 10 ^ 2 by omega),
    List.drop_succ_cons, List.drop_zero]
  rfl

/-- The separator is at a fixed place. -/
theorem wall_sep (sep : Char) (t : DateTime) (rest : List Char) : (wall sep t ++ rest)[10]? = some sep := by
  have hsplit : wall sep t ++ rest = (pad 4 t.year ++ '-' :: (pad 2 t.month ++ '-' :: pad 2 t.day)) ++
      sep :: (pad 2 t.hour ++ ':' :: (pad 2 t.minute ++ ':' :: (pad 2 t.second ++ rest))) := by
    simp only [wall, List.append_assoc, List.cons_append]
  have hlen : (pad 4 t.year ++ '-' :: (pad 2 t.month ++ '-' :: pad 2 t.day)).length = 10 := by
    simp only [List.length_append, List.length_cons, length_pad]
  rw [hsplit, List.getElem?_append_right hlen.le, hlen]; rfl

/-- **A text of SQLite reads** as its time. -/
theorem readSqlite_text (t : DateTime) : readSqlite (sqliteText t) = some t.seconds := by
  have htext : (sqliteText t).toList = wall ' ' t ++ [] := by
    rw [sqliteText, String.toList_ofList, List.append_nil]
  rw [readSqlite, htext, wall_sep, if_pos rfl, readWall_wall]

theorem readZone_text (zone : Zone) : readZone zone.text = zone.seconds := by
  cases zone with
  | utc => rfl
  | offset negative hours minutes =>
    have hh : number 2 (pad 2 hours ++ ':' :: pad 2 minutes) = (hours.val, ':' :: pad 2 minutes) :=
      number_pad (by omega) _
    have hm : number 2 (pad 2 minutes) = (minutes.val, []) := by
      have h := number_pad (show (minutes : ℕ) < 10 ^ 2 by omega) []
      rwa [List.append_nil] at h
    cases negative
    · simp [Zone.text, readZone, hh, hm, Zone.seconds]
    · simp [Zone.text, readZone, hh, hm, Zone.seconds]

theorem skipFraction_zeros (zeros : ℕ) (zone : Zone) :
    skipFraction ((if zeros = 0 then [] else '.' :: List.replicate zeros '0') ++ zone.text) = zone.text := by
  have hstart : ∃ c cs, zone.text = c :: cs ∧ c.isDigit = false ∧ c ≠ '.' := by
    cases zone with
    | utc => exact ⟨_, _, rfl, by decide, by decide⟩
    | offset negative hours minutes => cases negative <;> exact ⟨_, _, rfl, by decide, by decide⟩
  obtain ⟨c, cs, hc, hdigit, hpoint⟩ := hstart
  rw [hc]
  split
  · rw [List.nil_append, skipFraction]
    exact fun _ h => hpoint (List.cons.inj h).1
  · rw [List.cons_append, skipFraction, List.dropWhile_append_of_pos, List.dropWhile_cons_of_neg (by simp [hdigit])]
    intro x hx
    rw [List.eq_of_mem_replicate hx]; decide

/-- **A text of RFC 3339 reads** as its time, whatever its offset. -/
theorem readZoned_text (t : DateTime) (zeros : ℕ) (zone : Zone) :
    readZoned (zonedText t zeros zone) = some (t.seconds - zone.seconds) := by
  rw [readZoned, zonedText, String.toList_ofList, wall_sep, if_pos rfl, readWall_wall,
    skipFraction_zeros, readZone_text]

/-- **A text of SQLite is none of RFC 3339.** -/
theorem readZoned_sqliteText (t : DateTime) : readZoned (sqliteText t) = none := by
  have htext : (sqliteText t).toList = wall ' ' t ++ [] := by
    rw [sqliteText, String.toList_ofList, List.append_nil]
  rw [readZoned, htext, wall_sep, if_neg (by decide)]

end Time
