import Auxlry.Time.DateTime
import Mathlib.Data.String.Basic

/-!
# RFC 3339 texts

A UTC time is written with a fixed number of digits for each field, and then with as many
digits of a fraction as it needs, in groups of three. A leap second is the second 60.

* `text_lt_iff`: **the order of the texts is that of the times**, whatever the lengths of
  their fractions.
* `denotes_text`: a text denotes the time it was written for.
* `reads_readUtc`: a reader of such texts.
-/

namespace Time

/-! ## Digits -/

/-- The last `w` decimal digits of `n`. -/
def pad : ℕ → ℕ → List Char
  | 0, _ => []
  | w + 1, n => pad w (n / 10) ++ [Nat.digitChar (n % 10)]

/-- What digits stand for. -/
def value (ds : List Char) : ℕ := ds.foldl (fun n c => 10 * n + (c.toNat - 48)) 0

@[simp] theorem length_pad (w n : ℕ) : (pad w n).length = w := by
  induction w generalizing n with
  | zero => rfl
  | succ w ih => rw [pad, List.length_append, ih]; rfl

theorem value_concat (ds : List Char) (c : Char) : value (ds ++ [c]) = 10 * value ds + (c.toNat - 48) :=
  List.foldl_concat ..

theorem digitChar_props : ∀ d < 10, (Nat.digitChar d).isDigit = true ∧ (Nat.digitChar d).toNat - 48 = d ∧
    '0' ≤ Nat.digitChar d ∧ ∀ e < d, Nat.digitChar e < Nat.digitChar d := by decide

theorem value_pad {w n : ℕ} (h : n < 10 ^ w) : value (pad w n) = n := by
  induction w generalizing n with
  | zero => exact (Nat.lt_one_iff.1 h).symm
  | succ w ih =>
    rw [pad, value_concat, ih (by rw [Nat.pow_succ] at h; omega),
      (digitChar_props _ (Nat.mod_lt n (by decide))).2.1]
    omega

theorem isDigit_pad (w n : ℕ) : ∀ c ∈ pad w n, c.isDigit = true ∧ '0' ≤ c := by
  induction w generalizing n with
  | zero => exact fun c hc => absurd hc List.not_mem_nil
  | succ w ih =>
    intro c hc
    rcases List.mem_append.1 hc with hc | hc
    · exact ih _ c hc
    · rw [List.mem_singleton.1 hc]
      obtain ⟨hd, -, h0, -⟩ := digitChar_props (n % 10) (Nat.mod_lt n (by decide))
      exact ⟨hd, h0⟩

/-- Zeros behind a number are zeros behind its digits. -/
theorem pad_mul (w j n : ℕ) : pad (w + j) (n * 10 ^ j) = pad w n ++ List.replicate j '0' := by
  induction j with
  | zero => rw [Nat.pow_zero, Nat.mul_one]; exact (List.append_nil _).symm
  | succ j ih =>
    have hdiv : n * 10 ^ (j + 1) / 10 = n * 10 ^ j := by
      rw [Nat.pow_succ, ← Nat.mul_assoc, Nat.mul_div_cancel _ (by decide)]
    have hmod : n * 10 ^ (j + 1) % 10 = 0 := by
      rw [Nat.pow_succ, ← Nat.mul_assoc, Nat.mul_mod_left]
    rw [← Nat.add_assoc, pad, hdiv, hmod, ih, List.replicate_succ', List.append_assoc]; rfl

/-! ## Comparing digits -/

theorem append_lt {a b x y : List Char} (hlen : a.length = b.length) (h : a < b ∨ a = b ∧ x < y) :
    a ++ x < b ++ y := by
  rcases h with h | ⟨rfl, h⟩
  · induction a generalizing b with
    | nil => rw [List.length_eq_zero_iff.1 hlen.symm] at h; exact absurd h (lt_irrefl _)
    | cons c a ih =>
      rcases b with _ | ⟨d, b⟩
      · cases hlen
      · rw [List.cons_append, List.cons_append, List.cons_lt_cons_iff]
        rcases List.cons_lt_cons_iff.1 h with hcd | ⟨rfl, hab⟩
        · exact .inl hcd
        · exact .inr ⟨rfl, ih (Nat.succ.inj hlen) hab⟩
  · exact List.append_left_lt h

theorem pad_lt {w n m : ℕ} (hm : m < 10 ^ w) (h : n < m) : pad w n < pad w m := by
  induction w generalizing n m with
  | zero => omega
  | succ w ih =>
    refine append_lt (by rw [length_pad, length_pad]) ?_
    rcases Nat.lt_or_ge (n / 10) (m / 10) with hlt | hge
    · exact .inl (ih (by rw [Nat.pow_succ] at hm; omega) hlt)
    · refine .inr ⟨by rw [show n / 10 = m / 10 by omega], ?_⟩
      rw [List.cons_lt_cons_iff]
      exact .inl ((digitChar_props (m % 10) (by omega)).2.2.2 _ (by omega))

/-- A field of a fixed width, and what follows. -/
theorem pad_append_lt {w n m : ℕ} {x y : List Char} (hm : m < 10 ^ w) (h : n < m ∨ n = m ∧ x < y) :
    pad w n ++ x < pad w m ++ y := by
  refine append_lt (by rw [length_pad, length_pad]) ?_
  rcases h with h | ⟨rfl, h⟩
  · exact .inl (pad_lt hm h)
  · exact .inr ⟨rfl, h⟩

/-- A field with a separator behind it, the later fields compared if it is the same. -/
theorem field_lt {w n m : ℕ} {sep : Char} {x y : List Char} {later : Prop} (hm : m < 10 ^ w)
    (h : n < m ∨ n = m ∧ later) (hlater : later → x < y) : pad w n ++ sep :: x < pad w m ++ sep :: y := by
  refine pad_append_lt hm (h.imp_right fun hsame => ⟨hsame.1, ?_⟩)
  rw [List.cons_lt_cons_iff]
  exact .inr ⟨rfl, hlater hsame.2⟩

/-- Digits are not before zeros. -/
theorem not_lt_zeros {p : List Char} (hp : ∀ c ∈ p, '0' ≤ c) (j : ℕ) :
    ¬ p ++ List.replicate j '0' < List.replicate (p.length + j) '0' := by
  induction p with
  | nil => rw [List.nil_append, List.length_nil, Nat.zero_add]; exact lt_irrefl _
  | cons c p ih =>
    rw [List.forall_mem_cons] at hp
    rw [List.length_cons, Nat.add_right_comm, List.replicate_succ, List.cons_append, List.cons_lt_cons_iff, not_or]
    exact ⟨not_lt_of_ge hp.1, fun h => ih hp.2 h.2⟩

/-- **Fractions of different lengths** compare, with a plus sign behind them, as they do with
zeros behind them: the sign comes before every digit. -/
theorem fraction_lt {p q : List Char} (hp : ∀ c ∈ p, '0' ≤ c) (hq : ∀ c ∈ q, '0' ≤ c) {i j : ℕ}
    (hlen : p.length + i = q.length + j) (h : p ++ List.replicate i '0' < q ++ List.replicate j '0')
    (x : List Char) : p ++ '+' :: x < q ++ '+' :: x := by
  induction p generalizing q with
  | nil =>
    rcases q with _ | ⟨d, q⟩
    · rw [List.length_nil, Nat.zero_add, Nat.zero_add] at hlen
      rw [hlen] at h
      exact absurd h (lt_irrefl _)
    · rw [List.nil_append, List.cons_append, List.cons_lt_cons_iff]
      exact .inl (lt_of_lt_of_le (by decide) (hq d (.head _)))
  | cons c p ih =>
    rcases q with _ | ⟨d, q⟩
    · rw [List.length_nil, Nat.zero_add] at hlen
      rw [← hlen] at h
      exact absurd h (not_lt_zeros hp i)
    · rw [List.forall_mem_cons] at hp hq
      rw [List.cons_append, List.cons_append, List.cons_lt_cons_iff] at h ⊢
      rcases h with h | ⟨rfl, h⟩
      · exact .inl h
      · rw [List.length_cons, List.length_cons] at hlen
        exact .inr ⟨rfl, ih hp.2 hq.2 (by omega) h⟩

/-! ## Times -/

/-- The digits of the second behind the point: none, three, six or nine. -/
def fraction (n : ℕ) : List Char :=
  if n = 0 then []
  else if n % 1000000 = 0 then pad 3 (n / 1000000)
  else if n % 1000 = 0 then pad 6 (n / 1000)
  else pad 9 n

/-- A UTC time, by its fields and the digits of its fraction. -/
def stamp (year month day hour minute second : ℕ) (frac : List Char) : List Char :=
  pad 4 year ++ '-' :: (pad 2 month ++ '-' :: (pad 2 day ++ 'T' :: (pad 2 hour ++ ':' ::
    (pad 2 minute ++ ':' :: (pad 2 second ++ ((if frac = [] then [] else '.' :: frac) ++ "+00:00".toList))))))

namespace DateTime

/-- The second that is written, 60 for a leap second. -/
def shownSecond (t : DateTime) : ℕ := if t.nano < 1000000000 then t.second else t.second + 1

def shownNano (t : DateTime) : ℕ := t.nano % 1000000000

/-- The text of a time. -/
def text (t : DateTime) : String :=
  String.ofList (stamp t.year t.month t.day t.hour t.minute t.shownSecond (fraction t.shownNano))

end DateTime

/-- The fraction, filled up with zeros. -/
theorem fraction_zeros {n : ℕ} (h : n < 1000000000) :
    (fraction n).length ≤ 9 ∧ fraction n ++ List.replicate (9 - (fraction n).length) '0' = pad 9 n := by
  unfold fraction
  split
  · rename_i h0
    subst h0
    exact ⟨Nat.zero_le _, by decide⟩
  split
  · rename_i hmod
    have hdiv : n / 1000000 * 10 ^ (9 - 3) = n := Nat.div_mul_cancel (Nat.dvd_of_mod_eq_zero hmod)
    rw [length_pad, ← pad_mul, hdiv]
    exact ⟨by decide, rfl⟩
  split
  · rename_i hmod
    have hdiv : n / 1000 * 10 ^ (9 - 6) = n := Nat.div_mul_cancel (Nat.dvd_of_mod_eq_zero hmod)
    rw [length_pad, ← pad_mul, hdiv]
    exact ⟨by decide, rfl⟩
  · rw [length_pad]
    exact ⟨Nat.le_refl _, List.append_nil _⟩

theorem isDigit_fraction (n : ℕ) : ∀ c ∈ fraction n, c.isDigit = true ∧ '0' ≤ c := by
  unfold fraction
  split
  · exact fun c hc => absurd hc List.not_mem_nil
  split
  · exact isDigit_pad _ _
  split
  · exact isDigit_pad _ _
  · exact isDigit_pad _ _

/-! ## The order of texts -/

/-- What follows the seconds. -/
theorem suffix_lt {n m : ℕ} (hm : m < 1000000000) (h : n < m) :
    (if fraction n = [] then [] else '.' :: fraction n) ++ "+00:00".toList <
      (if fraction m = [] then [] else '.' :: fraction m) ++ "+00:00".toList := by
  obtain ⟨hlen, hzeros⟩ := fraction_zeros (Nat.lt_trans h hm)
  obtain ⟨hlen', hzeros'⟩ := fraction_zeros hm
  have hlt : fraction n ++ List.replicate (9 - (fraction n).length) '0' <
      fraction m ++ List.replicate (9 - (fraction m).length) '0' := by
    rw [hzeros, hzeros']
    exact pad_lt hm h
  have hne : fraction m ≠ [] := by
    -- otherwise it is all zeros, and nothing is before that
    intro hnil
    rw [hnil, List.nil_append, List.length_nil] at hlt
    refine not_lt_zeros (fun c hc => (isDigit_fraction n c hc).2) (9 - (fraction n).length) ?_
    rwa [Nat.add_sub_cancel' hlen]
  rw [if_neg hne]
  split
  · rename_i hnil
    exact List.cons_lt_cons_iff.2 (.inl (by decide))
  · rw [List.cons_append, List.cons_append, List.cons_lt_cons_iff]
    exact .inr ⟨rfl, fraction_lt (fun c hc => (isDigit_fraction n c hc).2)
      (fun c hc => (isDigit_fraction m c hc).2) (by omega) hlt _⟩

theorem daysIn_le (y m : ℕ) : daysIn y m ≤ 31 := by
  unfold daysIn
  split <;> try split
  all_goals omega

namespace DateTime

variable {t u : DateTime}

theorem shownNano_lt (t : DateTime) : t.shownNano < 1000000000 := Nat.mod_lt _ (by decide)

theorem shownSecond_le (t : DateTime) : t.shownSecond ≤ 60 := by
  obtain ⟨-, -, -, -, -, -, -, hs, -⟩ := t.valid
  unfold shownSecond
  split <;> omega

/-- The second and the fraction that are written are ordered as those of the time. -/
theorem shown_lt (h : t.second < u.second ∨ t.second = u.second ∧ t.nano < u.nano) :
    t.shownSecond < u.shownSecond ∨ t.shownSecond = u.shownSecond ∧ t.shownNano < u.shownNano := by
  obtain ⟨-, -, -, -, -, -, -, hs, hn⟩ := t.valid
  obtain ⟨-, -, -, -, -, -, -, hs', hn'⟩ := u.valid
  unfold shownSecond shownNano
  split <;> split <;> omega

theorem text_lt (h : t < u) : t.text < u.text := by
  rw [String.lt_iff_toList_lt, text, text, String.toList_ofList, String.toList_ofList]
  obtain ⟨hy, -, hmo, -, hd, hh, hmi, -⟩ := u.valid
  have hd' := Nat.le_trans hd (daysIn_le ..)
  have hs := u.shownSecond_le
  have hf := lt_iff_fields.1 h
  simp only [fields, List.cons_lt_cons_iff, List.not_lt_nil, and_false, or_false] at hf
  unfold stamp
  -- field by field, the first that differs decides
  refine field_lt (by omega) hf fun hmonth => ?_
  refine field_lt (by omega) hmonth fun hday => ?_
  refine field_lt (by omega) hday fun hhour => ?_
  refine field_lt (by omega) hhour fun hminute => ?_
  refine field_lt (by omega) hminute fun hsecond => ?_
  exact pad_append_lt (by omega) ((shown_lt hsecond).imp_right fun h => ⟨h.1, suffix_lt u.shownNano_lt h.2⟩)

/-- **The order of the texts** is that of the times. -/
theorem text_lt_iff : t.text < u.text ↔ t < u := by
  refine ⟨fun h => ?_, text_lt⟩
  rcases lt_trichotomy t u with hlt | rfl | hlt
  · exact hlt
  · exact absurd h (lt_irrefl _)
  · exact absurd h (lt_asymm (text_lt hlt))

theorem text_le_iff : t.text ≤ u.text ↔ t ≤ u := by
  rw [← not_lt, ← not_lt, text_lt_iff]

example : (⟨2024, 2, 29, 23, 59, 5, 123000000, by decide⟩ : DateTime).text = "2024-02-29T23:59:05.123+00:00" := by
  decide

end DateTime

/-! ## Reading a text -/

/-- **What a text denotes**: the digits of its fraction, up to nine of them, are a decimal
fraction of a second, and the second 60 is a leap second. -/
def Denotes (s : String) (t : DateTime) : Prop :=
  ∃ frac : List Char, (∀ c ∈ frac, c.isDigit = true) ∧ frac.length ≤ 9 ∧
    s.toList = stamp t.year t.month t.day t.hour t.minute t.shownSecond frac ∧
    value frac * 10 ^ (9 - frac.length) = t.shownNano

theorem value_zeros (ds : List Char) (j : ℕ) : value (ds ++ List.replicate j '0') = value ds * 10 ^ j := by
  induction j with
  | zero => rw [List.replicate_zero, List.append_nil, Nat.pow_zero, Nat.mul_one]
  | succ j ih =>
    rw [List.replicate_succ', ← List.append_assoc, value_concat, ih, Nat.pow_succ]
    show 10 * (value ds * 10 ^ j) + 0 = _
    rw [Nat.add_zero, Nat.mul_comm 10, Nat.mul_assoc]

/-- **A text denotes its time.** -/
theorem denotes_text (t : DateTime) : Denotes t.text t := by
  obtain ⟨hlen, hzeros⟩ := fraction_zeros t.shownNano_lt
  refine ⟨fraction t.shownNano, fun c hc => (isDigit_fraction _ c hc).1, hlen, String.toList_ofList, ?_⟩
  rw [← value_zeros, hzeros]
  exact value_pad t.shownNano_lt

/-- A number of a fixed width, and what follows. -/
def number (w : ℕ) (cs : List Char) : ℕ × List Char := (value (cs.take w), cs.drop w)

theorem number_pad {w n : ℕ} (h : n < 10 ^ w) (cs : List Char) : number w (pad w n ++ cs) = (n, cs) := by
  unfold number
  rw [List.take_left' (length_pad w n), List.drop_left' (length_pad w n), value_pad h]

/-- The digits of a fraction, if there is a point. -/
def readFraction : List Char → List Char
  | '.' :: cs => cs.takeWhile Char.isDigit
  | _ => []

/-- Read a UTC time. -/
def readUtc (s : String) : Option DateTime :=
  let (year, cs) := number 4 s.toList
  let (month, cs) := number 2 (cs.drop 1)
  let (day, cs) := number 2 (cs.drop 1)
  let (hour, cs) := number 2 (cs.drop 1)
  let (minute, cs) := number 2 (cs.drop 1)
  let (second, cs) := number 2 (cs.drop 1)
  let frac := readFraction cs
  let nano := value frac * 10 ^ (9 - frac.length)
  if s.toList ≠ stamp year month day hour minute second frac ∨ 9 < frac.length then none
  else if second = 60 then
    if h : Valid year month day hour minute 59 (nano + 1000000000) then some ⟨_, _, _, _, _, _, _, h⟩ else none
  else if h : Valid year month day hour minute second nano then some ⟨_, _, _, _, _, _, _, h⟩ else none

theorem readFraction_suffix {frac : List Char} (h : ∀ c ∈ frac, c.isDigit = true) :
    readFraction ((if frac = [] then [] else '.' :: frac) ++ "+00:00".toList) = frac := by
  split
  · rename_i hnil
    rw [hnil]; rfl
  · show (frac ++ '+' :: "00:00".toList).takeWhile Char.isDigit = frac
    rw [List.takeWhile_append_of_pos h, List.takeWhile_cons_of_neg (by decide), List.append_nil]

/-- **The reader** finds the time that a text denotes. -/
theorem reads_readUtc {s : String} {t : DateTime} (h : Denotes s t) : readUtc s = some t := by
  obtain ⟨frac, hdigits, hlen, hs, hnano⟩ := h
  obtain ⟨hy, -, hmo, -, hd, hh, hmi, -⟩ := t.valid
  have hd' := Nat.le_trans hd (daysIn_le ..)
  have hsec := t.shownSecond_le
  have hread : readUtc s =
      if t.shownSecond = 60 then
        if h : Valid t.year t.month t.day t.hour t.minute 59 (t.shownNano + 1000000000) then
          some ⟨_, _, _, _, _, _, _, h⟩
        else none
      else if h : Valid t.year t.month t.day t.hour t.minute t.shownSecond t.shownNano then
        some ⟨_, _, _, _, _, _, _, h⟩
      else none := by
    have hchecked : ¬ (s.toList ≠ stamp t.year t.month t.day t.hour t.minute t.shownSecond frac ∨ 9 < frac.length) :=
      not_or.2 ⟨not_not_intro hs, Nat.not_lt.2 hlen⟩
    unfold readUtc
    rw [hs] at hchecked ⊢
    conv in number 4 _ => unfold stamp
    simp only [number_pad (show t.year < 10 ^ 4 by omega), number_pad (show t.month < 10 ^ 2 by omega),
      number_pad (show t.day < 10 ^ 2 by omega), number_pad (show t.hour < 10 ^ 2 by omega),
      number_pad (show t.minute < 10 ^ 2 by omega), number_pad (show t.shownSecond < 10 ^ 2 by omega),
      List.drop_succ_cons, List.drop_zero, readFraction_suffix hdigits, if_neg hchecked, hnano]
  rw [hread]
  have hvalid := t.valid
  rcases Nat.lt_or_ge t.nano 1000000000 with hlt | hge
  · have hsecond : t.shownSecond = t.second := if_pos hlt
    have hnano : t.shownNano = t.nano := Nat.mod_eq_of_lt hlt
    have hne : t.second ≠ 60 := by have := hvalid.2.2.2.2.2.2.2.1; omega
    simp only [hsecond, hnano, if_neg hne, dif_pos hvalid]
  · -- a leap second
    have hleap : t.second = 59 ∧ t.nano < 2000000000 := hvalid.2.2.2.2.2.2.2.2.resolve_left (by omega)
    have hsecond : t.shownSecond = 60 := by unfold DateTime.shownSecond; rw [if_neg (by omega), hleap.1]
    have hnano : t.shownNano + 1000000000 = t.nano := by unfold DateTime.shownNano; omega
    rw [hleap.1] at hvalid
    simp only [hsecond, hnano, if_true, dif_pos hvalid, Option.some.injEq]
    exact DateTime.ext rfl rfl rfl rfl rfl hleap.1.symm rfl

end Time
