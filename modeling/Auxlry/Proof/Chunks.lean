import Auxlry.Spec.Discord
import Mathlib.Logic.Relation

/-!
# Where chunking panics

`chunkMessage` looks for a newline in the first `maxLen` bytes of what remains, and
takes that slice before it knows that it ends between two characters.

* `nextCut_iff`: where the code cuts next, as a relation between two places of the text.
* `splitAt_boundary`: the split itself is always between two characters, if the slice is.
* `chunkMessage_returns_iff`: **the exact condition**. The call returns when no character
  lies across the limit at any of the places where the content is cut.
* `chunkMessage_panics`: one byte followed by two-byte characters.
-/

namespace Auxlry.Discord

open Utf8

/-! ## Where the content is cut -/

/-- A newline at `i`, and none behind it before `hi`. -/
def LastNewline (content : List UInt8) (lo hi i : ℕ) : Prop :=
  lo ≤ i ∧ i < hi ∧ content[i]? = some 10 ∧ ∀ j, i < j → j < hi → content[j]? ≠ some 10

/-- Two consecutive places where a message is cut: the second is behind the last newline of
the window at the first, or at its end when it has none. -/
def NextCut (content : List UInt8) (maxLen o p : ℕ) : Prop :=
  o + maxLen < content.length ∧
    ((∃ i, LastNewline content o (o + maxLen) i ∧ p = i + 1) ∨
      ((∀ j, o ≤ j → j < o + maxLen → content[j]? ≠ some 10) ∧ p = o + maxLen))

/-- At no place from `o` on where the content is cut, a character lies across the limit. -/
def ClearFrom (content : String) (maxLen o : ℕ) : Prop :=
  ∀ p, Relation.ReflTransGen (NextCut (bytes content) maxLen) o p → ¬ Across content.toList (p + maxLen)

variable {content : List UInt8} {cs : List Char} {maxLen o : ℕ}

/-! ## Splitting -/

theorem rfind_some {b : UInt8} {bs : List UInt8} {i : ℕ} (h : rfind b bs = some i) : bs[i]? = some b := by
  induction bs generalizing i with
  | nil => cases h
  | cons x xs ih =>
    unfold rfind at h
    split at h
    · rename_i j hj
      cases h; exact ih hj
    · split at h
      · rename_i hx
        cases h; exact congrArg some hx
      · cases h

theorem rfind_none {b : UInt8} {bs : List UInt8} (h : rfind b bs = none) : b ∉ bs := by
  induction bs with
  | nil => exact List.not_mem_nil
  | cons x xs ih =>
    unfold rfind at h
    split at h
    · cases h
    · rename_i hxs
      split at h
      · cases h
      · rename_i hx
        rw [List.mem_cons, not_or]
        exact ⟨fun hb => hx hb.symm, ih hxs⟩

theorem rfind_last {b : UInt8} {bs : List UInt8} {i : ℕ} (h : rfind b bs = some i) : b ∉ bs.drop (i + 1) := by
  induction bs generalizing i with
  | nil => cases h
  | cons x xs ih =>
    unfold rfind at h
    split at h
    · rename_i j hj
      cases h; exact ih hj
    · rename_i hxs
      split at h
      · cases h; exact rfind_none hxs
      · cases h

/-- What is found in a window is in the text. -/
theorem rfind_take {b : UInt8} {bs : List UInt8} {i : ℕ} (h : rfind b (bs.take maxLen) = some i) :
    i < maxLen ∧ bs[i]? = some b := by
  have hget := rfind_some h
  have hlt := (List.getElem?_eq_some_iff.1 hget).1
  rw [List.length_take] at hlt
  rw [List.getElem?_take_of_lt (by omega)] at hget
  exact ⟨by omega, hget⟩

theorem splitAt_pos (window : List UInt8) (h : 0 < maxLen) : 0 < splitAt window maxLen := by
  unfold splitAt; split <;> omega

/-- **The split is between two characters**: after a newline, or at the limit. -/
theorem splitAt_boundary (h : IsBoundary (encode cs) maxLen) :
    IsBoundary (encode cs) (splitAt ((encode cs).take maxLen) maxLen) := by
  unfold splitAt
  split
  · rename_i i hi
    exact isBoundary_succ (rfind_take hi).2 (by decide)
  · exact h

/-- The next place where the code cuts, after `o`. -/
def nextCut (content : List UInt8) (maxLen o : ℕ) : ℕ :=
  o + splitAt ((content.drop o).take maxLen) maxLen

theorem mem_take_drop {b : UInt8} {n : ℕ} :
    b ∈ (content.drop o).take n ↔ ∃ i, o ≤ i ∧ i < o + n ∧ content[i]? = some b := by
  rw [List.mem_iff_getElem?]
  constructor
  · rintro ⟨i, hi⟩
    have hlt := (List.getElem?_eq_some_iff.1 hi).1
    rw [List.length_take] at hlt
    rw [List.getElem?_take_of_lt (by omega), List.getElem?_drop] at hi
    exact ⟨o + i, by omega, by omega, hi⟩
  · rintro ⟨i, ho, hn, hi⟩
    refine ⟨i - o, ?_⟩
    rwa [List.getElem?_take_of_lt (by omega), List.getElem?_drop, Nat.add_sub_cancel' ho]

theorem no_newline {n : ℕ} (h : rfind 10 ((content.drop o).take n) = none) :
    ∀ j, o ≤ j → j < o + n → content[j]? ≠ some 10 :=
  fun j ho hn hj => rfind_none h (mem_take_drop.2 ⟨j, ho, hn, hj⟩)

theorem lastNewline {n i : ℕ} (h : rfind 10 ((content.drop o).take n) = some i) :
    LastNewline content o (o + n) (o + i) := by
  have hi := rfind_some h
  have hlt := (List.getElem?_eq_some_iff.1 hi).1
  rw [List.length_take] at hlt
  rw [List.getElem?_take_of_lt (by omega), List.getElem?_drop] at hi
  refine ⟨by omega, by omega, hi, fun j hj hn hj10 => rfind_last h ?_⟩
  -- behind the one found, still inside the window
  rw [List.mem_iff_getElem?]
  refine ⟨j - (o + i + 1), ?_⟩
  rw [List.getElem?_drop, List.getElem?_take_of_lt (by omega), List.getElem?_drop]
  rw [← hj10]; congr 1; omega

/-- **Where the code cuts next.** -/
theorem nextCut_iff {p : ℕ} : NextCut content maxLen o p ↔
    o + maxLen < content.length ∧ p = nextCut content maxLen o := by
  unfold NextCut nextCut splitAt
  refine and_congr_right fun _ => ?_
  split
  · rename_i i hi
    have hl := lastNewline hi
    constructor
    · rintro (⟨j, hj, rfl⟩ | ⟨hno, -⟩)
      · -- there is only one last newline
        rcases Nat.lt_trichotomy j (o + i) with hlt | rfl | hlt
        · exact absurd hl.2.2.1 (hj.2.2.2 _ hlt hl.2.1)
        · rfl
        · exact absurd hj.2.2.1 (hl.2.2.2 _ hlt hj.2.1)
      · exact absurd hl.2.2.1 (hno _ hl.1 hl.2.1)
    · rintro rfl
      exact .inl ⟨o + i, hl, rfl⟩
  · rename_i hno
    constructor
    · rintro (⟨j, hj, -⟩ | ⟨-, rfl⟩)
      · exact absurd hj.2.2.1 (no_newline hno j hj.1 hj.2.1)
      · rfl
    · rintro rfl
      exact .inr ⟨no_newline hno, rfl⟩

/-! ## The loop -/

theorem clearFrom_iff {content : String} : ClearFrom content maxLen o ↔
    ¬ Across content.toList (o + maxLen) ∧
      (o + maxLen < (bytes content).length → ClearFrom content maxLen (nextCut (bytes content) maxLen o)) := by
  unfold ClearFrom
  constructor
  · intro h
    exact ⟨h o .refl, fun hlt p hp => h p (hp.head (nextCut_iff.2 ⟨hlt, rfl⟩))⟩
  · rintro ⟨h, h'⟩ p hp
    rcases hp.cases_head with rfl | ⟨q, hq, hqp⟩
    · exact h
    · obtain ⟨hlt, rfl⟩ := nextCut_iff.1 hq
      exact h' hlt p hqp

/-- Past the last limit nothing is cut any more. -/
theorem clearFrom_of_le {content : String} (h : (bytes content).length ≤ o + maxLen) :
    ClearFrom content maxLen o := by
  refine clearFrom_iff.2 ⟨fun ha => ?_, fun hlt => absurd hlt (by omega)⟩
  have hlt : o + maxLen < (bytes content).length := (across_iff.1 ha).1
  omega

/-- **The loop returns** exactly when no character lies across a limit. -/
theorem chunkLoop_returns_iff {content : String} (hpos : 0 < maxLen) {fuel : ℕ} (ho : IsBoundary (bytes content) o)
    (hfuel : (bytes content).length < o + fuel) (chunks : List (List UInt8)) :
    (∃ r, chunkLoop maxLen fuel ((bytes content).drop o) chunks = .returned r) ↔ ClearFrom content maxLen o := by
  induction fuel generalizing o chunks with
  | zero =>
    -- fuel runs out only behind the end
    rcases ho with rfl | rfl | ⟨b, hb, -⟩
    · omega
    · omega
    · have := (List.getElem?_eq_some_iff.1 hb).1; omega
  | succ fuel ih =>
    obtain ⟨as, bs, -, hd, hbd⟩ := isBoundary_drop ho
    change (bytes content).drop o = encode bs at hd
    have hlen : (bytes content).length - o = (encode bs).length := by
      rw [← hd, List.length_drop]
    rw [hd, chunkLoop]
    split
    · -- nothing remains
      rename_i hnil
      rw [hnil, List.length_nil] at hlen
      exact ⟨fun _ => clearFrom_of_le (by omega), fun _ => ⟨_, rfl⟩⟩
    split
    · -- the last chunk
      exact ⟨fun _ => clearFrom_of_le (by omega), fun _ => ⟨_, rfl⟩⟩
    · rename_i hne hlong
      have hlt : o + maxLen < (bytes content).length := by omega
      have hacross : ¬ Across content.toList (o + maxLen) ↔ IsBoundary (encode bs) maxLen := by
        rw [across_iff, and_iff_right (show _ < (encode content.toList).length from hlt), not_not, hbd]
      rw [clearFrom_iff, imp_iff_right hlt, hacross]
      by_cases hb : IsBoundary (encode bs) maxLen
      · -- the slice is taken, and the split is a boundary as well
        have hsplit := splitAt_boundary hb
        have hcut : nextCut (bytes content) maxLen o =
            o + splitAt ((encode bs).take maxLen) maxLen := by unfold nextCut; rw [hd]
        have hrest : (encode bs).drop (splitAt ((encode bs).take maxLen) maxLen) =
            (bytes content).drop (nextCut (bytes content) maxLen o) := by
          rw [hcut, ← List.drop_drop, hd]
        simp only [sliceTo, sliceFrom, if_pos hb, if_pos hsplit, hrest]
        rw [and_iff_right hb]
        have hp := splitAt_pos ((encode bs).take maxLen) hpos
        refine ih (hcut ▸ (hbd _).1 hsplit) ?_ _
        omega
      · -- the slice up to the limit panics
        simp [sliceTo, hb]

/-- **The exact condition** for `chunkMessage` to return, given fuel for an iteration per byte. -/
theorem chunkMessage_returns_iff (content : String) {maxLen fuel : ℕ} (hmax : 4 ≤ maxLen)
    (hfuel : (bytes content).length < fuel) :
    (∃ chunks, chunkMessage (bytes content) maxLen fuel = .returned chunks) ↔
      ∀ p, Relation.ReflTransGen (NextCut (bytes content) maxLen) 0 p → ¬ Across content.toList (p + maxLen) := by
  unfold chunkMessage
  split
  · exact ⟨fun _ => clearFrom_of_le (by rw [Nat.zero_add]; assumption), fun _ => ⟨_, rfl⟩⟩
  · exact chunkLoop_returns_iff (by omega) (isBoundary_zero _) (by rw [Nat.zero_add]; exact hfuel) []

/-- The condition at work: an accented letter inside the limit, then a line break. -/
theorem chunkMessage_returns_iff_lines :
    (∃ chunks, chunkMessage (bytes "é\nabc") 4 10 = .returned chunks) ↔
      ∀ p, Relation.ReflTransGen (NextCut (bytes "é\nabc") 4) 0 p → ¬ Across "é\nabc".toList (p + 4) :=
  chunkMessage_returns_iff "é\nabc" (by decide) (by decide)

/-! ## A panic -/

/-- One byte, then a thousand characters of two bytes each. -/
def accents : String := String.ofList ('a' :: List.replicate 1000 'é')

theorem encode_replicate (n : ℕ) : encode (List.replicate n 'é') = (List.replicate n [195, 169]).flatten := by
  unfold encode
  rw [List.flatMap_replicate]; rfl

theorem bytes_accents : bytes accents = 97 :: (List.replicate 1000 [195, 169]).flatten := by
  unfold bytes accents
  rw [String.toList_ofList, encode_cons, encode_replicate]; rfl

theorem length_flatten_replicate (x y : UInt8) (n : ℕ) :
    (List.replicate n [x, y]).flatten.length = 2 * n := by
  induction n with
  | zero => rfl
  | succ n ih =>
    rw [List.replicate_succ, List.flatten_cons, List.length_append, ih]
    exact Nat.add_comm ..

theorem getElem?_flatten_replicate (x y : UInt8) (n k : ℕ) :
    (List.replicate (k + 1 + n) [x, y]).flatten[2 * k + 1]? = some y := by
  induction k with
  | zero => rw [Nat.zero_add, Nat.add_comm, List.replicate_succ]; rfl
  | succ k ih =>
    have : k + 1 + 1 + n = (k + 1 + n) + 1 := by omega
    rw [this, List.replicate_succ, List.flatten_cons]
    exact ih

/-- **A message that `sendMessage` cannot send**: the limit of 2000 falls inside a character. -/
theorem chunkMessage_panics : (bytes accents).length = 2001 ∧
    (∀ fuel, chunkMessage (bytes accents) 2000 (fuel + 1) = .panicked) ∧
      ¬ ∃ fuel chunks, chunkMessage (bytes accents) 2000 fuel = .returned chunks := by
  have hlen : (bytes accents).length = 2001 := by
    rw [bytes_accents, List.length_cons, length_flatten_replicate]
  have hget : (bytes accents)[2000]? = some 169 := by
    have := getElem?_flatten_replicate 195 169 0 999
    rwa [bytes_accents, List.getElem?_cons_succ]
  have hb : ¬ IsBoundary (bytes accents) 2000 := by
    rintro (h | h | ⟨b, hb, hn⟩)
    · cases h
    · rw [hlen] at h; cases h
    · rw [hget] at hb
      exact hn (Option.some.inj hb ▸ by decide)
  have hne : bytes accents ≠ [] := fun h => by rw [h] at hlen; cases hlen
  have hlong : ¬ (bytes accents).length ≤ 2000 := by rw [hlen]; decide
  have hpanic : ∀ fuel, chunkMessage (bytes accents) 2000 (fuel + 1) = .panicked := by
    intro fuel
    rw [chunkMessage, if_neg hlong, chunkLoop, if_neg hne, if_neg hlong, sliceTo, if_neg hb]
  refine ⟨hlen, hpanic, ?_⟩
  intro ⟨fuel, chunks, hret⟩
  cases fuel with
  | zero =>
    rw [chunkMessage, if_neg hlong] at hret
    cases hret
  | succ fuel =>
    rw [hpanic fuel] at hret
    cases hret

end Auxlry.Discord
