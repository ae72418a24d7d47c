import Mathlib.Data.List.Basic

/-!
# Searching and trimming text

The string operations of the standard library that the program branches on.
-/

namespace Auxlry

/-- `contains` of a text, on characters. -/
def containsText : List Char → List Char → Bool
  | [], needle => needle.isEmpty
  | c :: cs, needle => needle.isPrefixOf (c :: cs) || containsText cs needle

/-- `strip_prefix`. -/
def stripPrefix (p s : String) : Option String := (s.toList.dropPrefix? p.toList).map String.ofList

theorem stripPrefix_append (p s : String) : stripPrefix p (p ++ s) = some s := by
  have h : (p ++ s).toList.dropPrefix? p.toList = some s.toList :=
    List.dropPrefix?_eq_some_iff.2 ⟨p.toList, String.toList_append .., beq_self_eq_true _⟩
  rw [stripPrefix, h, Option.map_some, String.ofList_toList]

/-- Unicode's `White_Space`. -/
def whiteSpace (c : Char) : Bool :=
  (0x9 ≤ c.val && c.val ≤ 0xD) || (0x2000 ≤ c.val && c.val ≤ 0x200A) ||
    [0x20, 0x85, 0xA0, 0x1680, 0x2028, 0x2029, 0x202F, 0x205F, 0x3000].contains c.val

/-- `trim`. -/
def trim (s : String) : String :=
  String.ofList ((s.toList.dropWhile whiteSpace).reverse.dropWhile whiteSpace).reverse

/-- Nothing to trim. -/
theorem trim_of_forall {s : String} (h : ∀ c ∈ s.toList, whiteSpace c = false) : trim s = s := by
  have hd : s.toList.dropWhile whiteSpace = s.toList := by
    cases hs : s.toList with
    | nil => rfl
    | cons c cs => rw [List.dropWhile_cons_of_neg (by simp [h c (by simp [hs])])]
  have hr : s.toList.reverse.dropWhile whiteSpace = s.toList.reverse := by
    cases hs : s.toList.reverse with
    | nil => rfl
    | cons c cs =>
      have hc : c ∈ s.toList := by rw [← List.mem_reverse, hs]; exact List.mem_cons_self
      rw [List.dropWhile_cons_of_neg (by simp [h c hc])]
  rw [trim, hd, hr, List.reverse_reverse, String.ofList_toList]

theorem not_whiteSpace_of_isDigit {c : Char} (h : c.isDigit = true) : whiteSpace c = false := by
  obtain ⟨hlo, hhi⟩ := Char.isDigit_iff_toNat.1 h
  have hlo : 48 ≤ c.val.toNat := hlo
  have hhi : c.val.toNat ≤ 57 := hhi
  simp only [whiteSpace, UInt32.le_iff_toNat_le, List.contains_eq_mem, List.mem_cons, ← UInt32.toNat_inj,
    List.not_mem_nil, Bool.or_eq_false_iff, Bool.and_eq_false_iff, decide_eq_false_iff_not]
  simp only [UInt32.reduceToNat, or_false]
  omega

/-- A text that does not start with `p` is no `p ++ e`. -/
theorem append_ne_of_stripPrefix {p text : String} (h : stripPrefix p text = none) (e : String) :
    p ++ e ≠ text := by
  intro he
  have happ := stripPrefix_append p e
  rw [he, h] at happ
  cases happ

end Auxlry
