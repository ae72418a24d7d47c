import Auxlry.Spec.Filters

/-!
# An id selects its own rows

Ids are given by callers, and stand in the filters of the vector store.

* `selected_ids`: **a filter selects the rows of its ids**, whatever the ids are.
* `removeRows_add_selected`: what a deletion leaves is what its filter does not select.
-/

namespace Auxlry

variable {V : Type}

/-- The text that an id is put in as is a literal. -/
theorem quoted_replaceQuotes (id : String) : "'" ++ replaceQuotes id ++ "'" = Sql.quoted id := rfl

theorem parse_idFilter (id : String) : Sql.parse (idFilter id) = some [[.eq "id" id]] := by
  have htext : (idFilter id).toList = 'i' :: 'd' :: ' ' :: '=' :: ' ' :: (Sql.quoted id).toList := by
    rw [← quoted_replaceQuotes]
    unfold idFilter
    simp
  have htokens : Sql.tokens .outside (idFilter id).toList = some [.word "id", .equals, .literal id] := by
    rw [htext, Sql.tokens_skip rfl, Sql.tokens_skip rfl, Sql.tokens_cons rfl, Sql.tokens_cons rfl,
      Sql.tokens_skip rfl, Sql.tokens_quoted_end]
    rfl
  unfold Sql.parse
  rw [htokens]
  have hwords : ∀ k, Sql.isKeyword k (.word "id") = false →
      ∀ t ∈ [Sql.Token.word "id", .equals, .literal id], Sql.isKeyword k t = false := by
    intro k hid t ht
    simp only [List.mem_cons, List.not_mem_nil, or_false] at ht
    rcases ht with rfl | rfl | rfl
    · exact hid
    · rfl
    · rfl
  exact Sql.condition_of_atom rfl (hwords "OR" (by decide)) (hwords "AND" (by decide))

theorem parse_idsFilter (first : String) (rest : List String) :
    Sql.parse (idsFilter (first :: rest)) = some [[.isIn "id" (first :: rest)]] := by
  have htext : (idsFilter (first :: rest)).toList = 'i' :: 'd' :: ' ' :: 'I' :: 'N' :: ' ' :: '(' ::
      ((", ".intercalate ((first :: rest).map Sql.quoted)).toList ++ [')']) := by
    unfold idsFilter
    simp [quoted_replaceQuotes]
  have htokens : Sql.tokens .outside (idsFilter (first :: rest)).toList =
      some (.word "id" :: .word "IN" :: .opens :: Sql.listTokens first rest) := by
    rw [htext, Sql.tokens_skip rfl, Sql.tokens_skip rfl, Sql.tokens_cons rfl, Sql.tokens_skip rfl,
      Sql.tokens_skip rfl, Sql.tokens_cons rfl, Sql.tokens_cons rfl, Sql.tokens_list]
    rfl
  have hwords : ∀ k, Sql.isKeyword k (.word "id") = false → Sql.isKeyword k (.word "IN") = false →
      ∀ t ∈ .word "id" :: .word "IN" :: .opens :: Sql.listTokens first rest, Sql.isKeyword k t = false := by
    intro k hid hin t ht
    simp only [List.mem_cons] at ht
    rcases ht with rfl | rfl | rfl | ht
    · exact hid
    · exact hin
    · rfl
    · exact Sql.isKeyword_listTokens k first rest t ht
  unfold Sql.parse
  rw [htokens]
  exact Sql.condition_of_atom (Sql.atom_isIn (by decide) ..) (hwords "OR" (by decide) (by decide))
    (hwords "AND" (by decide) (by decide))

theorem selected_idFilter (id : String) (rows : Multiset (MemoryRow V)) :
    selected (idFilter id) rows = some (rows.filter (·.id = id)) := by
  unfold selected
  rw [parse_idFilter, Option.map_some]
  refine congrArg some (Multiset.filter_congr fun row _ => ?_)
  simp [Sql.Condition.holds, Sql.Atom.holds, MemoryRow.column]

theorem selected_idsFilter (first : String) (rest : List String) (rows : Multiset (MemoryRow V)) :
    selected (idsFilter (first :: rest)) rows = some (rows.filter (·.id ∈ first :: rest)) := by
  unfold selected
  rw [parse_idsFilter, Option.map_some]
  refine congrArg some (Multiset.filter_congr fun row _ => ?_)
  simp [Sql.Condition.holds, Sql.Atom.holds, MemoryRow.column]

/-- **A filter selects exactly the rows of its ids**, with whatever characters these have. -/
theorem selected_ids (id first : String) (rest : List String) (rows : Multiset (MemoryRow V)) :
    selected (idFilter id) rows = some (rows.filter (·.id = id)) ∧
      selected (idsFilter (first :: rest)) rows = some (rows.filter (·.id ∈ first :: rest)) :=
  ⟨selected_idFilter id rows, selected_idsFilter first rest rows⟩

/-- A deletion removes what its filter selects, and nothing else. -/
theorem removeRows_add_selected (s : Stores V) (id : String) :
    ∃ rows, selected (idFilter id) s.memories = some rows ∧ (s.removeRows id).memories + rows = s.memories := by
  refine ⟨_, selected_idFilter id s.memories, ?_⟩
  rw [Multiset.add_comm]
  exact Multiset.filter_add_not _ _

end Auxlry
