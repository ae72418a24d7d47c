import Auxlry.Proof.Memory

/-!
# What an update keeps

An update replaces the row of a memory by a new one, made from the arguments of the call.

* `updated_iff`: **the exact condition** for an update to change only the content and the
  embedding of a memory, and its type if one is given.
-/

namespace Auxlry

namespace Stores

variable {V : Type} {s s' : Stores V} {e : Env V} {id content : String} {memoryType : Option String}

/-- A row with other content, and of another type if there is one. -/
def revise (e : Env V) (content : String) (t : Option String) (row : MemoryRow V) : MemoryRow V :=
  { row with content := content, memoryType := t.getD row.memoryType, vector := e.vector }

/-- Only the content and the embedding of a memory have changed, and its type if one was given. -/
def Updated (s s' : Stores V) (e : Env V) (id content : String) (memoryType : Option String) : Prop :=
  ∃ t : Option String, (memoryType = none → t = none) ∧
    s'.memories = s.memories.map (fun row => if row.id = id then revise e content t row else row) ∧
    (∀ id', s'.metadata id' = if id' = id then (s.metadata id).map (fun md =>
      { md with memoryType := t.getD md.memoryType }) else s.metadata id') ∧
    s'.edges = s.edges

/-- There is one row with the id, it is as an update makes it, and where no type is given,
both stores have the type that the new content is classified as. -/
def RemadeAlike (s : Stores V) (e : Env V) (id content : String) (memoryType : Option String) : Prop :=
  ∃ row, s.memories.filter (·.id = id) = {row} ∧ row.source = "" ∧ row.createdAt = e.now ∧
    (memoryType = none → row.memoryType = (classifyHeuristic content).asStr ∧
      ∀ md, s.metadata id = some md → md.memoryType = (classifyHeuristic content).asStr)

/-- Replacing the rows of an id against changing them. -/
theorem replace_eq_map {row : MemoryRow V} {f : MemoryRow V → MemoryRow V} :
    ((s.removeRows id).addRow row).memories = s.memories.map (fun r => if r.id = id then f r else r) ↔
      ∃ old, s.memories.filter (·.id = id) = {old} ∧ f old = row := by
  have hsplit : s.memories.map (fun r => if r.id = id then f r else r) =
      (s.memories.filter (·.id = id)).map f + s.memories.filter (·.id ≠ id) := by
    conv_lhs => rw [← Multiset.filter_add_not (·.id = id) s.memories, Multiset.map_add]
    have hchanged : (s.memories.filter (·.id = id)).map (fun r => if r.id = id then f r else r) =
        (s.memories.filter (·.id = id)).map f :=
      Multiset.map_congr rfl fun r hr => if_pos (Multiset.mem_filter.1 hr).2
    have hkept : (s.memories.filter (¬ ·.id = id)).map (fun r => if r.id = id then f r else r) =
        s.memories.filter (·.id ≠ id) := by
      conv_rhs => rw [← Multiset.map_id (s.memories.filter (·.id ≠ id))]
      exact Multiset.map_congr rfl fun r hr => if_neg (Multiset.mem_filter.1 hr).2
    rw [hchanged, hkept]
  have hnew : ((s.removeRows id).addRow row).memories = {row} + s.memories.filter (·.id ≠ id) :=
    (Multiset.singleton_add _ _).symm
  rw [hsplit, hnew, Multiset.add_left_inj, eq_comm, Multiset.map_eq_singleton]

/-- An update writes its type into the metadata, and nothing else. -/
theorem update_metadata (s : Stores V) (e : Env V) (id content : String) (memoryType : Option String)
    (id' : String) : (s.success e (.toolUpdate id content memoryType)).metadata id' =
      if id' = id then (s.metadata id).map (fun md =>
        { md with memoryType := (chooseType memoryType content).asStr }) else s.metadata id' := by
  by_cases hid : id' = id
  · rw [if_pos hid, hid]
    exact setMetadata_self ..
  · rw [if_neg hid]
    exact setMetadata_ne hid

/-- **The exact condition** for a successful update to keep what it is not given. -/
theorem updated_iff (s : Stores V) (e : Env V) (id content : String) (memoryType : Option String)
    (h : (perform s e (.toolUpdate id content memoryType)).reply.isError = false) :
    s.Updated (perform s e (.toolUpdate id content memoryType)).stores e id content memoryType ↔
      s.RemadeAlike e id content memoryType := by
  rw [perform_success h]
  set t := chooseType memoryType content with ht
  have hclassified : memoryType = none → t = classifyHeuristic content := by
    intro hnone
    rw [ht, hnone]
    rfl
  have hmd : ∀ id', (s.success e (.toolUpdate id content memoryType)).metadata id' =
      if id' = id then (s.metadata id).map (fun md => { md with memoryType := t.asStr }) else s.metadata id' :=
    update_metadata s e id content memoryType
  constructor
  · rintro ⟨given, hnone, hrows, hmetadata, -⟩
    obtain ⟨old, hold, hrevise⟩ := replace_eq_map.1 hrows
    refine ⟨old, hold, congrArg MemoryRow.source hrevise, congrArg MemoryRow.createdAt hrevise, fun hn => ?_⟩
    -- the new row and the new metadata have the type of the new content
    rw [hnone hn] at hrevise hmetadata
    rw [← hclassified hn]
    refine ⟨congrArg MemoryRow.memoryType hrevise, fun md hstored => ?_⟩
    have hsame := (hmd id).symm.trans (hmetadata id)
    rw [if_pos rfl, if_pos rfl, hstored] at hsame
    exact (congrArg MetadataRow.memoryType (Option.some.inj hsame)).symm
  · rintro ⟨old, hold, hsource, hcreated, htypes⟩
    have hid : old.id = id := by
      have hmem : old ∈ s.memories.filter (·.id = id) := by
        rw [hold]
        exact Multiset.mem_singleton_self old
      exact (Multiset.mem_filter.1 hmem).2
    cases memoryType with
    | none =>
      obtain ⟨hrow, hstored⟩ := htypes rfl
      rw [← hclassified rfl] at hrow hstored
      refine ⟨none, fun _ => rfl, replace_eq_map.2 ⟨old, hold, ?_⟩, fun id' => ?_, rfl⟩
      · unfold revise newRow
        rw [hid, hsource, hcreated]
        exact congrArg (fun mt => (⟨id, content, "", mt, e.now, e.vector⟩ : MemoryRow V)) hrow
      · rw [hmd id']
        refine if_congr Iff.rfl ?_ rfl
        cases hsome : s.metadata id with
        | none => rfl
        | some md =>
          have hmt := hstored md hsome
          refine congrArg some ?_
          change ({ md with memoryType := t.asStr } : MetadataRow) = md
          rw [← hmt]
    | some x =>
      have hgiven : some x = none → some t.asStr = none := by
        intro habsent
        cases habsent
      refine ⟨some t.asStr, hgiven, replace_eq_map.2 ⟨old, hold, ?_⟩, hmd, rfl⟩
      unfold revise newRow
      rw [hid, hsource, hcreated]
      rfl

/-- A preference that an agent has noted. -/
def notedMemory : Stores ℕ :=
  ⟨{⟨"m", "the user prefers tabs", "user:alice", "preference", "2025-01-01T00:00:00+00:00", 1⟩},
    Function.update (fun _ => none) "m" (some ⟨"preference", 3, "2025-01-02 00:00:00", "2025-01-01 00:00:00"⟩), 0⟩

/-- The environment of an update on another day. -/
def otherDay : Env ℕ := ⟨"2025-02-01T00:00:00+00:00", 2, none⟩

/-- The condition at work. -/
theorem updated_iff_noted :
    notedMemory.Updated (perform notedMemory otherDay (.toolUpdate "m" "tabs" none)).stores otherDay "m" "tabs" none ↔
      notedMemory.RemadeAlike otherDay "m" "tabs" none :=
  updated_iff notedMemory otherDay "m" "tabs" none (by decide)

/-- **An update loses the source, the time of creation and the type of a memory.** -/
theorem update_remakes :
    (perform notedMemory otherDay (.toolUpdate "m" "tabs" none)).reply = .text "Updated memory m" ∧
      (perform notedMemory otherDay (.toolUpdate "m" "tabs" none)).stores.memories =
        {⟨"m", "tabs", "", "observation", "2025-02-01T00:00:00+00:00", 2⟩} ∧
      (perform notedMemory otherDay (.toolUpdate "m" "tabs" none)).stores.metadata "m" =
        some ⟨"observation", 3, "2025-01-02 00:00:00", "2025-01-01 00:00:00"⟩ ∧
      ¬ notedMemory.Updated (perform notedMemory otherDay (.toolUpdate "m" "tabs" none)).stores otherDay
        "m" "tabs" none := by
  have hrows : (perform notedMemory otherDay (.toolUpdate "m" "tabs" none)).stores.memories =
      {⟨"m", "tabs", "", "observation", "2025-02-01T00:00:00+00:00", 2⟩} := by decide
  refine ⟨by decide, hrows, by decide, ?_⟩
  rintro ⟨t, -, hmap, -⟩
  have hrow := Multiset.singleton_inj.1 (hrows.symm.trans hmap)
  have hsource : "" = "user:alice" := congrArg MemoryRow.source hrow
  exact absurd hsource (by decide)

end Stores

end Auxlry
