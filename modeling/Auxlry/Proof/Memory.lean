import Auxlry.Spec.Memory
import Auxlry.Sys.Run

/-!
# The two stores of a memory

A memory should have a row in both stores, with the same type (`Consistent`), and an
operation that fails should leave both as they were (`Atomic`). The operations write to
one store after the other and do not look at what is there.

* `perform_success`: what a successful call does.
* `consistent_iff`: **the exact condition** for the stores to stay consistent.
* `atomic_iff`: **the exact condition** for a failed call to have no effect.
-/

namespace Auxlry

namespace Stores

variable {V : Type} {s s' : Stores V} {e : Env V} {p : SubStep} {text : String} {id content : String}
  {source : Option String} {t : MemoryType}

/-! ## Sub-steps -/

theorem attempt_ok {context : Option String} {next : Stores V}
    (h : attempt e p context s next = (s', .ok ())) : s' = next ∧ ¬ e.failsAt p := by
  unfold attempt at h
  unfold Env.failsAt
  split at h
  · rename_i q text hf
    split at h
    · cases h
    · rename_i hq
      cases h
      exact ⟨rfl, by simp [hf, hq]⟩
  · rename_i hf
    cases h
    exact ⟨rfl, by simp [hf]⟩

theorem attempt_succeeds {context : Option String} {next : Stores V} (h : ¬ e.failsAt p) :
    attempt e p context s next = (next, .ok ()) := by
  unfold attempt
  split
  · rename_i q text hf
    have hq : q ≠ p := by
      intro hq
      exact h (by unfold Env.failsAt; rw [hf, hq]; rfl)
    rw [if_neg hq]
  · rfl

theorem attempt_fails {context : Option String} {next : Stores V} (h : e.failsAt p) :
    ∃ text, attempt e p context s next = (s, .error text) := by
  unfold Env.failsAt at h
  obtain ⟨⟨q, text⟩, hf, hq⟩ := Option.map_eq_some_iff.1 h
  unfold attempt
  rw [hf]
  exact ⟨context.getD text, if_pos hq⟩

theorem andThen_ok {r : Stores V × Except String Unit} {f : Stores V → Stores V × Except String Unit}
    (h : andThen r f = (s', .ok ())) : ∃ s₁, r = (s₁, .ok ()) ∧ f s₁ = (s', .ok ()) := by
  obtain ⟨s₁, r⟩ := r
  cases r with
  | error text => cases h
  | ok u => exact ⟨s₁, rfl, h⟩

/-! ## What a call that succeeds does -/

theorem store_ok (h : s.store e id content source t = (s', .ok ())) :
    s' = s.addRow (newRow e id content source t) := by
  unfold store at h
  obtain ⟨s₁, h₁, h⟩ := andThen_ok h
  obtain ⟨s₂, h₂, h⟩ := andThen_ok h
  obtain ⟨s₃, h₃, h⟩ := andThen_ok h
  have e₁ := (attempt_ok h₁).1
  have e₂ := (attempt_ok h₂).1
  have e₃ := (attempt_ok h₃).1
  rw [(attempt_ok h).1, e₃, e₂, e₁]

theorem deleteRows_ok {context : String} (h : s.deleteRows e id context = (s', .ok ())) :
    s' = s.removeRows id := by
  unfold deleteRows at h
  obtain ⟨s₁, h₁, h⟩ := andThen_ok h
  rw [(attempt_ok h).1, (attempt_ok h₁).1]

/-- The stores after a call that succeeds. -/
def success (s : Stores V) (e : Env V) : MemoryOp → Stores V
  | .toolStore id content memoryType source =>
    let t := chooseType memoryType content
    (s.addRow (newRow e id content source t)).setMetadata id
      (some ((s.metadata id).getD ⟨t.asStr, 0, e.now, e.now⟩))
  | .httpStore id content memoryType source =>
    let t := chooseType memoryType content
    if e.failsAt .initMetadata then s.addRow (newRow e id content source t)
    else (s.addRow (newRow e id content source t)).setMetadata id
      (some ((s.metadata id).getD ⟨t.asStr, 0, e.now, e.now⟩))
  | .toolUpdate id content memoryType =>
    let t := chooseType memoryType content
    ((s.removeRows id).addRow (newRow e id content none t)).setMetadata id
      ((s.metadata id).map ({ · with memoryType := t.asStr }))
  | .toolDelete id => ((s.removeRows id).removeEdges id).setMetadata id none

theorem toolOutcome_ok {r : Stores V × Except String Unit} {message : String}
    {published : Option (String × String)}
    (h : (toolOutcome r message published).reply.isError = false) :
    r = ((toolOutcome r message published).stores, .ok ()) := by
  obtain ⟨s₁, r⟩ := r
  cases r with
  | error text => cases h
  | ok u => rfl

theorem perform_success {op : MemoryOp} (h : (perform s e op).reply.isError = false) :
    (perform s e op).stores = s.success e op := by
  cases op with
  | toolStore id content memoryType source =>
    have hok := toolOutcome_ok h
    obtain ⟨s₁, h₁, h₂⟩ := andThen_ok hok
    have e₁ := store_ok h₁
    have e₂ := (attempt_ok h₂).1
    rw [e₁] at e₂
    exact e₂
  | httpStore id content memoryType source =>
    unfold perform at h ⊢
    dsimp only at h ⊢
    split at h
    · rename_i s₁ h₁
      obtain ⟨s₀, h₀, h₁⟩ := andThen_ok h₁
      have e₀ := (attempt_ok h₀).1
      have e₁ := store_ok h₁
      subst e₀ e₁
      unfold success initMemoryMetadata
      dsimp only
      split
      · rename_i hf
        obtain ⟨text, ht⟩ := attempt_fails hf
        rw [ht]
      · rename_i hf
        rw [attempt_succeeds hf]; rfl
    · cases h
  | toolUpdate id content memoryType =>
    have hok := toolOutcome_ok h
    obtain ⟨s₁, h₁, h₂⟩ := andThen_ok hok
    obtain ⟨s₀, h₀, h₁⟩ := andThen_ok h₁
    have e₀ := deleteRows_ok h₀
    have e₁ := store_ok h₁
    have e₂ := (attempt_ok h₂).1
    rw [e₁, e₀] at e₂
    exact e₂
  | toolDelete id =>
    have hok := toolOutcome_ok h
    obtain ⟨s₁, h₁, h₂⟩ := andThen_ok hok
    obtain ⟨s₂, h₂, h₃⟩ := andThen_ok h₂
    have e₁ := deleteRows_ok h₁
    have e₂ := (attempt_ok h₂).1
    have e₃ := (attempt_ok h₃).1
    rw [e₂, e₁] at e₃
    exact e₃

/-! ## Rows of one id -/

/-- Both stores have a row for the id, or neither has, and the types agree. -/
def ConsistentAt (s : Stores V) (id : String) : Prop :=
  ((∃ row ∈ s.memories, row.id = id) ↔ (s.metadata id).isSome) ∧
    ∀ row ∈ s.memories, row.id = id → ∀ md, s.metadata id = some md → md.memoryType = row.memoryType

def Consistent (s : Stores V) : Prop := ∀ id, s.ConsistentAt id

theorem mem_addRow {row r : MemoryRow V} : r ∈ (s.addRow row).memories ↔ r = row ∨ r ∈ s.memories :=
  Multiset.mem_cons

/-- The id of a new row has a row. -/
theorem exists_addRow {row : MemoryRow V} (hid : row.id = id) : ∃ r ∈ (s.addRow row).memories, r.id = id :=
  ⟨row, mem_addRow.2 (.inl rfl), hid⟩

theorem mem_removeRows {r : MemoryRow V} : r ∈ (s.removeRows id).memories ↔ r ∈ s.memories ∧ r.id ≠ id := by
  unfold removeRows; simp

theorem setMetadata_self (s : Stores V) (id : String) (row : Option MetadataRow) :
    (s.setMetadata id row).metadata id = row := Function.update_self ..

theorem setMetadata_ne {id' : String} {row : Option MetadataRow} (h : id' ≠ id) :
    (s.setMetadata id row).metadata id' = s.metadata id' := Function.update_of_ne h ..

/-- A call leaves the rows of other ids alone. -/
theorem success_other {op : MemoryOp} {id' : String} (h : id' ≠ op.id) :
    (∀ r : MemoryRow V, r.id = id' → (r ∈ (s.success e op).memories ↔ r ∈ s.memories)) ∧
      (s.success e op).metadata id' = s.metadata id' := by
  -- a new row has the id of the call
  have hnew : ∀ {content source t} {s₁ : Stores V} {r : MemoryRow V}, r.id = id' →
      (r ∈ (s₁.addRow (newRow e op.id content source t)).memories ↔ r ∈ s₁.memories) := by
    intro content source t s₁ r hr
    rw [mem_addRow, or_iff_right]
    rintro rfl
    exact h hr.symm
  have hold : ∀ {r : MemoryRow V}, r.id = id' → (r ∈ (s.removeRows op.id).memories ↔ r ∈ s.memories) := by
    intro r hr
    rw [mem_removeRows, and_iff_left]
    rw [hr]; exact h
  cases op with
  | toolStore id content memoryType source => exact ⟨fun r hr => hnew hr, setMetadata_ne h⟩
  | httpStore id content memoryType source =>
    unfold success
    dsimp only
    split
    · exact ⟨fun r hr => hnew hr, rfl⟩
    · exact ⟨fun r hr => hnew hr, setMetadata_ne h⟩
  | toolUpdate id content memoryType =>
    exact ⟨fun r hr => (hnew hr).trans (hold hr), setMetadata_ne h⟩
  | toolDelete id => exact ⟨fun r hr => hold hr, setMetadata_ne h⟩

theorem consistentAt_other {op : MemoryOp} {id' : String} (h : id' ≠ op.id) :
    (s.success e op).ConsistentAt id' ↔ s.ConsistentAt id' := by
  obtain ⟨hrows, hmd⟩ := success_other (s := s) (e := e) h
  have hex : (∃ row ∈ (s.success e op).memories, row.id = id') ↔ ∃ row ∈ s.memories, row.id = id' :=
    exists_congr fun row => ⟨fun ⟨hm, hi⟩ => ⟨(hrows row hi).1 hm, hi⟩,
      fun ⟨hm, hi⟩ => ⟨(hrows row hi).2 hm, hi⟩⟩
  unfold ConsistentAt
  rw [hmd, hex]
  refine and_congr_right fun _ => forall_congr' fun row => ?_
  constructor
  · intro hall hm hi
    exact hall ((hrows row hi).2 hm) hi
  · intro hall hm hi
    exact hall ((hrows row hi).1 hm) hi

/-! ## Staying consistent -/

/-- What a call that succeeds has to meet: an id generated for a store is new, or has the
same type already, and the metadata of the new memory is written; an update is of an id
that has a row. -/
def KeepsConsistent (s : Stores V) (c : MemoryOp × Env V) : Prop :=
  match c.1 with
  | .toolStore id content memoryType _ =>
    ∀ md, s.metadata id = some md → md.memoryType = (chooseType memoryType content).asStr
  | .httpStore id content memoryType _ =>
    (c.2.failsAt .initMetadata → (s.metadata id).isSome) ∧
      ∀ md, s.metadata id = some md → md.memoryType = (chooseType memoryType content).asStr
  | .toolUpdate id _ _ => (s.metadata id).isSome
  | .toolDelete _ => True

/-- A row added to a consistent store, with a metadata row made for it if there is none. -/
theorem consistentAt_add {row : MemoryRow V} {md₀ : MetadataRow} (hP : s.ConsistentAt id)
    (hid : row.id = id) (ht : md₀.memoryType = row.memoryType) :
    ((s.addRow row).setMetadata id (some ((s.metadata id).getD md₀))).ConsistentAt id ↔
      ∀ md, s.metadata id = some md → md.memoryType = row.memoryType := by
  unfold ConsistentAt
  rw [setMetadata_self]
  have hex : ∃ r ∈ (s.addRow row).memories, r.id = id := exists_addRow hid
  constructor
  · intro hall md hmd
    have := hall.2 row (mem_addRow.2 (.inl rfl)) hid _ rfl
    rwa [hmd] at this
  · intro hall
    refine ⟨⟨fun _ => rfl, fun _ => hex⟩, ?_⟩
    intro r hr hi md hmd
    obtain rfl := Option.some.inj hmd
    cases h : s.metadata id with
    | none =>
      -- no older row has the id
      rcases mem_addRow.1 hr with rfl | hr
      · exact ht
      · have := hP.1.1 ⟨r, hr, hi⟩
        rw [h] at this; cases this
    | some md =>
      rcases mem_addRow.1 hr with rfl | hr
      · exact hall md h
      · exact hP.2 r hr hi md h

/-- A row added without metadata. -/
theorem consistentAt_addRow {row : MemoryRow V} (hP : s.ConsistentAt id) (hid : row.id = id) :
    (s.addRow row).ConsistentAt id ↔
      (s.metadata id).isSome ∧ ∀ md, s.metadata id = some md → md.memoryType = row.memoryType := by
  have hex : ∃ r ∈ (s.addRow row).memories, r.id = id := exists_addRow hid
  constructor
  · intro hall
    exact ⟨hall.1.1 hex, hall.2 row (mem_addRow.2 (.inl rfl)) hid⟩
  · rintro ⟨hsome, hall⟩
    refine ⟨⟨fun _ => hsome, fun _ => hex⟩, ?_⟩
    intro r hr hi md hmd
    rcases mem_addRow.1 hr with rfl | hr
    · exact hall md hmd
    · exact hP.2 r hr hi md hmd

/-- From consistent stores, a call leads to consistent ones exactly when it keeps to the
condition. -/
theorem consistent_step {c : MemoryOp × Env V} (hP : s.Consistent) :
    (s.success c.2 c.1).Consistent ↔ s.KeepsConsistent c := by
  obtain ⟨op, e⟩ := c
  -- only the id of the call matters
  have hone : (s.success e op).Consistent ↔ (s.success e op).ConsistentAt op.id := by
    constructor
    · intro h
      exact h op.id
    · intro h id'
      by_cases hid : id' = op.id
      · exact hid ▸ h
      · exact (consistentAt_other hid).2 (hP id')
  rw [hone]
  cases op with
  | toolStore id content memoryType source => exact consistentAt_add (hP id) rfl rfl
  | httpStore id content memoryType source =>
    unfold success KeepsConsistent
    dsimp only
    split
    · rename_i hf
      rw [imp_iff_right hf]
      exact consistentAt_addRow (hP id) rfl
    · rename_i hf
      rw [and_iff_right fun h => absurd h hf]
      exact consistentAt_add (hP id) rfl rfl
  | toolUpdate id content memoryType =>
    unfold success KeepsConsistent ConsistentAt MemoryOp.id
    dsimp only
    rw [setMetadata_self]
    have hex : ∃ r ∈ ((s.removeRows id).addRow
        (newRow e id content none (chooseType memoryType content))).memories, r.id = id := exists_addRow rfl
    constructor
    · intro hall
      have := hall.1.1 hex
      rwa [Option.isSome_map] at this
    · intro hsome
      refine ⟨⟨fun _ => by rwa [Option.isSome_map], fun _ => hex⟩, ?_⟩
      intro r hr hi md hmd
      obtain ⟨md', -, rfl⟩ := Option.map_eq_some_iff.1 hmd
      rcases mem_addRow.1 hr with rfl | hr
      · rfl
      · exact absurd hi (mem_removeRows.1 hr).2
  | toolDelete id =>
    refine ⟨fun _ => trivial, fun _ => ⟨⟨?_, ?_⟩, ?_⟩⟩
    · rintro ⟨r, hr, hi⟩
      exact absurd hi (mem_removeRows.1 hr).2
    · intro h
      rw [show (s.success e (.toolDelete id)).metadata (MemoryOp.toolDelete id).id = none from
        setMetadata_self ..] at h
      cases h
    · intro r hr hi
      exact absurd hi (mem_removeRows.1 hr).2

/-- A call that succeeds. -/
def step (s : Stores V) (c : MemoryOp × Env V) : Option (Stores V) :=
  if (perform s c.2 c.1).reply.isError then none else some (perform s c.2 c.1).stores

def empty : Stores V := ⟨0, fun _ => none, 0⟩

/-- **The exact condition** for the stores to stay consistent through a run of successful calls. -/
theorem consistent_iff (cs : List (MemoryOp × Env V)) :
    (∀ t, Sys.Visits step (empty : Stores V) cs t → t.Consistent) ↔
      ∀ t c, Sys.Takes step (empty : Stores V) cs t c → t.KeepsConsistent c := by
  have hstep : ∀ (t : Stores V) c t', True → t.Consistent → step t c = some t' →
      (t'.Consistent ↔ t.KeepsConsistent c) := by
    intro t c t' _ hP h
    unfold step at h
    split at h
    · cases h
    · rename_i hr
      obtain rfl := Option.some.inj h
      rw [perform_success (by simpa using hr)]
      exact consistent_step hP
  have hempty : (empty : Stores V).Consistent := by
    intro id
    refine ⟨⟨?_, nofun⟩, ?_⟩
    · rintro ⟨r, hr, -⟩
      exact absurd hr (Multiset.notMem_zero r)
    · intro r hr
      exact absurd hr (Multiset.notMem_zero r)
  exact Sys.visits_iff_takes (fun _ _ _ _ _ _ _ => trivial) hstep cs trivial hempty

/-- An embedding of no interest, and nothing that fails. -/
def calm : Env ℕ := ⟨"t", 0, none⟩

/-- **An update of an unknown id** succeeds, and makes a row without metadata. -/
theorem update_unknown :
    (perform (empty : Stores ℕ) calm (.toolUpdate "x" "c" none)).reply = .text "Updated memory x" ∧
      ∃ t, Sys.run step (empty : Stores ℕ) [(.toolUpdate "x" "c" none, calm)] = some t ∧
        (∃ row ∈ t.memories, row.id = "x") ∧ t.metadata "x" = none ∧ ¬ t.Consistent := by
  have hrun : Sys.run step (empty : Stores ℕ) [(.toolUpdate "x" "c" none, calm)] =
      some (success empty calm (.toolUpdate "x" "c" none)) := rfl
  have hrows : (success (empty : Stores ℕ) calm (.toolUpdate "x" "c" none)).memories =
      {newRow calm "x" "c" none (chooseType none "c")} := rfl
  have hrow : ∃ row ∈ (success (empty : Stores ℕ) calm (.toolUpdate "x" "c" none)).memories, row.id = "x" :=
    ⟨_, hrows ▸ Multiset.mem_singleton_self _, rfl⟩
  refine ⟨rfl, _, hrun, hrow, rfl, fun h => ?_⟩
  have := (h "x").1.1 hrow
  cases this

/-! ## Failing -/

/-- The places where a store in the vector table may fail. -/
def storeSteps : List SubStep := [.embed, .recordBatch, .openForAdd, .addRow]

/-- The places where a deletion from the vector table may fail. -/
def deleteSteps : List SubStep := [.openForDelete, .deleteRows]

/-- The places where a call may fail. -/
def subSteps : MemoryOp → List SubStep
  | .toolStore .. => storeSteps ++ [.initMetadata]
  | .httpStore .. => .available :: (storeSteps ++ [.initMetadata])
  | .toolUpdate .. => deleteSteps ++ storeSteps ++ [.updateType]
  | .toolDelete .. => deleteSteps ++ [.deleteEdges, .deleteMetadata]

/-- The call reports an error, and the stores are as they were. -/
def Atomic (s : Stores V) (e : Env V) (op : MemoryOp) : Prop :=
  (perform s e op).reply.isError = true ∧ (perform s e op).stores = s

/-- A failure before the first write that changes anything, or after writes that happen to
change nothing: an update or a deletion of an id without rows, a deletion without edges,
an update that puts back the only row as it was. -/
def Harmless (s : Stores V) (e : Env V) : MemoryOp → SubStep → Prop
  | .toolStore .., .initMetadata | .httpStore .., .initMetadata => False
  | .toolUpdate id .., .embed | .toolUpdate id .., .recordBatch | .toolUpdate id .., .openForAdd
  | .toolUpdate id .., .addRow | .toolDelete id, .deleteEdges => ∀ row ∈ s.memories, row.id ≠ id
  | .toolUpdate id content memoryType, .updateType =>
    s.memories.filter (·.id = id) = {newRow e id content none (chooseType memoryType content)}
  | .toolDelete id, .deleteMetadata => (∀ row ∈ s.memories, row.id ≠ id) ∧
    ∀ edge ∈ s.edges, ¬ (edge.sourceId = id ∨ edge.targetId = id)
  | _, _ => True

theorem not_failsAt {q : SubStep} (h : e.failsAt p) (hne : q ≠ p) : ¬ e.failsAt q := by
  unfold Env.failsAt at h ⊢
  rw [h]
  intro hq
  exact hne (Option.some.inj hq).symm

theorem andThen_error {r : Stores V × Except String Unit} (f : Stores V → Stores V × Except String Unit)
    (h : r = (s, .error text)) : andThen r f = (s, .error text) := by rw [h]; rfl

theorem andThen_success {r : Stores V × Except String Unit}
    (f : Stores V → Stores V × Except String Unit) (h : r = (s, .ok ())) : andThen r f = f s := by rw [h]; rfl

/-- A failed store changes nothing. -/
theorem store_fails (h : e.failsAt p) (hp : p ∈ storeSteps) (s : Stores V) (id content : String)
    (source : Option String) (t : MemoryType) :
    ∃ text, s.store e id content source t = (s, .error text) := by
  unfold store
  by_cases h₁ : e.failsAt .embed
  · obtain ⟨text, ht⟩ := attempt_fails h₁
    exact ⟨text, andThen_error _ ht⟩
  rw [andThen_success _ (attempt_succeeds h₁)]
  by_cases h₂ : e.failsAt .recordBatch
  · obtain ⟨text, ht⟩ := attempt_fails h₂
    exact ⟨text, andThen_error _ ht⟩
  rw [andThen_success _ (attempt_succeeds h₂)]
  by_cases h₃ : e.failsAt .openForAdd
  · obtain ⟨text, ht⟩ := attempt_fails h₃
    exact ⟨text, andThen_error _ ht⟩
  rw [andThen_success _ (attempt_succeeds h₃)]
  have h₄ : e.failsAt .addRow := by
    simp only [storeSteps, List.mem_cons, List.not_mem_nil, or_false] at hp
    rcases hp with rfl | rfl | rfl | rfl
    · exact absurd h h₁
    · exact absurd h h₂
    · exact absurd h h₃
    · exact h
  exact attempt_fails h₄

theorem store_succeeds (h : ∀ p ∈ storeSteps, ¬ e.failsAt p) (s : Stores V) (id content : String)
    (source : Option String) (t : MemoryType) :
    s.store e id content source t = (s.addRow (newRow e id content source t), .ok ()) := by
  unfold store
  rw [andThen_success _ (attempt_succeeds (h .embed (by decide))),
    andThen_success _ (attempt_succeeds (h .recordBatch (by decide))),
    andThen_success _ (attempt_succeeds (h .openForAdd (by decide)))]
  exact attempt_succeeds (h .addRow (by decide))

theorem deleteRows_fails (h : e.failsAt p) (hp : p ∈ deleteSteps) (s : Stores V) (id context : String) :
    ∃ text, s.deleteRows e id context = (s, .error text) := by
  unfold deleteRows
  by_cases h₁ : e.failsAt .openForDelete
  · obtain ⟨text, ht⟩ := attempt_fails h₁
    exact ⟨text, andThen_error _ ht⟩
  rw [andThen_success _ (attempt_succeeds h₁)]
  have h₂ : e.failsAt .deleteRows := by
    simp only [deleteSteps, List.mem_cons, List.not_mem_nil, or_false] at hp
    rcases hp with rfl | rfl
    · exact absurd h h₁
    · exact h
  exact attempt_fails h₂

theorem deleteRows_succeeds (h : ∀ p ∈ deleteSteps, ¬ e.failsAt p) (s : Stores V) (id context : String) :
    s.deleteRows e id context = (s.removeRows id, .ok ()) := by
  unfold deleteRows
  rw [andThen_success _ (attempt_succeeds (h .openForDelete (by decide)))]
  exact attempt_succeeds (h .deleteRows (by decide))

/-! ## When a write changes nothing -/

theorem addRow_ne (s : Stores V) (row : MemoryRow V) : s.addRow row ≠ s := by
  intro h
  have hcard : (s.addRow row).memories.card = s.memories.card := congrArg (fun s => s.memories.card) h
  unfold addRow at hcard
  rw [Multiset.card_cons] at hcard
  omega

theorem removeRows_eq_self : s.removeRows id = s ↔ ∀ row ∈ s.memories, row.id ≠ id := by
  unfold removeRows
  constructor
  · intro h
    exact Multiset.filter_eq_self.1 (congrArg Stores.memories h)
  · intro h
    rw [Multiset.filter_eq_self.2 h]

theorem replace_eq_self {row : MemoryRow V} :
    (s.removeRows id).addRow row = s ↔ s.memories.filter (·.id = id) = {row} := by
  have hsplit : s.memories.filter (·.id = id) + s.memories.filter (·.id ≠ id) = s.memories :=
    Multiset.filter_add_not _ _
  have hmem : (s.removeRows id).addRow row = s ↔ row ::ₘ s.memories.filter (·.id ≠ id) = s.memories := by
    unfold removeRows addRow
    constructor
    · intro h
      exact congrArg Stores.memories h
    · intro h
      rw [h]
  rw [hmem, ← Multiset.singleton_add]
  constructor
  · intro h
    exact (Multiset.add_left_inj.1 (h.trans hsplit.symm)).symm
  · intro h
    rw [← h, hsplit]

theorem removeEdges_eq_self : (s.removeRows id).removeEdges id = s ↔
    (∀ row ∈ s.memories, row.id ≠ id) ∧ ∀ edge ∈ s.edges, ¬ (edge.sourceId = id ∨ edge.targetId = id) := by
  unfold removeEdges
  constructor
  · intro h
    exact ⟨Multiset.filter_eq_self.1 (congrArg Stores.memories h),
      Multiset.filter_eq_self.1 (congrArg Stores.edges h)⟩
  · rintro ⟨hrows, hedges⟩
    rw [removeRows_eq_self.2 hrows, Multiset.filter_eq_self.2 hedges]

theorem toolOutcome_error {r : Stores V × Except String Unit} {message : String}
    {published : Option (String × String)} (h : r = (s', .error text)) :
    toolOutcome r message published = ⟨s', .toolError text, none⟩ := by rw [h]; rfl

/-- A call of a tool that fails with the stores it left. -/
theorem atomic_toolOutcome {op : MemoryOp} {message : String} {published : Option (String × String)}
    {r : Stores V × Except String Unit} (hperf : perform s e op = toolOutcome r message published)
    (hr : r = (s', .error text)) : s.Atomic e op ↔ s' = s := by
  unfold Atomic
  rw [hperf, toolOutcome_error hr]
  exact and_iff_right rfl

theorem mem_storeSteps : p ∈ storeSteps ↔ p = .embed ∨ p = .recordBatch ∨ p = .openForAdd ∨ p = .addRow := by
  simp [storeSteps]

theorem mem_deleteSteps : p ∈ deleteSteps ↔ p = .openForDelete ∨ p = .deleteRows := by
  simp [deleteSteps]

/-- Only one sub-step fails. -/
theorem others_succeed {ps : List SubStep} (h : e.failsAt p) (hnot : p ∉ ps) : ∀ q ∈ ps, ¬ e.failsAt q := by
  intro q hq
  refine not_failsAt h ?_
  rintro rfl
  exact hnot hq

theorem atomic_toolStore {memoryType : Option String} (h : e.failsAt p)
    (hp : p ∈ storeSteps ++ [.initMetadata]) : s.Atomic e (.toolStore id content memoryType source) ↔
      s.Harmless e (.toolStore id content memoryType source) p := by
  set t := chooseType memoryType content with ht
  rcases List.mem_append.1 hp with hs | hs
  · obtain ⟨text, hst⟩ := store_fails h hs s id content source t
    rw [atomic_toolOutcome rfl (andThen_error _ hst)]
    rcases mem_storeSteps.1 hs with rfl | rfl | rfl | rfl <;> exact iff_of_true rfl trivial
  · -- the row is there, its metadata is not
    obtain rfl := List.mem_singleton.1 hs
    have hst := store_succeeds (others_succeed h (by decide)) s id content source t
    obtain ⟨text, hmd⟩ : ∃ text, (s.addRow (newRow e id content source t)).initMemoryMetadata e id t =
        (_, .error text) := attempt_fails h
    have hr := (andThen_success (fun s => s.initMemoryMetadata e id t) hst).trans hmd
    rw [atomic_toolOutcome rfl hr]
    exact iff_of_false (addRow_ne _ _) not_false

theorem atomic_httpStore {memoryType : Option String} (h : e.failsAt p)
    (hp : p ∈ .available :: (storeSteps ++ [.initMetadata])) :
    s.Atomic e (.httpStore id content memoryType source) ↔
      s.Harmless e (.httpStore id content memoryType source) p := by
  set t := chooseType memoryType content with ht
  -- what was refused before the second write
  have hrefused : ∀ text, (andThen (attempt e .available (some "memory store not available") s s) fun s =>
      s.store e id content source t) = (s, .error text) → s.Atomic e (.httpStore id content memoryType source) := by
    intro text hr
    unfold Atomic perform
    dsimp only
    rw [← ht, hr]
    exact ⟨rfl, rfl⟩
  rcases List.mem_cons.1 hp with rfl | hp
  · obtain ⟨text, hr⟩ := attempt_fails h
    exact iff_of_true (hrefused text (andThen_error _ hr)) trivial
  have hthere : ¬ e.failsAt .available := by
    refine not_failsAt h ?_
    rintro rfl
    revert hp; decide
  rcases List.mem_append.1 hp with hs | hs
  · obtain ⟨text, hst⟩ := store_fails h hs s id content source t
    have hat := hrefused text ((andThen_success _ (attempt_succeeds hthere)).trans hst)
    rcases mem_storeSteps.1 hs with rfl | rfl | rfl | rfl <;> exact iff_of_true hat trivial
  · -- the failure is not reported
    obtain rfl := List.mem_singleton.1 hs
    have hst := store_succeeds (others_succeed h (by decide)) s id content source t
    have hreply : (perform s e (.httpStore id content memoryType source)).reply.isError = false := by
      unfold perform
      dsimp only
      rw [← ht, andThen_success _ (attempt_succeeds hthere), hst]; rfl
    refine iff_of_false (fun hat => ?_) not_false
    rw [hat.1] at hreply; cases hreply

theorem atomic_toolUpdate {memoryType : Option String} (h : e.failsAt p)
    (hp : p ∈ deleteSteps ++ storeSteps ++ [.updateType]) : s.Atomic e (.toolUpdate id content memoryType) ↔
      s.Harmless e (.toolUpdate id content memoryType) p := by
  set t := chooseType memoryType content with ht
  rcases List.mem_append.1 hp with hp | hs
  · rcases List.mem_append.1 hp with hs | hs
    · obtain ⟨text, hdel⟩ := deleteRows_fails h hs s id "failed to delete old memory for update"
      rw [atomic_toolOutcome rfl (andThen_error _ (andThen_error _ hdel))]
      rcases mem_deleteSteps.1 hs with rfl | rfl <;> exact iff_of_true rfl trivial
    · -- the old rows are gone, the new one is not there
      have hnot : p ∉ deleteSteps := by
        intro hd
        rcases mem_deleteSteps.1 hd with rfl | rfl <;> simp [storeSteps] at hs
      have hdel := deleteRows_succeeds (others_succeed h hnot) s id "failed to delete old memory for update"
      obtain ⟨text, hst⟩ := store_fails h hs (s.removeRows id) id content none t
      rw [atomic_toolOutcome rfl (andThen_error _ ((andThen_success _ hdel).trans hst)), removeRows_eq_self]
      rcases mem_storeSteps.1 hs with rfl | rfl | rfl | rfl <;> exact Iff.rfl
  · -- the new row is there, the type in the metadata is the old one
    obtain rfl := List.mem_singleton.1 hs
    have hdel := deleteRows_succeeds (others_succeed h (by decide)) s id
      "failed to delete old memory for update"
    have hst := store_succeeds (others_succeed h (by decide)) (s.removeRows id) id content none t
    have hup : s.update e id content none t = _ := (andThen_success _ hdel).trans hst
    obtain ⟨text, hmd⟩ : ∃ text, ((s.removeRows id).addRow (newRow e id content none t)).updateMemoryType e
        id t = (_, .error text) := attempt_fails h
    have hr := (andThen_success (fun s => s.updateMemoryType e id t) hup).trans hmd
    rw [atomic_toolOutcome rfl hr]
    exact replace_eq_self

theorem atomic_toolDelete (h : e.failsAt p) (hp : p ∈ deleteSteps ++ [.deleteEdges, .deleteMetadata]) :
    s.Atomic e (.toolDelete id) ↔ s.Harmless e (.toolDelete id) p := by
  rcases List.mem_append.1 hp with hs | hs
  · obtain ⟨text, hdel⟩ := deleteRows_fails h hs s id "failed to delete memory"
    rw [atomic_toolOutcome rfl (andThen_error _ hdel)]
    rcases mem_deleteSteps.1 hs with rfl | rfl <;> exact iff_of_true rfl trivial
  · have hnot : p ∉ deleteSteps := by
      intro hd
      rcases mem_deleteSteps.1 hd with rfl | rfl <;> simp at hs
    have hdel := deleteRows_succeeds (others_succeed h hnot) s id "failed to delete memory"
    rcases List.mem_cons.1 hs with rfl | hs
    · -- the rows are gone, the edges are not
      obtain ⟨text, hed⟩ := attempt_fails h
      rw [atomic_toolOutcome rfl ((andThen_success _ hdel).trans (andThen_error _ hed))]
      exact removeRows_eq_self
    · -- only the metadata is left
      obtain rfl := List.mem_singleton.1 hs
      have hedges : (s.removeRows id).deleteEdgesFor e id = ((s.removeRows id).removeEdges id, .ok ()) :=
        attempt_succeeds (not_failsAt h (by decide))
      obtain ⟨text, hmd⟩ : ∃ text, ((s.removeRows id).removeEdges id).deleteMemoryMetadata e id =
          (_, .error text) := attempt_fails h
      have hrest := (andThen_success (fun s => s.deleteMemoryMetadata e id) hedges).trans hmd
      rw [atomic_toolOutcome rfl ((andThen_success _ hdel).trans hrest)]
      exact removeEdges_eq_self

/-- **The exact condition** for a call that fails to report it and to have no effect. -/
theorem atomic_iff {op : MemoryOp} (h : e.failsAt p) (hp : p ∈ subSteps op) :
    s.Atomic e op ↔ s.Harmless e op p := by
  cases op with
  | toolStore id content memoryType source => exact atomic_toolStore h hp
  | httpStore id content memoryType source => exact atomic_httpStore h hp
  | toolUpdate id content memoryType => exact atomic_toolUpdate h hp
  | toolDelete id => exact atomic_toolDelete h hp

/-- An environment where one sub-step fails. -/
def failing (p : SubStep) : Env ℕ := ⟨"u", 1, some (p, "disk I/O error")⟩

/-- The stores after one memory has been stored. -/
def oneMemory : Stores ℕ := success empty calm (.toolStore "m" "old" none none)

/-- The condition at work: an update whose embedding fails, of an id without rows. -/
theorem atomic_iff_unknown :
    oneMemory.Atomic (failing .embed) (.toolUpdate "x" "new" none) ↔
      oneMemory.Harmless (failing .embed) (.toolUpdate "x" "new" none) .embed :=
  atomic_iff (by decide) (by decide)

/-- **An update that cannot embed the new content** loses the old memory, and a store over
HTTP that cannot write the metadata reports success. -/
theorem update_loses_memory :
    (∃ row ∈ oneMemory.memories, row.id = "m") ∧
      (perform oneMemory (failing .embed) (.toolUpdate "m" "new" none)).reply =
        .toolError "embedding failed" ∧
      (perform oneMemory (failing .embed) (.toolUpdate "m" "new" none)).stores.memories = 0 ∧
      ¬ oneMemory.Atomic (failing .embed) (.toolUpdate "m" "new" none) ∧
      (perform oneMemory (failing .initMetadata) (.httpStore "n" "new" none none)).reply =
        .stored "n" "observation" ∧
      (perform oneMemory (failing .initMetadata) (.httpStore "n" "new" none none)).stores.metadata "n" = none ∧
      ¬ oneMemory.Atomic (failing .initMetadata) (.httpStore "n" "new" none none) := by
  have hrows : oneMemory.memories = {newRow calm "m" "old" none (chooseType none "old")} := rfl
  have hmem : ∃ row ∈ oneMemory.memories, row.id = "m" :=
    ⟨_, hrows ▸ Multiset.mem_singleton_self _, rfl⟩
  have hlost : (perform oneMemory (failing .embed) (.toolUpdate "m" "new" none)).stores.memories = 0 := by
    decide
  refine ⟨hmem, by decide, hlost, fun h => ?_, by decide, by decide, fun h => ?_⟩
  · obtain ⟨row, hrow, -⟩ := hmem
    rw [h.2] at hlost
    rw [hlost] at hrow
    exact Multiset.notMem_zero row hrow
  · have hreply := h.1
    revert hreply; decide

end Stores

end Auxlry
