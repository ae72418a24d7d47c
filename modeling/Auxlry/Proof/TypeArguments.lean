import Auxlry.Proof.Memory
import Auxlry.Proof.MemoryCalls
import Auxlry.Proof.SearchFilters
import Auxlry.Spec.SearchCalls

/-!
# The type that a caller gives

Five calls take a memory type as a string. All of them treat one that does not exist as if
it were left out: a search does not filter, a write guesses the type.

* `isError_perform`: **which writes report an error**.
* `respects_iff`: **the exact condition** for a call to use the type it is given, or to
  report an error.
-/

namespace Auxlry

variable {V K : Type} {s : Stores V} {e : Env V} {op : MemoryOp} {t : MemoryType}

/-! ## Writes that fail -/

/-- A sub-step fails whose result is looked at. -/
def MemoryOp.Fails (op : MemoryOp) (e : Env V) : Prop := ∃ p ∈ op.program, op.drops p = false ∧ e.failsAt p

theorem failsAt_iff {p : SubStep} : e.failsAt p ↔ ∃ text, e.result p = .error text := by
  unfold Env.failsAt Env.result
  cases e.fault with
  | none => simp
  | some f =>
    obtain ⟨q, text⟩ := f
    by_cases hq : q = p
    · simp [hq]
    · simp [hq]

/-- An error is the result of a sub-step that is left. -/
theorem isError_exec (op : MemoryOp) (e : Env V) (left : List SubStep) : ∀ s : Stores V,
    (op.exec e s left).2.isError = true ↔ ∃ p ∈ left, op.drops p = false ∧ e.failsAt p := by
  induction left with
  | nil =>
    intro s
    have hsuccess : op.success.isError = false := by cases op <;> rfl
    simp [MemoryOp.exec, hsuccess]
  | cons p rest ih =>
    intro s
    have hfailure : ∀ text, (op.failure text).isError = true := by
      intro text
      cases op <;> rfl
    have hcons : (∃ q ∈ p :: rest, op.drops q = false ∧ e.failsAt q) ↔
        (op.drops p = false ∧ ∃ text, e.result p = .error text) ∨
          ∃ q ∈ rest, op.drops q = false ∧ e.failsAt q := by
      rw [← failsAt_iff]
      exact List.exists_mem_cons_iff ..
    rw [MemoryOp.exec, hcons]
    cases hresult : e.result p with
    | ok u => simp [ih]
    | error text =>
      -- an error that is dropped does not end the call
      cases hdrops : op.drops p with
      | true => simp [ih]
      | false => simp [hfailure]

/-- **Which writes report an error.** -/
theorem isError_perform (s : Stores V) (e : Env V) (op : MemoryOp) :
    (perform s e op).reply.isError = true ↔ op.Fails e := by
  have hexec := isError_exec op e op.program s
  rw [exec_program] at hexec
  exact hexec

/-! ## Writes -/

/-- The type that a write is given. -/
def MemoryOp.memoryType : MemoryOp → Option String
  | .toolStore _ _ memoryType _ | .httpStore _ _ memoryType _ | .toolUpdate _ _ memoryType => memoryType
  | .toolDelete _ => none

namespace Stores

/-- The rows and the metadata that there are for an id have a type. -/
def OnlyType (s : Stores V) (id : String) (t : MemoryType) : Prop :=
  (∀ row ∈ s.memories, row.id = id → row.memoryType = t.asStr) ∧
    ∀ md, s.metadata id = some md → md.memoryType = t.asStr

/-- A memory has a type in both stores. -/
def HasType (s : Stores V) (id : String) (t : MemoryType) : Prop :=
  s.OnlyType id t ∧ (∃ row ∈ s.memories, row.id = id) ∧ (s.metadata id).isSome = true

end Stores

/-- What a write finds lets the memory have a type in both stores: a generated id is new, or has
this type already, and its metadata is written; an update is of a memory with metadata. -/
def MemoryOp.Fits (s : Stores V) (e : Env V) (t : MemoryType) : MemoryOp → Prop
  | .toolStore id .. => s.OnlyType id t
  | .httpStore id .. => s.OnlyType id t ∧ (e.failsAt .initMetadata → (s.metadata id).isSome = true)
  | .toolUpdate id .. => (s.metadata id).isSome = true
  | .toolDelete _ => True

/-- A write reports an error, or the memory has the type that is given in both stores. -/
def MemoryOp.Respects (op : MemoryOp) (o : Outcome V) : Prop :=
  o.reply.isError = true ∨ ∀ x, op.memoryType = some x →
    ∃ t, MemoryType.fromStr x = some t ∧ o.stores.HasType op.id t

theorem chooseType_of_fromStr {x content : String} (h : MemoryType.fromStr x = some t) :
    chooseType (some x) content = t := by
  unfold chooseType
  rw [Option.bind_some, h, Option.getD_some]

namespace Stores

variable {id : String} {row : MemoryRow V}

/-- The types of the rows with an id, after one more of the same type. -/
theorem rowTypes_addRow (hid : row.id = id) (ht : row.memoryType = t.asStr) :
    (∀ r ∈ (s.addRow row).memories, r.id = id → r.memoryType = t.asStr) ↔
      ∀ r ∈ s.memories, r.id = id → r.memoryType = t.asStr := by
  constructor
  · intro h r hr
    exact h r (mem_addRow.2 (.inr hr))
  · intro h r hr hi
    rcases mem_addRow.1 hr with rfl | hr
    · exact ht
    · exact h r hr hi

/-- A row added without metadata. -/
theorem hasType_addRow (hid : row.id = id) (ht : row.memoryType = t.asStr) :
    (s.addRow row).HasType id t ↔ s.OnlyType id t ∧ (s.metadata id).isSome = true := by
  unfold HasType OnlyType
  rw [rowTypes_addRow hid ht, and_iff_right (exists_addRow hid)]
  exact Iff.rfl

/-- A row added, with a metadata row made for it if there is none. -/
theorem hasType_add {md₀ : MetadataRow} (hid : row.id = id) (ht : row.memoryType = t.asStr)
    (hmd₀ : md₀.memoryType = t.asStr) :
    ((s.addRow row).setMetadata id (some ((s.metadata id).getD md₀))).HasType id t ↔ s.OnlyType id t := by
  have hmetadata : (∀ md, some ((s.metadata id).getD md₀) = some md → md.memoryType = t.asStr) ↔
      ∀ md, s.metadata id = some md → md.memoryType = t.asStr := by
    constructor
    · intro h md hmd
      exact h md (by rw [hmd, Option.getD_some])
    · intro h md hmd
      obtain rfl := Option.some.inj hmd
      cases hold : s.metadata id with
      | none => exact hmd₀
      | some md => exact h md hold
  have hrows : (∀ r ∈ ((s.addRow row).setMetadata id (some ((s.metadata id).getD md₀))).memories,
      r.id = id → r.memoryType = t.asStr) ↔ ∀ r ∈ s.memories, r.id = id → r.memoryType = t.asStr :=
    rowTypes_addRow hid ht
  have hrow : ∃ r ∈ ((s.addRow row).setMetadata id (some ((s.metadata id).getD md₀))).memories, r.id = id :=
    exists_addRow hid
  unfold HasType OnlyType
  rw [setMetadata_self, hrows, hmetadata]
  exact and_iff_left ⟨hrow, rfl⟩

/-- The rows replaced by one, and the type of the metadata with them. -/
theorem hasType_replace {f : MetadataRow → MetadataRow} (hid : row.id = id) (ht : row.memoryType = t.asStr)
    (hf : ∀ md, (f md).memoryType = t.asStr) :
    (((s.removeRows id).addRow row).setMetadata id ((s.metadata id).map f)).HasType id t ↔
      (s.metadata id).isSome = true := by
  have hrow : ∃ r ∈ ((s.removeRows id).addRow row).memories, r.id = id := exists_addRow hid
  unfold HasType OnlyType
  rw [setMetadata_self, Option.isSome_map]
  constructor
  · rintro ⟨-, -, hsome⟩
    exact hsome
  · intro hsome
    refine ⟨⟨fun r hr hi => ?_, fun md hmd => ?_⟩, hrow, hsome⟩
    · -- no older row is left
      rcases mem_addRow.1 hr with rfl | hr
      · exact ht
      · exact absurd hi (mem_removeRows.1 hr).2
    · obtain ⟨md', -, rfl⟩ := Option.map_eq_some_iff.1 hmd
      exact hf md'

/-- **The types after a write** that succeeds with a type. -/
theorem hasType_success {x : String} (hx : op.memoryType = some x) (ht : MemoryType.fromStr x = some t) :
    (s.success e op).HasType op.id t ↔ op.Fits s e t := by
  have hchosen : ∀ content, (chooseType (some x) content).asStr = t.asStr :=
    fun content => congrArg MemoryType.asStr (chooseType_of_fromStr ht)
  cases op with
  | toolStore id content memoryType source =>
    obtain rfl : memoryType = some x := hx
    exact hasType_add rfl (hchosen content) (hchosen content)
  | httpStore id content memoryType source =>
    obtain rfl : memoryType = some x := hx
    unfold success MemoryOp.Fits
    dsimp only
    split
    · -- the error of the second write is dropped, and there is no metadata of this call
      rename_i hfails
      rw [imp_iff_right hfails]
      exact hasType_addRow rfl (hchosen content)
    · rename_i hfails
      rw [and_iff_left fun h => absurd h hfails]
      exact hasType_add rfl (hchosen content) (hchosen content)
  | toolUpdate id content memoryType =>
    obtain rfl : memoryType = some x := hx
    exact hasType_replace rfl (hchosen content) fun _ => hchosen content
  | toolDelete id => cases hx

end Stores

/-- **When a write respects the type** that it is given. -/
theorem respects_perform (s : Stores V) (e : Env V) (op : MemoryOp) : op.Respects (perform s e op) ↔
    op.Fails e ∨ ∀ x, op.memoryType = some x → ∃ t, MemoryType.fromStr x = some t ∧ op.Fits s e t := by
  unfold MemoryOp.Respects
  rw [isError_perform]
  refine or_congr_right' fun hfails => ?_
  have hsucceeds : (perform s e op).reply.isError = false := by
    rw [← Bool.not_eq_true, isError_perform]
    exact hfails
  rw [Stores.perform_success hsucceeds]
  refine forall_congr' fun x => imp_congr_right fun hx => exists_congr fun t => and_congr_right fun ht => ?_
  exact Stores.hasType_success hx ht

/-! ## Searches -/

namespace SearchCall

variable [Field K] [LinearOrder K] {f : SearchEnv K s} {order : HashOrder (K × SearchResult K)}
  {available : Bool} {call : SearchCall K}

/-- There is no memory store, or a lookup of rows fails. -/
def Fails (call : SearchCall K) (available : Bool) (f : SearchEnv K s) : Prop :=
  call.hasStore available = false ∨ ¬ ∃ vs gs, Retrieved f call.params vs gs

/-- A search reports an error, or all its results have the type that is given. -/
def Respects (call : SearchCall K) (reply : SearchReply K) : Prop :=
  reply.isError = true ∨ ∀ x, call.memoryType = some x →
    ∃ t, MemoryType.fromStr x = some t ∧ ∀ r ∈ reply.results, r.memoryType = t

omit [LinearOrder K] in
theorem typeFilter_params (call : SearchCall K) :
    call.params.typeFilter = call.memoryType.bind MemoryType.fromStr := by
  cases call <;> rfl

/-- The reply to a search that finds something, or nothing. -/
theorem run_retrieved {vs gs : List (SearchResult K)} (hstore : call.hasStore available = true)
    (h : Retrieved f call.params vs gs) :
    (call.run available f order).2 = call.reply (.ok (f.best order call.params vs gs)) := by
  unfold run
  rw [if_pos hstore, hybridSearch_of_retrieved h]

omit [Field K] [LinearOrder K] in
theorem results_reply (call : SearchCall K) (rs : List (SearchResult K)) :
    (call.reply (.ok rs)).isError = false ∧ (call.reply (.ok rs)).results = rs := by
  cases call <;> exact ⟨rfl, rfl⟩

/-- **Which searches report an error.** -/
theorem isError_run : (call.run available f order).2.isError = true ↔ call.Fails available f := by
  unfold Fails
  cases hstore : call.hasStore available with
  | false =>
    unfold run
    rw [hstore]
    exact iff_of_true rfl (Or.inl rfl)
  | true =>
    rcases retrieved_or_error f call.params with ⟨vs, gs, hret⟩ | ⟨text, herror⟩
    · rw [run_retrieved hstore hret, (results_reply call _).1]
      refine iff_of_false Bool.false_ne_true ?_
      rintro (hfalse | hnone)
      · cases hfalse
      · exact hnone ⟨vs, gs, hret⟩
    · have hrun : (call.run available f order).2 = call.reply (.error text) := by
        unfold run
        rw [if_pos hstore, herror]
      have hreply : (call.reply (.error text)).isError = true := by cases call <;> rfl
      rw [hrun]
      refine iff_of_true hreply (Or.inr ?_)
      rintro ⟨vs, gs, hret⟩
      have hboth := congrArg Prod.snd ((herror order).symm.trans (hybridSearch_of_retrieved hret))
      cases hboth

/-- **When a search respects the type** that it is given. -/
theorem respects_run : call.Respects (call.run available f order).2 ↔ call.Fails available f ∨
    ∀ x, call.memoryType = some x → ∃ t, MemoryType.fromStr x = some t := by
  unfold Respects
  rw [isError_run]
  refine or_congr_right' fun hfails => ?_
  unfold Fails at hfails
  rw [not_or, not_not, Bool.not_eq_false] at hfails
  obtain ⟨hstore, vs, gs, hret⟩ := hfails
  rw [run_retrieved hstore hret, (results_reply call _).2]
  refine forall_congr' fun x => imp_congr_right fun hx => exists_congr fun t => and_iff_left_of_imp fun ht => ?_
  have hfilter : call.params.typeFilter = some t := by
    rw [typeFilter_params, hx, Option.bind_some, ht]
  exact (answered_best order f call.params vs gs).types t hfilter

end SearchCall

/-! ## All five calls -/

/-- **The exact condition** for a call to use the type it is given, if it reports no error: there
is such a type, and a write finds nothing in its way. -/
theorem respects_iff [Field K] [LinearOrder K] (s : Stores V) :
    (∀ (call : SearchCall K) (available : Bool) (f : SearchEnv K s) (order : HashOrder (K × SearchResult K)),
        call.Respects (call.run available f order).2 ↔ call.Fails available f ∨
          ∀ x, call.memoryType = some x → ∃ t, MemoryType.fromStr x = some t) ∧
      ∀ (op : MemoryOp) (e : Env V), op.Respects (perform s e op) ↔ op.Fails e ∨
        ∀ x, op.memoryType = some x → ∃ t, MemoryType.fromStr x = some t ∧ op.Fits s e t :=
  ⟨fun _ _ _ _ => SearchCall.respects_run, fun op e => respects_perform s e op⟩

/-- **A type that does not exist is not reported**: a search for decisions returns a fact, and a
decision is stored as an observation. -/
theorem otherCase_accepted :
    MemoryType.fromStr "Decision" = none ∧
      ((SearchCall.tool (some "Decision") none).run true noMetadata (.stored _)).2 =
        .found [(memory "a" .fact).toResult (SearchEnv.rankScore 0)] ∧
      SearchReply.text (fun _ => "0.02") [(memory "a" .fact).toResult (SearchEnv.rankScore 0 : ℝ)] =
        "[a] (fact, score: 0.02) a" ∧
      ¬ (SearchCall.tool (some "Decision") none).Respects
        ((SearchCall.tool (some "Decision") none).run true noMetadata (.stored _)).2 ∧
      (perform Stores.empty Stores.calm (.toolStore "m" "we use tabs" (some "Decision") none)).reply =
        .text "Stored memory m (type: observation)" ∧
      ¬ (MemoryOp.toolStore "m" "we use tabs" (some "Decision") none).Respects
        (perform Stores.empty Stores.calm (.toolStore "m" "we use tabs" (some "Decision") none)) := by
  have hnone : MemoryType.fromStr "Decision" = none := by decide
  have hfound : ((SearchCall.tool (some "Decision") none).run true noMetadata (.stored _)).2 =
      .found [(memory "a" .fact).toResult (SearchEnv.rankScore 0)] := rfl
  have hstored : (perform Stores.empty Stores.calm (.toolStore "m" "we use tabs" (some "Decision") none)).reply =
      .text "Stored memory m (type: observation)" := by decide
  refine ⟨hnone, hfound, by decide, fun h => ?_, hstored, fun h => ?_⟩
  · rw [hfound] at h
    rcases h with herror | htype
    · cases herror
    · obtain ⟨t, ht, -⟩ := htype "Decision" rfl
      rw [hnone] at ht
      cases ht
  · unfold MemoryOp.Respects at h
    rw [hstored] at h
    rcases h with herror | htype
    · cases herror
    · obtain ⟨t, ht, -⟩ := htype "Decision" rfl
      rw [hnone] at ht
      cases ht

end Auxlry
