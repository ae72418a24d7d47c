import Auxlry.Spec.Config
import Mathlib.Data.List.Basic

/-!
# The fields of the configuration

A string field has a place in the document, which is its `path`, and one in the record that
is read from it, which are its `get` and `set`.

* `StringField.eq_set_iff`: what it is for a configuration to be another one with a value in
  the field.
* `reads_iff`: **the field is read as a text** exactly if that is what is taken from its node,
  and then nothing else has changed. Every reader on the path carries what the next one
  returns: records, list items, and adapters, which read `type` from the same node.
-/

namespace Auxlry.Loader

open List (mem_of_getElem?)
open Yaml (At Carries RecordField Flow Lawful Lens Node Reader Step apart_of readList readRecord)

variable {A B : Type}

/-! ## A place in the configuration -/

/-- An element that is kept. -/
theorem modify_self {l : List A} {i : ℕ} {s : A → A} (h : ∀ a, l[i]? = some a → s a = a) : l.modify i s = l := by
  refine List.ext_getElem? fun j => ?_
  rw [List.getElem?_modify]
  by_cases hij : i = j
  · subst hij
    cases ha : l[i]? with
    | none => rfl
    | some a => simp [h a ha]
  · simp [hij]

theorem modify_eq_set {l : List A} {i : ℕ} {a : A} (h : l[i]? = some a) (f : A → A) :
    l.modify i f = l.set i (f a) := by
  refine List.ext_getElem? fun j => ?_
  rw [List.getElem?_modify, List.getElem?_set]
  by_cases hij : i = j
  · subst hij
    obtain ⟨hi, -⟩ := List.getElem?_eq_some_iff.1 h
    rw [h, if_pos rfl, if_pos hi, Option.map_eq_map, Option.map_some, if_pos rfl]
  · simp [hij]

namespace StringField

theorem get_set {f : StringField} {c : Config} {x : String} (h : f.get c = some x) (v : String) :
    f.get (f.set v c) = some v := by
  cases f with
  | interfaceName i | nodeName i =>
    obtain ⟨b, hb, -⟩ := Option.map_eq_some_iff.1 h
    simp [get, set, hb]
  | discordToken i | telegramToken i | webhookUrl i | webhookSecret i =>
    obtain ⟨b, hb, hget⟩ := Option.bind_eq_some_iff.1 h
    split at hget
    · rename_i a ha
      simp [get, set, hb, ha]
    · cases hget
  | _ => rfl

theorem set_get {f : StringField} {c : Config} {x : String} (h : f.get c = some x) : f.set x c = c := by
  cases f with
  | interfaceName i | nodeName i =>
    obtain ⟨b, hb, rfl⟩ := Option.map_eq_some_iff.1 h
    rw [set, modify_self fun a ha => by rw [Option.some.inj (ha.symm.trans hb)]]
  | discordToken i | telegramToken i | webhookUrl i | webhookSecret i =>
    obtain ⟨b, hb, hget⟩ := Option.bind_eq_some_iff.1 h
    rw [set, modify_self]
    intro a ha
    obtain rfl := Option.some.inj (hb.symm.trans ha)
    split at hget
    · rename_i a' ha'
      cases b
      cases ha'
      cases a'
      cases hget
      rfl
    · cases hget
  | _ =>
    cases c
    rename_i core models _ _ memory storage _
    cases core
    cases models
    cases memory
    cases storage
    cases h
    rfl

theorem set_set (f : StringField) (c : Config) (v w : String) : f.set v (f.set w c) = f.set v c := by
  cases f with
  | discordToken i | telegramToken i | webhookUrl i | webhookSecret i =>
    simp only [set, List.modify_modify_eq]
    congr 2
    funext a
    cases h : a.adapter <;> simp [h]
  | interfaceName i | nodeName i => simp only [set, List.modify_modify_eq]; rfl
  | _ => rfl

/-- The configurations with this value in the field, and all else as in another one. -/
theorem eq_set_iff {f : StringField} {c c' : Config} {x : String} (h : f.get c = some x) (v : String) :
    c' = f.set v c ↔ f.get c' = some v ∧ ∀ w, f.set w c' = f.set w c := by
  constructor
  · rintro rfl
    exact ⟨get_set h v, fun w => f.set_set c w v⟩
  · rintro ⟨hget, hset⟩
    rw [← set_get hget, hset]

end StringField

/-! ## The keys of the records -/

variable (y : Reader)

/-- No two keys of a record are the same, and they set different fields. -/
theorem lawful_fields : Lawful (configFields y) ∧ Lawful (coreFields y) ∧ Lawful modelsFields ∧
    Lawful (interfaceFields y) ∧ Lawful (discordFields y) ∧ Lawful (telegramFields y) ∧
    Lawful (webhookFields y) ∧ Lawful nodeFields ∧ Lawful memoryFields ∧ Lawful storageFields := by
  unfold Lawful configFields coreFields modelsFields interfaceFields discordFields telegramFields webhookFields
    nodeFields memoryFields storageFields
  refine ⟨?_, ?_, ?_, ?_, ?_, ?_, ?_, ?_, ?_, ?_⟩
  -- for each two keys: the names differ, and setting the fields commutes by definition
  all_goals repeat' first
    | exact List.Pairwise.nil
    | refine List.Pairwise.cons ?_ ?_
    | refine List.forall_mem_cons.2 ⟨apart_of (by decide) fun _ _ _ => rfl, ?_⟩
    | exact List.forall_mem_nil _

variable {y} {M : Option Flow → Node} {w₀ : Option Flow} {c : Config}

/-- A key of a record in the configuration. -/
theorem carries_pair {key key' : String} {fields : List (RecordField A)} {d : A} {l : Lens Config A}
    (hmem : .of key (readRecord fields d) l ∈ configFields y) (hlaw : Lawful fields) {rd : Node → Option B}
    {l' : Lens A B} {required : Bool} (hmem' : .of key' rd l' required ∈ fields)
    (hM : At [.key key, .key key'] M) (hload : readConfig y (M w₀) = some c) :
    Carries (fun w => readConfig y (M w)) (fun w => rd (.flow (w.getD .empty)))
      (fun t => l.set (l'.set t (l.get c)) c) := by
  obtain ⟨N, hN, hget, h⟩ := hM.record (lawful_fields y).1 hmem hload
  obtain ⟨N', hN', -, h'⟩ := hN.record hlaw hmem' hget
  have hcarries := h.trans h'
  simp only [hN'.nil] at hcarries
  exact hcarries

/-- An item of a list in the configuration. -/
theorem carries_item {key : String} {i : ℕ} {p : List Step} {rd : Node → Option A} {l : Lens Config (List A)}
    (hmem : .of key (readList rd) l ∈ configFields y) (hM : At (.key key :: .index i :: p) M)
    (hload : readConfig y (M w₀) = some c) : ∃ N a, At p N ∧ (l.get c)[i]? = some a ∧ rd (N w₀) = some a ∧
      Carries (fun w => readConfig y (M w)) (fun w => rd (N w)) (fun a => l.set ((l.get c).set i a) c) := by
  obtain ⟨N, hN, hget, h⟩ := hM.record (lawful_fields y).1 hmem hload
  obtain ⟨N', a, hN', hi, ha, h'⟩ := hN.list hget
  exact ⟨N', a, hN', hi, ha, h.trans h'⟩

/-! ## The keys of adapters -/

/-- The adapters of one type. -/
structure IsVariant (y : Reader) (tag : String) (fields : List (RecordField A)) (d : A) (adapter : A → AdapterConfig) :
    Prop where
  read : ∀ es, adapterType y es = some tag → readVariant y es = (Yaml.readFields fields es d).map adapter
  tag_of : ∀ es a, readVariant y es = some (adapter a) → adapterType y es = some tag
  inj : Function.Injective adapter

/-- **The adapters**: which one it is can be seen from its type, before its keys are read. -/
theorem isVariant_all : IsVariant y "discord" (discordFields y) { token := "" } .discord ∧
    IsVariant y "telegram" (telegramFields y) { token := "" } .telegram ∧
    IsVariant y "webhook" (webhookFields y) { url := "" } .webhook := by
  have hread : ∀ es b, readVariant y es = some b →
      (∃ a, b = .discord a ∧ adapterType y es = some "discord") ∨
      (∃ a, b = .telegram a ∧ adapterType y es = some "telegram") ∨
      ∃ a, b = .webhook a ∧ adapterType y es = some "webhook" := by
    intro es b h
    unfold readVariant at h
    split at h
    · obtain ⟨a, -, rfl⟩ := Option.map_eq_some_iff.1 h
      exact .inl ⟨a, rfl, by assumption⟩
    · obtain ⟨a, -, rfl⟩ := Option.map_eq_some_iff.1 h
      exact .inr (.inl ⟨a, rfl, by assumption⟩)
    · obtain ⟨a, -, rfl⟩ := Option.map_eq_some_iff.1 h
      exact .inr (.inr ⟨a, rfl, by assumption⟩)
    · cases h
  refine ⟨⟨fun es h => by simp [readVariant, h], fun es a h => ?_, fun a b h => AdapterConfig.discord.inj h⟩,
    ⟨fun es h => by simp [readVariant, h], fun es a h => ?_, fun a b h => AdapterConfig.telegram.inj h⟩,
    ⟨fun es h => by simp [readVariant, h], fun es a h => ?_, fun a b h => AdapterConfig.webhook.inj h⟩⟩ <;>
    · obtain ⟨_, he, htag⟩ | ⟨_, he, htag⟩ | ⟨_, he, htag⟩ := hread es _ h <;> cases he
      exact htag

/-- The type of an adapter does not depend on its other keys. -/
theorem adapterType_of_ne {key : String} (h : key ≠ "type") (before after : List (String × Node)) (n m : Node) :
    adapterType y (before ++ (key, n) :: after) = adapterType y (before ++ (key, m) :: after) := by
  have hkey : (key == "type") = false := beq_eq_false_iff_ne.2 h
  simp only [adapterType, List.filter_append, List.filter_cons, hkey, Bool.false_eq_true, if_false]

/-- A key of an adapter. -/
theorem carries_variant {tag : String} {fields : List (RecordField A)} {d : A} {adapter : A → AdapterConfig}
    (hvariant : IsVariant y tag fields d adapter) (hlaw : Lawful fields) {key : String} (hkey : key ≠ "type")
    {rd : Node → Option B} {l : Lens A B} {required : Bool} (hmem : .of key rd l required ∈ fields)
    (hM : At [.key key] M) {a : A} (hread : readAdapter y (M w₀) = some (adapter a)) :
    Carries (fun w => readAdapter y (M w)) (fun w => rd (.flow (w.getD .empty)))
      (fun t => adapter (l.set t a)) := by
  cases hM with
  | @key _ N _ before after _ hN hM =>
    rw [readAdapter, hM, Option.bind_some] at hread
    have htag := hvariant.tag_of _ a hread
    have hfields := hread
    rw [hvariant.read _ htag] at hfields
    obtain ⟨a', ha', he⟩ := Option.map_eq_some_iff.1 hfields
    obtain rfl := hvariant.inj he
    obtain ⟨-, hall⟩ := Yaml.readFields_key hlaw hmem ha'
    refine ⟨fun w => ?_, hvariant.inj.comp (l.set_injective _)⟩
    rw [readAdapter, hM, Option.bind_some, hvariant.read _ (by rw [← htag]; exact adapterType_of_ne hkey ..),
      hall, hN.nil, Option.map_map]
    rfl

/-- A key of the adapter of an interface. -/
theorem carries_adapter {i : ℕ} {tag : String} {fields : List (RecordField A)} {d : A} {adapter : A → AdapterConfig}
    (hvariant : IsVariant y tag fields d adapter) (hlaw : Lawful fields) {key : String} (hkey : key ≠ "type")
    {rd : Node → Option B} {l : Lens A B} {required : Bool} (hmem : .of key rd l required ∈ fields)
    (hM : At [.key "interfaces", .index i, .key "adapter", .key key] M) (hload : readConfig y (M w₀) = some c)
    {b : InterfaceConfig} {a : A} (hb : c.interfaces[i]? = some b) (ha : b.adapter = adapter a) :
    Carries (fun w => readConfig y (M w)) (fun w => rd (.flow (w.getD .empty)))
      (fun t => { c with interfaces := c.interfaces.set i { b with adapter := adapter (l.set t a) } }) := by
  have hmem' : .of "interfaces" (readList (readInterface y))
      (.of (·.interfaces) fun x c => { c with interfaces := x }) ∈ configFields y := mem_of_getElem? (i := 3) rfl
  obtain ⟨N, b', hN, hi, hread, h⟩ := carries_item hmem' hM hload
  obtain rfl : b' = b := Option.some.inj (hi.symm.trans hb)
  obtain ⟨N', hN', hget, h'⟩ := hN.record (lawful_fields y).2.2.2.1 (mem_of_getElem? (i := 1) rfl) hread
  have hadapter : readAdapter y (N' w₀) = some (adapter a) := by
    rw [← ha]
    exact hget
  exact h.trans (h'.trans (carries_variant hvariant hlaw hkey hmem hN' hadapter))

/-! ## String fields -/

/-- A text that is required arrives exactly if it is read. -/
theorem carries_text {leaf : Option Flow → Option String} {put : String → Config}
    (h : Carries (fun w => readConfig y (M w)) leaf put) (w : Option Flow) (v : String) :
    readConfig y (M w) = some (put v) ↔ (leaf w).map some = some (some v) := by
  rw [h.eq_some_iff w v]
  cases leaf w <;> simp

/-- **A string field is read as a text** exactly if that is what is taken from its node; then
nothing else has changed. -/
theorem reads_iff (f : StringField) (hM : At f.path M) (hload : readConfig y (M w₀) = some c) {x : String}
    (hget : f.get c = some x) (w : Option Flow) (v : String) :
    readConfig y (M w) = some (f.set v c) ↔ f.kind.read y (.flow (w.getD .empty)) = some (some v) := by
  obtain ⟨hconfig, hcore, hmodels, hinterface, hdiscord, htelegram, hwebhook, hnode, hmemory, hstorage⟩ :=
    lawful_fields y
  obtain ⟨discord, telegram, webhook⟩ := isVariant_all (y := y)
  cases f with
  | locale =>
    obtain ⟨N, hN, -, h⟩ := hM.record hconfig (mem_of_getElem? (i := 0) rfl) hload
    simp only [hN.nil] at h
    exact carries_text h w v
  | host =>
    have h := carries_pair (mem_of_getElem? (i := 1) rfl) hcore (mem_of_getElem? (i := 0) rfl) hM hload
    exact carries_text h w v
  | turnServer =>
    have h := carries_pair (mem_of_getElem? (i := 1) rfl) hcore (mem_of_getElem? (i := 4) rfl) hM hload
    exact h.eq_some_iff w (some v)
  | turnUsername =>
    have h := carries_pair (mem_of_getElem? (i := 1) rfl) hcore (mem_of_getElem? (i := 5) rfl) hM hload
    exact h.eq_some_iff w (some v)
  | turnCredential =>
    have h := carries_pair (mem_of_getElem? (i := 1) rfl) hcore (mem_of_getElem? (i := 6) rfl) hM hload
    exact h.eq_some_iff w (some v)
  | provider =>
    have h := carries_pair (mem_of_getElem? (i := 2) rfl) hmodels (mem_of_getElem? (i := 0) rfl) hM hload
    exact carries_text h w v
  | apiKey =>
    have h := carries_pair (mem_of_getElem? (i := 2) rfl) hmodels (mem_of_getElem? (i := 1) rfl) hM hload
    exact carries_text h w v
  | interface =>
    have h := carries_pair (mem_of_getElem? (i := 2) rfl) hmodels (mem_of_getElem? (i := 2) rfl) hM hload
    exact carries_text h w v
  | synapse =>
    have h := carries_pair (mem_of_getElem? (i := 2) rfl) hmodels (mem_of_getElem? (i := 3) rfl) hM hload
    exact carries_text h w v
  | operator =>
    have h := carries_pair (mem_of_getElem? (i := 2) rfl) hmodels (mem_of_getElem? (i := 4) rfl) hM hload
    exact carries_text h w v
  | embeddingModel =>
    have h := carries_pair (mem_of_getElem? (i := 5) rfl) hmemory (mem_of_getElem? (i := 0) rfl) hM hload
    exact carries_text h w v
  | storePath =>
    have h := carries_pair (mem_of_getElem? (i := 5) rfl) hmemory (mem_of_getElem? (i := 1) rfl) hM hload
    exact carries_text h w v
  | database =>
    have h := carries_pair (mem_of_getElem? (i := 6) rfl) hstorage (mem_of_getElem? (i := 0) rfl) hM hload
    exact carries_text h w v
  | interfaceName i =>
    obtain ⟨N, b, hN, hb, hread, h⟩ := carries_item (mem_of_getElem? (i := 3) rfl) hM hload
    obtain ⟨N', hN', -, h'⟩ := hN.record hinterface (mem_of_getElem? (i := 0) rfl) hread
    simp only [hN'.nil] at h'
    have hb : c.interfaces[i]? = some b := hb
    rw [StringField.set, modify_eq_set hb]
    exact carries_text (h.trans h') w v
  | nodeName i =>
    obtain ⟨N, b, hN, hb, hread, h⟩ := carries_item (mem_of_getElem? (i := 4) rfl) hM hload
    obtain ⟨N', hN', -, h'⟩ := hN.record hnode (mem_of_getElem? (i := 0) rfl) hread
    simp only [hN'.nil] at h'
    have hb : c.nodes[i]? = some b := hb
    rw [StringField.set, modify_eq_set hb]
    exact carries_text (h.trans h') w v
  | discordToken i =>
    obtain ⟨b, hb, hget⟩ := Option.bind_eq_some_iff.1 hget
    split at hget
    · rename_i a ha
      have h := carries_adapter discord hdiscord (by decide) (mem_of_getElem? (i := 0) rfl) hM hload hb ha
      rw [StringField.set, modify_eq_set hb, ha]
      exact carries_text h w v
    · cases hget
  | telegramToken i =>
    obtain ⟨b, hb, hget⟩ := Option.bind_eq_some_iff.1 hget
    split at hget
    · rename_i a ha
      have h := carries_adapter telegram htelegram (by decide) (mem_of_getElem? (i := 0) rfl) hM hload hb ha
      rw [StringField.set, modify_eq_set hb, ha]
      exact carries_text h w v
    · cases hget
  | webhookUrl i =>
    obtain ⟨b, hb, hget⟩ := Option.bind_eq_some_iff.1 hget
    split at hget
    · rename_i a ha
      have h := carries_adapter webhook hwebhook (by decide) (mem_of_getElem? (i := 0) rfl) hM hload hb ha
      rw [StringField.set, modify_eq_set hb, ha]
      exact carries_text h w v
    · cases hget
  | webhookSecret i =>
    obtain ⟨b, hb, hget⟩ := Option.bind_eq_some_iff.1 hget
    split at hget
    · rename_i a ha
      have h := carries_adapter webhook hwebhook (by decide) (mem_of_getElem? (i := 1) rfl) hM hload hb ha
      rw [StringField.set, modify_eq_set hb, ha]
      exact h.eq_some_iff w (some v)
    · cases hget

end Auxlry.Loader
