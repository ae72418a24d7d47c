import Auxlry.Proof.Chunks

/-!
# What is sent

A reply goes out chunk by chunk. Discord takes no message without a visible character,
and the first chunk that it refuses ends the sending.

* `chunkBytes_spec`: on bytes the splitting always ends, loses nothing, and cuts behind the
  last newline of a window whenever the window has one.
* `sendMessage_delivers_iff`: **the exact condition**. A reply of single-byte characters
  arrives when every window has something visible before its last newline.
* `sendMessage_drops`: a reply that starts with a newline.
-/

namespace Auxlry.Discord

open Utf8

variable {content r : List UInt8} {maxLen o : ℕ}

/-! ## The splitting as a relation -/

/-- The splitting of what remains, one constructor for each way through the loop. -/
inductive Chunked (maxLen : ℕ) : List UInt8 → List (List UInt8) → Prop
  | done : Chunked maxLen [] []
  | last {r : List UInt8} : r ≠ [] → r.length ≤ maxLen → Chunked maxLen r [r]
  | cut {r : List UInt8} {cs : List (List UInt8)} : maxLen < r.length →
      Chunked maxLen (r.drop (splitAt (r.take maxLen) maxLen)) cs →
      Chunked maxLen r (r.take (splitAt (r.take maxLen) maxLen) :: cs)

theorem splitAt_le (window : List UInt8) (h : window.length ≤ maxLen) : splitAt window maxLen ≤ maxLen := by
  unfold splitAt
  split
  · rename_i i hi
    have := (List.getElem?_eq_some_iff.1 (rfind_some hi)).1
    omega
  · exact Nat.le_refl _

theorem exists_chunked (hpos : 0 < maxLen) (r : List UInt8) : ∃ cs, Chunked maxLen r cs := by
  induction hn : r.length using Nat.strongRecOn generalizing r with
  | ind n ih =>
    rcases Nat.lt_or_ge maxLen r.length with hlong | hle
    · -- the rest is shorter, since the split is not at its start
      have hp := splitAt_pos (r.take maxLen) hpos
      obtain ⟨cs, hcs⟩ := ih (r.drop (splitAt (r.take maxLen) maxLen)).length
        (by rw [List.length_drop]; omega) _ rfl
      exact ⟨_, .cut hlong hcs⟩
    · rcases eq_or_ne r [] with rfl | hne
      · exact ⟨[], .done⟩
      · exact ⟨[r], .last hne hle⟩

/-- **The loop ends** within an iteration for each byte that remains. -/
theorem chunkBytesLoop_eq (hpos : 0 < maxLen) {cs : List (List UInt8)} (h : Chunked maxLen r cs) {fuel : ℕ}
    (hfuel : r.length < fuel) (chunks : List (List UInt8)) :
    chunkBytesLoop maxLen fuel r chunks = .returned (chunks ++ cs) := by
  induction h generalizing fuel chunks with
  | done =>
    obtain ⟨fuel, rfl⟩ := Nat.exists_eq_add_of_lt hfuel
    rw [chunkBytesLoop, if_pos rfl, List.append_nil]
  | last hne hle =>
    obtain ⟨fuel, rfl⟩ := Nat.exists_eq_add_of_lt hfuel
    rw [chunkBytesLoop, if_neg hne, if_pos hle]
  | @cut r cs hlong _ ih =>
    obtain ⟨fuel, rfl⟩ := Nat.exists_eq_add_of_lt hfuel
    have hp := splitAt_pos (r.take maxLen) hpos
    have hle : splitAt (r.take maxLen) maxLen ≤ maxLen := splitAt_le _ (List.length_take_le ..)
    have hne : r ≠ [] := List.ne_nil_of_length_pos (by omega)
    rw [chunkBytesLoop, if_neg hne, if_neg (by omega)]
    simp only [bytesTo, bytesFrom, if_pos (show maxLen ≤ r.length by omega),
      if_pos (show splitAt (r.take maxLen) maxLen ≤ r.length by omega)]
    rw [ih (by rw [List.length_drop]; omega), List.append_assoc]; rfl

namespace Chunked

variable {cs : List (List UInt8)}

theorem flatten (h : Chunked maxLen r cs) : cs.flatten = r := by
  induction h with
  | done => rfl
  | last => exact List.append_nil _
  | cut _ _ ih => rw [List.flatten_cons, ih, List.take_append_drop]

theorem bounds (hpos : 0 < maxLen) (h : Chunked maxLen r cs) : ∀ c ∈ cs, c ≠ [] ∧ c.length ≤ maxLen := by
  induction h with
  | done => intro c hc; cases hc
  | last hne hle =>
    intro c hc
    rw [List.mem_singleton.1 hc]; exact ⟨hne, hle⟩
  | @cut r cs hlong _ ih =>
    rw [List.forall_mem_cons]
    have hp := splitAt_pos (r.take maxLen) hpos
    have hle : splitAt (r.take maxLen) maxLen ≤ maxLen := splitAt_le _ (List.length_take_le ..)
    refine ⟨⟨List.ne_nil_of_length_pos ?_, ?_⟩, ih⟩ <;> rw [List.length_take] <;> omega

end Chunked

/-- How a chunk sits in the window it is cut from: it ends with the last newline of the
window, or it is a window without one. -/
def CutFrom (maxLen : ℕ) (window c : List UInt8) : Prop :=
  (∃ tail, window = c ++ tail ∧ c.getLast? = some 10 ∧ 10 ∉ tail) ∨
    (10 ∉ window ∧ c = window ∧ c.length = maxLen)

/-- The chunk that is cut off. -/
theorem cutFrom_split (hlong : maxLen < r.length) :
    CutFrom maxLen (r.take maxLen) (r.take (splitAt (r.take maxLen) maxLen)) := by
  unfold splitAt
  split
  · rename_i i hi
    obtain ⟨hlt, hget⟩ := rfind_take hi
    have htake : r.take (i + 1) = (r.take maxLen).take (i + 1) := by
      rw [List.take_take, Nat.min_eq_left (by omega)]
    refine .inl ⟨(r.take maxLen).drop (i + 1), by rw [htake, List.take_append_drop], ?_, rfind_last hi⟩
    rw [List.take_add_one, hget]
    exact List.getLast?_concat
  · rename_i hno
    exact .inr ⟨rfind_none hno, rfl, by rw [List.length_take]; omega⟩

/-- **Every chunk but the last** is cut from the window that starts behind the chunks before it. -/
theorem Chunked.cutFrom {cs : List (List UInt8)} (h : Chunked maxLen r cs) {pre post : List (List UInt8)}
    {c : List UInt8} (hcs : cs = pre ++ c :: post) (hpost : post ≠ []) :
    CutFrom maxLen ((r.drop pre.flatten.length).take maxLen) c := by
  induction h generalizing pre with
  | done => exact absurd hcs.symm (by simp)
  | last =>
    rcases pre with _ | ⟨p, pre⟩
    · rw [List.nil_append, List.cons.injEq] at hcs
      exact absurd hcs.2.symm hpost
    · rw [List.cons_append, List.cons.injEq] at hcs
      exact absurd hcs.2.symm (by simp)
  | @cut r cs hlong hrest ih =>
    rcases pre with _ | ⟨p, pre⟩
    · rw [List.nil_append, List.cons.injEq] at hcs
      exact hcs.1 ▸ cutFrom_split hlong
    · rw [List.cons_append, List.cons.injEq] at hcs
      have hp : p.length = splitAt (r.take maxLen) maxLen := by
        have hle : splitAt (r.take maxLen) maxLen ≤ maxLen := splitAt_le _ (List.length_take_le ..)
        rw [← hcs.1, List.length_take]; omega
      rw [List.flatten_cons, List.length_append, hp, ← List.drop_drop]
      exact ih hcs.2

/-- A message that is not empty is split into chunks, with or without the loop. -/
theorem chunkBytes_chunked (hmax : 1 ≤ maxLen) (hne : content ≠ []) :
    ∃ chunks, Chunked maxLen content chunks ∧
      ∀ fuel, content.length < fuel → chunkBytes content maxLen fuel = .returned chunks := by
  rcases Nat.lt_or_ge maxLen content.length with hlong | hle
  · obtain ⟨chunks, hc⟩ := exists_chunked hmax content
    refine ⟨chunks, hc, fun fuel hfuel => ?_⟩
    rw [chunkBytes, if_neg (by omega)]
    exact chunkBytesLoop_eq hmax hc hfuel []
  · exact ⟨[content], .last hne hle, fun fuel _ => if_pos hle⟩

/-- **The splitting on bytes**: it ends within an iteration for each byte, the chunks make up
the message, none is longer than the limit or empty without need, and all but the last are
cut as they should be. -/
theorem chunkBytes_spec (content : List UInt8) {maxLen : ℕ} (hmax : 1 ≤ maxLen) :
    ∃ chunks, (∀ fuel, content.length < fuel → chunkBytes content maxLen fuel = .returned chunks) ∧
      chunks.flatten = content ∧
      (∀ c ∈ chunks, c.length ≤ maxLen ∧ (c = [] → content = [])) ∧
      ∀ pre c post, chunks = pre ++ c :: post → post ≠ [] →
        CutFrom maxLen ((content.drop pre.flatten.length).take maxLen) c := by
  rcases eq_or_ne content [] with rfl | hne
  · -- one chunk, and it is empty
    refine ⟨[[]], fun fuel _ => rfl, rfl, fun c hc => ?_, fun pre c post hcs hpost => ?_⟩
    · rw [List.mem_singleton.1 hc]; exact ⟨Nat.zero_le _, id⟩
    · have hlen := congrArg List.length hcs
      have := List.length_pos_iff.2 hpost
      rw [List.length_append, show (c :: post).length = post.length + 1 from rfl] at hlen
      change 1 = _ at hlen
      omega
  · obtain ⟨chunks, hc, hret⟩ := chunkBytes_chunked hmax hne
    refine ⟨chunks, hret, hc.flatten, fun c hmem => ?_, fun _ _ _ hcs => hc.cutFrom hcs⟩
    obtain ⟨hne, hle⟩ := hc.bounds hmax c hmem
    exact ⟨hle, fun h => absurd h hne⟩

/-- The splitting at work: a window with a newline, one without, and the rest. -/
theorem chunkBytes_spec_lines :
    ∃ chunks, (∀ fuel, [97, 10, 97, 97, 97, (97 : UInt8)].length < fuel →
        chunkBytes [97, 10, 97, 97, 97, 97] 3 fuel = .returned chunks) ∧
      chunks.flatten = [97, 10, 97, 97, 97, 97] ∧
      (∀ c ∈ chunks, c.length ≤ 3 ∧ (c = [] → [97, 10, 97, 97, 97, 97] = ([] : List UInt8))) ∧
      ∀ pre c post, chunks = pre ++ c :: post → post ≠ [] →
        CutFrom 3 (([97, 10, 97, 97, 97, 97].drop pre.flatten.length).take 3) c :=
  chunkBytes_spec _ (show 1 ≤ 3 by decide)

/-! ## The loop on characters -/

/-- **Where no slice panics**, the loop on characters is the loop on bytes. -/
theorem chunkLoop_eq {fuel : ℕ} {chunks : List (List UInt8)} (h : chunkLoop maxLen fuel r chunks ≠ .panicked) :
    chunkLoop maxLen fuel r chunks = chunkBytesLoop maxLen fuel r chunks := by
  induction fuel generalizing r chunks with
  | zero => rfl
  | succ fuel ih =>
    rw [chunkLoop] at h
    rw [chunkLoop, chunkBytesLoop]
    split
    · rfl
    split
    · rfl
    · rename_i hr hlong
      rw [if_neg hr, if_neg hlong] at h
      have hle : ∀ {i}, IsBoundary r i → i ≤ r.length := by
        rintro i (rfl | rfl | ⟨b, hb, -⟩)
        · exact Nat.zero_le _
        · exact Nat.le_refl _
        · exact Nat.le_of_lt (List.getElem?_eq_some_iff.1 hb).1
      by_cases hw : IsBoundary r maxLen
      · simp only [sliceTo, sliceFrom, if_pos hw] at h ⊢
        by_cases hs : IsBoundary r (splitAt (r.take maxLen) maxLen)
        · simp only [if_pos hs] at h
          simp only [bytesTo, bytesFrom, if_pos hs, if_pos (hle hw), if_pos (hle hs)]
          exact ih h
        · simp only [if_neg hs] at h
          exact absurd trivial (fun _ => h rfl)
      · simp only [sliceTo, if_neg hw] at h
        exact absurd trivial (fun _ => h rfl)

/-- A text of single-byte characters. -/
def SingleByte (content : String) : Prop := ∀ c ∈ content.toList, c.utf8Size = 1

instance (content : String) : Decidable (SingleByte content) :=
  List.decidableBAll _ _

/-- Single-byte characters are split as bytes are. -/
theorem SingleByte.chunkMessage_eq {content : String} (hs : SingleByte content) (hpos : 0 < maxLen) {fuel : ℕ}
    (hfuel : (bytes content).length < fuel) :
    chunkMessage (bytes content) maxLen fuel = chunkBytes (bytes content) maxLen fuel := by
  unfold chunkMessage chunkBytes
  split
  · rfl
  · -- no character is long enough to lie across a place
    have hb : ClearFrom content maxLen 0 := by
      rintro p - ⟨as, c, bs, hcs, hlt, hgt⟩
      have := hs c (hcs ▸ List.mem_append_right _ (.head _))
      omega
    obtain ⟨cs, hcs⟩ := (chunkLoop_returns_iff hpos (isBoundary_zero _) (by rwa [Nat.zero_add]) []).2 hb
    rw [List.drop_zero] at hcs
    exact chunkLoop_eq (hcs ▸ fun h => by cases h)

/-! ## Where a window has nothing visible -/

/-- Whitespace, among the single-byte characters. -/
def blank (b : UInt8) : Bool := (9 ≤ b && b ≤ 13) || b == 32

/-- Something visible in the window at `o`, and before a newline of it if more than the
window is left and it has any. -/
def ShowsAt (content : List UInt8) (maxLen o : ℕ) : Prop :=
  ∃ i b, o ≤ i ∧ i < o + maxLen ∧ content[i]? = some b ∧ blank b = false ∧
    (o + maxLen < content.length →
      ∀ j, o ≤ j → j < o + maxLen → content[j]? = some 10 →
        ∃ k, i < k ∧ k < o + maxLen ∧ content[k]? = some 10)

/-- Something visible in the window at every place from `o` on where a message is cut. -/
def ShowsFrom (content : List UInt8) (maxLen o : ℕ) : Prop :=
  ∀ p, Relation.ReflTransGen (NextCut content maxLen) o p → p < content.length → ShowsAt content maxLen p

theorem showsFrom_iff : ShowsFrom content maxLen o ↔ (o < content.length → ShowsAt content maxLen o) ∧
    (o + maxLen < content.length → ShowsFrom content maxLen (nextCut content maxLen o)) := by
  unfold ShowsFrom
  constructor
  · intro h
    exact ⟨h o .refl, fun hlt p hp => h p (hp.head (nextCut_iff.2 ⟨hlt, rfl⟩))⟩
  · rintro ⟨h, h'⟩ p hp
    rcases hp.cases_head with rfl | ⟨q, hq, hqp⟩
    · exact h
    · obtain ⟨hlt, rfl⟩ := nextCut_iff.1 hq
      exact h' hlt p hqp

/-- A chunk shows something when its window does. -/
theorem showsAt_cut (hlt : o + maxLen < content.length) : ShowsAt content maxLen o ↔
    ∃ b ∈ (content.drop o).take (splitAt ((content.drop o).take maxLen) maxLen), blank b = false := by
  simp only [mem_take_drop]
  unfold ShowsAt splitAt
  split
  · rename_i i hi
    obtain ⟨ho, hn, h10, hlast⟩ := lastNewline hi
    constructor
    · rintro ⟨j, b, hj, -, hb, hbl, hnl⟩
      obtain ⟨k, hjk, hk, hk10⟩ := hnl hlt _ ho hn h10
      refine ⟨b, ⟨j, hj, ?_, hb⟩, hbl⟩
      -- a newline behind it is not behind the last one
      have : k ≤ o + i := Nat.le_of_not_lt fun h => hlast k h hk hk10
      omega
    · rintro ⟨b, ⟨j, hj, hji, hb⟩, hbl⟩
      refine ⟨j, b, hj, by omega, hb, hbl, fun _ _ _ _ _ => ⟨o + i, ?_, hn, h10⟩⟩
      have : j ≠ o + i := by
        rintro rfl
        rw [h10] at hb
        cases hb; cases hbl
      omega
  · rename_i hno
    constructor
    · rintro ⟨j, b, hj, hjn, hb, hbl, -⟩
      exact ⟨b, ⟨j, hj, hjn, hb⟩, hbl⟩
    · rintro ⟨b, ⟨j, hj, hjn, hb⟩, hbl⟩
      exact ⟨j, b, hj, hjn, hb, hbl, fun _ k hk hkn hk10 => absurd hk10 (no_newline hno k hk hkn)⟩

theorem showsAt_last (hle : content.length ≤ o + maxLen) : ShowsAt content maxLen o ↔
    ∃ b ∈ content.drop o, blank b = false := by
  have htake : content.drop o = (content.drop o).take maxLen := by
    rw [List.take_of_length_le (by rw [List.length_drop]; omega)]
  rw [htake]
  simp only [mem_take_drop]
  constructor
  · rintro ⟨j, b, hj, hjn, hb, hbl, -⟩
    exact ⟨b, ⟨j, hj, hjn, hb⟩, hbl⟩
  · rintro ⟨b, ⟨j, hj, hjn, hb⟩, hbl⟩
    exact ⟨j, b, hj, hjn, hb, hbl, fun h => absurd h (by omega)⟩

/-- **Every chunk shows something** exactly when every window does. -/
theorem Chunked.shows_iff {cs : List (List UInt8)} (h : Chunked maxLen r cs) (hr : r = content.drop o) :
    (∀ c ∈ cs, ∃ b ∈ c, blank b = false) ↔ ShowsFrom content maxLen o := by
  induction h generalizing o with
  | done =>
    have hlen : content.length ≤ o := List.drop_eq_nil_iff.1 hr.symm
    rw [showsFrom_iff]
    exact ⟨fun _ => ⟨fun h => absurd h (by omega), fun h => absurd h (by omega)⟩, fun _ _ h => by cases h⟩
  | @last r hne hle =>
    subst hr
    rw [List.length_drop] at hle
    have hlt : o < content.length := Nat.lt_of_not_le fun h => hne (List.drop_eq_nil_iff.2 h)
    rw [showsFrom_iff, imp_iff_right hlt, showsAt_last (by omega), List.forall_mem_singleton]
    exact ⟨fun h => ⟨h, fun h => absurd h (by omega)⟩, And.left⟩
  | cut hlong _ ih =>
    subst hr
    rw [List.length_drop] at hlong
    have hlt : o + maxLen < content.length := by omega
    rw [List.forall_mem_cons, showsFrom_iff, imp_iff_right (show o < content.length by omega),
      imp_iff_right hlt, showsAt_cut hlt, ih (List.drop_drop ..)]
    rfl

/-! ## Delivery -/

/-- What Discord takes, among messages of single-byte characters: at most 2000 of them, one
of which shows. -/
def TakesVisible (post : ℕ → List UInt8 → Bool) : Prop :=
  ∀ id c, (∀ b ∈ c, b.toNat < 128) →
    (post id c = true ↔ c.length ≤ 2000 ∧ ∃ b ∈ c, blank b = false)

theorem SingleByte.lt {content : String} (hs : SingleByte content) : ∀ b ∈ bytes content, b.toNat < 128 := by
  intro b hb
  obtain ⟨c, hc, hbc⟩ := List.mem_flatMap.1 hb
  have hsize := hs c hc
  rw [String.utf8EncodeChar_eq_singleton hsize, List.mem_singleton] at hbc
  have hle : c.val.toNat ≤ 127 := Char.utf8Size_eq_one_iff.1 hsize
  rw [hbc, UInt32.toNat_toUInt8]; omega

/-- **The sending succeeds** when every chunk shows something, and then it sends them all. -/
theorem sendChunks_ok_iff {post : List UInt8 → Bool} {chunks : List (List UInt8)}
    (hpost : ∀ c ∈ chunks, post c = true ↔ ∃ b ∈ c, blank b = false) :
    ((sendChunks post chunks).result = .ok () ∧ (sendChunks post chunks).delivered = chunks) ↔
      ∀ c ∈ chunks, ∃ b ∈ c, blank b = false := by
  induction chunks with
  | nil => exact ⟨fun _ c hc => absurd hc List.not_mem_nil, fun _ => ⟨rfl, rfl⟩⟩
  | cons c cs ih =>
    rw [List.forall_mem_cons] at hpost ⊢
    unfold sendChunks
    split
    · rename_i hc
      rw [and_iff_right (hpost.1.1 hc), ← ih hpost.2, List.cons.injEq, and_iff_right rfl]
    · rename_i hc
      exact ⟨fun h => (by cases h.1), fun h => absurd (hpost.1.2 h.1) hc⟩

/-- **The exact condition** for a reply of single-byte characters to arrive. -/
theorem sendMessage_delivers_iff {content : String} (hs : SingleByte content)
    (hvis : ∃ b ∈ bytes content, blank b = false) {post : ℕ → List UInt8 → Bool} (hpost : TakesVisible post)
    {channel : String} {id : ℕ} (hch : parseU64 channel = some id) (hid : id ≠ 0) {fuel : ℕ}
    (hfuel : (bytes content).length < fuel) :
    (∃ s chunks, sendMessage (some post) channel (bytes content) fuel = .returned s ∧ s.result = .ok () ∧
        s.delivered.flatten.filter (!blank ·) = (bytes content).filter (!blank ·) ∧
        chunkMessage (bytes content) 2000 fuel = .returned chunks ∧
        ∀ c ∈ chunks, ∃ b ∈ c, blank b = false) ↔
      ShowsFrom (bytes content) 2000 0 := by
  obtain ⟨b, hb, -⟩ := hvis
  obtain ⟨cs, hcs, hret⟩ := chunkBytes_chunked (show 1 ≤ 2000 by decide) (List.ne_nil_of_mem hb)
  have hchunk : chunkMessage (bytes content) 2000 fuel = .returned cs := by
    rw [hs.chunkMessage_eq (by decide) hfuel, hret fuel hfuel]
  have hsend : sendMessage (some post) channel (bytes content) fuel = .returned (sendChunks (post id) cs) := by
    obtain ⟨n, rfl⟩ := Nat.exists_eq_succ_of_ne_zero hid
    simp only [sendMessage, hch, hchunk]
  -- Discord refuses no chunk for its length
  have htake : ∀ c ∈ cs, post id c = true ↔ ∃ b ∈ c, blank b = false := by
    intro c hc
    have hlt : ∀ b ∈ c, b.toNat < 128 := fun b hbc =>
      hs.lt b (hcs.flatten ▸ List.mem_flatten.2 ⟨c, hc, hbc⟩)
    rw [hpost id c hlt, and_iff_right (hcs.bounds (by decide) c hc).2]
  rw [← hcs.shows_iff (List.drop_zero ..).symm, ← sendChunks_ok_iff htake]
  constructor
  · rintro ⟨s, cs', hs', hok, -, hcs', hall⟩
    rw [hchunk] at hcs'
    cases hcs'
    exact (sendChunks_ok_iff htake).2 hall
  · rintro ⟨hok, hdel⟩
    refine ⟨_, cs, hsend, hok, by rw [hdel, hcs.flatten], hchunk, ?_⟩
    exact (sendChunks_ok_iff htake).1 ⟨hok, hdel⟩

/-- A client that takes what shows. -/
def visibleOnly (_ : ℕ) (c : List UInt8) : Bool := decide (c.length ≤ 2000) && c.any (!blank ·)

theorem takesVisible_visibleOnly : TakesVisible visibleOnly := by
  intro id c _
  simp only [visibleOnly, Bool.and_eq_true, decide_eq_true_eq, List.any_eq_true, Bool.not_eq_true']

/-- The condition at work: a short reply. -/
theorem sendMessage_delivers_iff_short :
    (∃ s chunks, sendMessage (some visibleOnly) "7" (bytes "hi\n") 4 = .returned s ∧ s.result = .ok () ∧
        s.delivered.flatten.filter (!blank ·) = (bytes "hi\n").filter (!blank ·) ∧
        chunkMessage (bytes "hi\n") 2000 4 = .returned chunks ∧
        ∀ c ∈ chunks, ∃ b ∈ c, blank b = false) ↔
      ShowsFrom (bytes "hi\n") 2000 0 :=
  sendMessage_delivers_iff (by decide) ⟨104, by decide, by decide⟩ takesVisible_visibleOnly
    (show parseU64 "7" = some 7 by decide) (by decide) (by decide)

/-! ## A reply that is dropped -/

/-- A newline, then as much text as one message takes. -/
def indented : String := String.ofList ('\n' :: List.replicate 2000 'a')

theorem bytes_indented : bytes indented = 10 :: List.replicate 2000 97 := by
  unfold bytes indented encode
  rw [String.toList_ofList, List.flatMap_cons, List.flatMap_replicate,
    show String.utf8EncodeChar 'a' = [97] from rfl, List.flatten_replicate_singleton,
    show String.utf8EncodeChar '\n' = [10] from rfl, List.singleton_append]

theorem rfind_replicate {a b : UInt8} (h : a ≠ b) (n : ℕ) : rfind b (List.replicate n a) = none := by
  induction n with
  | zero => rfl
  | succ n ih => simp only [List.replicate_succ, rfind, ih, if_neg h]

theorem singleByte_indented : SingleByte indented := by
  unfold SingleByte indented
  rw [String.toList_ofList, List.forall_mem_cons]
  refine ⟨rfl, fun c hc => ?_⟩
  rw [List.eq_of_mem_replicate hc]; rfl

/-- The newline at the start is the last one of the first window. -/
theorem chunked_indented : Chunked 2000 (10 :: List.replicate 2000 97) [[10], List.replicate 2000 97] := by
  have hsplit : splitAt ((10 :: List.replicate 2000 97).take 2000) 2000 = 1 := by
    rw [List.take_succ_cons, List.take_replicate]
    simp only [splitAt, rfind, rfind_replicate (show (97 : UInt8) ≠ 10 by decide)]
    rfl
  have hlast : Chunked 2000 (List.replicate 2000 97) [List.replicate 2000 97] :=
    .last (List.ne_nil_of_length_pos (by rw [List.length_replicate]; decide))
      (Nat.le_of_eq (List.length_replicate ..))
  have hcut := @Chunked.cut 2000 (10 :: List.replicate 2000 97) [List.replicate 2000 97]
  rw [hsplit] at hcut
  exact hcut (by rw [List.length_cons, List.length_replicate]; decide) hlast

/-- **A reply of which nothing arrives**: the first chunk is the newline alone. -/
theorem sendMessage_drops : SingleByte indented ∧ (∃ b ∈ bytes indented, blank b = false) ∧
    TakesVisible visibleOnly ∧
    chunkMessage (bytes indented) 2000 2002 = .returned [[10], List.replicate 2000 97] ∧
    sendMessage (some visibleOnly) "7" (bytes indented) 2002 =
      .returned ⟨[], .error "failed to send Discord message"⟩ := by
  have hchunk : chunkMessage (bytes indented) 2000 2002 = .returned [[10], List.replicate 2000 97] := by
    have hlen : (10 :: List.replicate 2000 (97 : UInt8)).length = 2001 := by
      rw [List.length_cons, List.length_replicate]
    rw [singleByte_indented.chunkMessage_eq (by decide) (by rw [bytes_indented, hlen]; decide),
      bytes_indented, chunkBytes, if_neg (by rw [hlen]; decide)]
    exact chunkBytesLoop_eq (by decide) chunked_indented (by rw [hlen]; decide) []
  refine ⟨singleByte_indented, ⟨97, ?_, by decide⟩, takesVisible_visibleOnly, hchunk, ?_⟩
  · rw [bytes_indented, List.replicate_succ]
    exact .tail _ (.head _)
  · simp only [sendMessage, show parseU64 "7" = some 7 by decide, hchunk]
    rfl

end Auxlry.Discord
