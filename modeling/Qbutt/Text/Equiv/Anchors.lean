import Qbutt.Algorithm.Numbering
import Qbutt.Text.Import

/-!
# Anchors are unique and stable

The ids of the blocks of a chapter are the pairs of a hash and a number, written as texts, and so are
distinct; the blocks with one hash are numbered in order, whatever stands between them.  So a saved
position denotes a block with the same hash as before, and one with the same text where no other text
with that hash has come before it (`anchors_unique_stable`).
-/

namespace Qbutt

open List

/-! ### Texts of ids -/

namespace Rust

theorem length_lowerHex (width n : ℕ) : (lowerHex width n).length = width := by
  induction width generalizing n with
  | zero => rfl
  | succ width ih => rw [lowerHex, length_append, ih, length_singleton]

theorem digitChar_injective :
    ∀ a < 16, ∀ b < 16, Nat.digitChar a = Nat.digitChar b → a = b := by
  decide

theorem lowerHex_injective {width m n : ℕ} (hm : m < 16 ^ width) (hn : n < 16 ^ width)
    (h : lowerHex width m = lowerHex width n) : m = n := by
  induction width generalizing m n with
  | zero => omega
  | succ width ih =>
    rw [pow_succ] at hm hn
    obtain ⟨hhigh, hlow⟩ := append_inj h (by rw [length_lowerHex, length_lowerHex])
    have hdiv := ih (Nat.div_lt_of_lt_mul (by omega)) (Nat.div_lt_of_lt_mul (by omega)) hhigh
    have hmod := digitChar_injective _ (Nat.mod_lt m (by decide)) _ (Nat.mod_lt n (by decide))
      (singleton_inj.mp hlow)
    omega

end Rust

namespace Text

theorem anchorId_injective {hash hash' : UInt64} {n n' : ℕ} (h : anchorId hash n = anchorId hash' n') :
    hash = hash' ∧ n = n' := by
  have hlist : Rust.lowerHex 16 hash.toNat ++ '-' :: Nat.toDigits 10 n =
      Rust.lowerHex 16 hash'.toNat ++ '-' :: Nat.toDigits 10 n' := by
    have htext := congrArg String.toList h
    simpa [anchorId] using htext
  obtain ⟨hhash, hnumber⟩ := append_inj hlist (by rw [Rust.length_lowerHex, Rust.length_lowerHex])
  constructor
  · exact UInt64.toNat_inj.mp (Rust.lowerHex_injective (by have := hash.toNat_lt; omega)
      (by have := hash'.toNat_lt; omega) hhash)
  · have hdigits := congrArg (fun digits => Nat.ofDigitChars 10 digits 0) (List.cons.inj hnumber).2
    simpa [Nat.ofDigitChars_ten_toDigits] using hdigits

/-! ### Ids of blocks -/

def TextBlock.numbered (block : TextBlock) (occurrence : ℕ) : TextBlock :=
  { block with id := anchorId block.anchorHash occurrence }

variable (block : TextBlock)

@[simp] theorem TextBlock.spans_numbered (occurrence : ℕ) :
    (block.numbered occurrence).spans = block.spans := by
  rw [numbered]

@[simp] theorem TextBlock.anchorText_numbered (occurrence : ℕ) :
    (block.numbered occurrence).anchorText = block.anchorText := by
  simp only [anchorText, plainText, spans_numbered]

@[simp] theorem TextBlock.anchorHash_numbered (occurrence : ℕ) :
    (block.numbered occurrence).anchorHash = block.anchorHash := by
  simp only [anchorHash, anchorText_numbered]

theorem TextBlock.numbered_numbered (n n' : ℕ) :
    (block.numbered n).numbered n' = block.numbered n' := by
  rw [numbered, anchorHash_numbered, numbered, numbered]

theorem assignIds_cons (occurrences : Table UInt64 ℕ) (block : TextBlock) (blocks : List TextBlock) :
    assignIds occurrences (block :: blocks) =
      block.numbered ((occurrences.lookup block.anchorHash).getD 0) ::
        assignIds (AList.insert block.anchorHash ((occurrences.lookup block.anchorHash).getD 0 + 1)
          occurrences) blocks := rfl

theorem assignIds_eq {occurrences : Table UInt64 ℕ} {c : UInt64 → ℕ}
    (hc : ∀ hash, (occurrences.lookup hash).getD 0 = c hash) (blocks : List TextBlock) :
    assignIds occurrences blocks =
      (numberBy TextBlock.anchorHash c blocks).map fun p => p.1.numbered p.2 := by
  induction blocks generalizing occurrences c with
  | nil => rfl
  | cons block blocks ih =>
    have hnext : ∀ hash, ((AList.insert block.anchorHash (c block.anchorHash + 1)
        occurrences).lookup hash).getD 0 =
        Function.update c block.anchorHash (c block.anchorHash + 1) hash := by
      intro hash
      rw [Table.lookup_insert_eq, Function.update_apply]
      split_ifs
      · rfl
      · exact hc hash
    rw [assignIds_cons, numberBy, map_cons, hc, ih hnext]

theorem assignIds_empty (blocks : List TextBlock) :
    assignIds ∅ blocks =
      (numberBy TextBlock.anchorHash (fun _ => 0) blocks).map fun p => p.1.numbered p.2 :=
  assignIds_eq (fun _ => rfl) blocks

theorem nodup_assignIds (blocks : List TextBlock) :
    ((assignIds ∅ blocks).map TextBlock.id).Nodup := by
  have hids : (assignIds ∅ blocks).map TextBlock.id =
      ((numberBy TextBlock.anchorHash (fun _ => 0) blocks).map fun p => (p.1.anchorHash, p.2)).map
        fun p => anchorId p.1 p.2 := by
    rw [assignIds_empty, map_map, map_map]
    rfl
  rw [hids]
  refine (nodup_numberBy _ _ blocks).map fun p q h => ?_
  obtain ⟨hhash, hnumber⟩ := anchorId_injective h
  exact Prod.ext hhash hnumber

theorem assignIds_assignIds (occurrences : Table UInt64 ℕ) (blocks : List TextBlock) :
    assignIds occurrences (assignIds occurrences blocks) = assignIds occurrences blocks := by
  induction blocks generalizing occurrences with
  | nil => rfl
  | cons block blocks ih =>
    rw [assignIds_cons, assignIds_cons, TextBlock.anchorHash_numbered, ih, TextBlock.numbered_numbered]

theorem filter_assignIds (hash : UInt64) (blocks : List TextBlock) :
    (assignIds ∅ blocks).filter (fun block => block.anchorHash = hash) =
      ((blocks.filter fun block => block.anchorHash = hash).zipIdx).map fun p => p.1.numbered p.2 := by
  have hcomp : (fun block : TextBlock => decide (block.anchorHash = hash)) ∘
      (fun p : TextBlock × ℕ => p.1.numbered p.2) = fun p => decide (p.1.anchorHash = hash) := by
    funext p
    simp only [Function.comp_apply, TextBlock.anchorHash_numbered]
  rw [assignIds_empty, filter_map, hcomp, filter_numberBy]

/-- What `from_blocks` changes of a block is its id. -/
def TextBlock.SameContent (block block' : TextBlock) : Prop :=
  block.kind = block'.kind ∧ block.spans = block'.spans

variable {block block' : TextBlock} {blocks blocks' : List TextBlock}

theorem TextBlock.SameContent.anchorText (h : block.SameContent block') :
    block.anchorText = block'.anchorText := by
  simp only [TextBlock.anchorText, plainText, h.2]

theorem TextBlock.SameContent.numbered (h : block.SameContent block') (occurrence : ℕ) :
    block.numbered occurrence = block'.numbered occurrence := by
  simp only [TextBlock.numbered, anchorHash, h.anchorText, h.1, h.2]

theorem zipIdx_numbered_congr (h : List.Forall₂ TextBlock.SameContent blocks blocks') (n : ℕ) :
    (blocks.zipIdx n).map (fun p => p.1.numbered p.2) =
      (blocks'.zipIdx n).map fun p => p.1.numbered p.2 := by
  induction h generalizing n with
  | nil => rfl
  | cons hblock _ ih =>
    rw [zipIdx_cons, zipIdx_cons, map_cons, map_cons, hblock.numbered, ih]

/-! ### Saved positions -/

variable {V : Type} {validReference : ChapterRef V → Bool}

def TextChapter.withHash (chapter : TextChapter V) (hash : UInt64) : List TextBlock :=
  chapter.blocks.filter fun block => block.anchorHash = hash

def TextChapter.Denotes (chapter : TextChapter V) (id : String) (block : TextBlock) : Prop :=
  ∃ i, chapter.indexOfId id = some i ∧ chapter.blocks[i]? = some block ∧ block.id = id

variable {chapter : TextChapter V}

theorem blocks_of_fromBlocks {reference : ChapterRef V} {assets : List TextImageAsset}
    (h : TextChapter.fromBlocksWithAssets validReference reference blocks assets = .ok chapter) :
    chapter.blocks = assignIds ∅ blocks := by
  unfold TextChapter.fromBlocksWithAssets at h
  simp only at h
  split at h
  · cases h
  · rw [← Except.ok.inj h]

theorem TextChapter.denotes_of_mem (hmem : block ∈ chapter.blocks)
    (hnodup : (chapter.blocks.map TextBlock.id).Nodup) : chapter.Denotes block.id block := by
  obtain ⟨i, hi, hblock⟩ := getElem_of_mem hmem
  refine ⟨i, ?_, by rw [List.getElem?_eq_getElem hi, hblock], rfl⟩
  refine List.findIdx?_eq_some_iff_getElem.mpr ⟨hi, by simp [hblock], fun j hji => ?_⟩
  intro heq
  have hj : j < chapter.blocks.length := by omega
  have hid : (chapter.blocks.map TextBlock.id)[j]? = (chapter.blocks.map TextBlock.id)[i]? := by
    rw [List.getElem?_map, List.getElem?_map, List.getElem?_eq_getElem hj, List.getElem?_eq_getElem hi,
      hblock, Option.map_some, Option.map_some]
    simpa using heq
  have heq' := (List.getElem?_inj (by rwa [length_map]) hnodup).mp hid
  omega

theorem id_of_withHash (hblocks : chapter.blocks = assignIds ∅ blocks) {hash : UInt64} {k : ℕ}
    (h : (chapter.withHash hash)[k]? = some block) :
    block ∈ chapter.blocks ∧ block.anchorHash = hash ∧ block.id = anchorId hash k := by
  have hmem := mem_of_getElem? h
  obtain ⟨hmem, hhash⟩ := mem_filter.mp hmem
  have hhash : block.anchorHash = hash := by simpa using hhash
  refine ⟨hmem, hhash, ?_⟩
  rw [TextChapter.withHash, hblocks, filter_assignIds, List.getElem?_map, List.getElem?_zipIdx,
    Option.map_map] at h
  obtain ⟨raw, hraw, heq⟩ := Option.map_eq_some_iff.mp h
  rw [Function.comp_apply, Nat.zero_add] at heq
  rw [← hhash, ← heq, TextBlock.anchorHash_numbered, TextBlock.numbered]

def TextChapter.upTo (chapter : TextChapter V) (i : ℕ) (block : TextBlock) : List TextBlock :=
  (chapter.blocks.take (i + 1)).filter fun other => other.anchorHash = block.anchorHash

theorem getElem?_upTo {i : ℕ} (h : chapter.blocks[i]? = some block) :
    ∃ k, (chapter.upTo i block).length = k + 1 ∧ (chapter.upTo i block)[k]? = some block ∧
      (chapter.withHash block.anchorHash)[k]? = some block := by
  obtain ⟨hi, hblock⟩ := List.getElem?_eq_some_iff.mp h
  have htake : chapter.upTo i block =
      ((chapter.blocks.take i).filter fun other => other.anchorHash = block.anchorHash) ++ [block] := by
    rw [TextChapter.upTo, take_succ_eq_append_getElem hi, filter_append, hblock]
    congr 1
    simp
  have hwith : chapter.withHash block.anchorHash = chapter.upTo i block ++
      ((chapter.blocks.drop (i + 1)).filter fun other => other.anchorHash = block.anchorHash) := by
    rw [TextChapter.upTo, ← filter_append, take_append_drop, TextChapter.withHash]
  refine ⟨((chapter.blocks.take i).filter fun other => other.anchorHash = block.anchorHash).length,
    ?_, ?_, ?_⟩
  · rw [htake, length_append, length_singleton]
  · rw [htake, List.getElem?_append_right le_rfl, Nat.sub_self]
    rfl
  · rw [hwith, htake, append_assoc, List.getElem?_append_right le_rfl, Nat.sub_self]
    rfl

theorem denotes_of_withHash {chapter' : TextChapter V}
    (hblocks : chapter.blocks = assignIds ∅ blocks)
    (hblocks' : chapter'.blocks = assignIds ∅ blocks') {hash : UInt64} {k : ℕ}
    (h : (chapter.withHash hash)[k]? = some block)
    (h' : (chapter'.withHash hash)[k]? = some block') : chapter'.Denotes block.id block' := by
  obtain ⟨-, -, hid⟩ := id_of_withHash hblocks h
  obtain ⟨hmem, -, hid'⟩ := id_of_withHash hblocks' h'
  rw [hid, ← hid']
  exact TextChapter.denotes_of_mem hmem (hblocks' ▸ nodup_assignIds blocks')

/-- The ids of the blocks of a chapter are distinct, assigning them again changes nothing, and the blocks
with one hash are numbered in order, so that other blocks do not matter for their ids.  The id of a block
denotes a block with the same hash in any chapter that has as many blocks with this hash as the first one
up to the block.  It denotes a block with the same text if all blocks with this hash have that text, or
if the blocks with this hash begin with those of the first chapter up to the block. -/
theorem anchors_unique_stable {reference : ChapterRef V} {blocks : List TextBlock}
    {assets : List TextImageAsset} {chapter : TextChapter V}
    (h : TextChapter.fromBlocksWithAssets validReference reference blocks assets = .ok chapter) :
    (chapter.blocks.map TextBlock.id).Nodup ∧
    TextChapter.fromBlocksWithAssets validReference reference chapter.blocks assets = .ok chapter ∧
    (∀ hash, chapter.withHash hash =
      ((blocks.filter fun block => block.anchorHash = hash).zipIdx).map fun p => p.1.numbered p.2) ∧
    ∀ {reference' : ChapterRef V} {blocks' : List TextBlock} {assets' : List TextImageAsset}
      {chapter' : TextChapter V},
      TextChapter.fromBlocksWithAssets validReference reference' blocks' assets' = .ok chapter' →
      (∀ hash, List.Forall₂ TextBlock.SameContent
          (blocks.filter fun block => block.anchorHash = hash)
          (blocks'.filter fun block => block.anchorHash = hash) →
        chapter.withHash hash = chapter'.withHash hash) ∧
      ∀ i block, chapter.blocks[i]? = some block →
        let before := (chapter.upTo i block).map TextBlock.anchorText
        let present := (chapter'.withHash block.anchorHash).map TextBlock.anchorText
        (before.length ≤ present.length →
          ∃ block', chapter'.Denotes block.id block' ∧ block'.anchorHash = block.anchorHash) ∧
        ((before <+: present ∨ before.Subperm present ∧ ∀ text ∈ present, text = block.anchorText) →
          ∃ block', chapter'.Denotes block.id block' ∧ block'.anchorText = block.anchorText) := by
  have hblocks := blocks_of_fromBlocks h
  refine ⟨hblocks ▸ nodup_assignIds blocks, ?_, ?_, ?_⟩
  · rw [← h, TextChapter.fromBlocksWithAssets, hblocks, assignIds_assignIds,
      TextChapter.fromBlocksWithAssets]
  · intro hash
    rw [TextChapter.withHash, hblocks, filter_assignIds]
  intro reference' blocks' assets' chapter' h'
  have hblocks' := blocks_of_fromBlocks h'
  constructor
  · intro hash hsame
    rw [TextChapter.withHash, TextChapter.withHash, hblocks, hblocks', filter_assignIds,
      filter_assignIds, zipIdx_numbered_congr hsame]
  intro i block hi before present
  obtain ⟨k, hlength, hk, hwith⟩ := getElem?_upTo hi
  have hbefore : before.length = k + 1 := by rw [length_map, hlength]
  have hpresent : present.length = (chapter'.withHash block.anchorHash).length := length_map ..
  -- the block in the place of the saved one
  have hdenotes : before.length ≤ present.length → ∃ block',
      chapter'.Denotes block.id block' ∧ (chapter'.withHash block.anchorHash)[k]? = some block' := by
    intro hle
    have hlt : k < (chapter'.withHash block.anchorHash).length := by omega
    have hsome := List.getElem?_eq_getElem hlt
    exact ⟨_, denotes_of_withHash hblocks hblocks' hwith hsome, hsome⟩
  refine ⟨fun hle => ?_, fun hsame => ?_⟩
  · obtain ⟨block', hblock', hplace⟩ := hdenotes hle
    exact ⟨block', hblock', (id_of_withHash hblocks' hplace).2.1⟩
  · rcases hsame with hprefix | ⟨hsub, hsame⟩
    · obtain ⟨block', hblock', hplace⟩ := hdenotes hprefix.length_le
      refine ⟨block', hblock', ?_⟩
      have htext : before[k]? = some block.anchorText := by
        rw [List.getElem?_map, hk]
        rfl
      have htext' : present[k]? = some block'.anchorText := by
        rw [List.getElem?_map, hplace]
        rfl
      rw [prefix_iff_getElem?.mp hprefix k (by omega)] at htext'
      rw [List.getElem?_eq_getElem (by omega)] at htext
      exact (Option.some.inj htext').symm.trans (Option.some.inj htext)
    · obtain ⟨block', hblock', hplace⟩ := hdenotes hsub.length_le
      exact ⟨block', hblock',
        hsame _ (mem_map_of_mem (mem_of_getElem? hplace))⟩

/-! ### Two texts with one hash -/

def plainBlock (text : String) : TextBlock :=
  { id := "", kind := .paragraph, spans := [.text text false false false] }

def plainReference : ChapterRef Unit := { variant := (), id := "1" }

def plainChapter (blocks : List TextBlock) : TextChapter Unit :=
  { reference := plainReference, blocks := blocks, assets := [], entryAnchor := none }

def shortChapter : TextChapter Unit :=
  plainChapter [{ plainBlock "!0IC=VloaY" with id := "0000000000000000-0" }]

/-- The same chapter behind another text with that hash. -/
def longChapter : TextChapter Unit :=
  plainChapter [{ plainBlock "QvXtM>@Fp%" with id := "0000000000000000-0" },
    { plainBlock "!0IC=VloaY" with id := "0000000000000000-1" }]

theorem fromBlocks_short : TextChapter.fromBlocksWithAssets (fun _ => true) plainReference
    [plainBlock "!0IC=VloaY"] [] = .ok shortChapter := by
  decide +kernel

theorem fromBlocks_long : TextChapter.fromBlocksWithAssets (fun _ => true) plainReference
    [plainBlock "QvXtM>@Fp%", plainBlock "!0IC=VloaY"] [] = .ok longChapter := by
  decide +kernel

/-- A chapter in which two texts have the same hash: the ids are distinct, and the second one denotes its
block when the chapter is loaded again. -/
theorem anchors_unique_stable_long : (longChapter.blocks.map TextBlock.id).Nodup ∧
    ∃ block, longChapter.Denotes "0000000000000000-1" block ∧ block.anchorText = "!0IC=VloaY" := by
  obtain ⟨hnodup, -, -, hsaved⟩ := anchors_unique_stable fromBlocks_long
  obtain ⟨block, hdenotes, htext⟩ := ((hsaved fromBlocks_long).2 1 _ rfl).2 (.inl (by decide +kernel))
  exact ⟨hnodup, block, hdenotes, htext.trans (by decide +kernel)⟩

/-- A saved position denotes another text when a block with another text but the same hash is inserted
before its block. -/
theorem saved_position_moves :
    ¬ ∀ (blocks blocks' : List TextBlock) (chapter chapter' : TextChapter Unit),
      TextChapter.fromBlocks (fun _ => true) plainReference blocks = .ok chapter →
      TextChapter.fromBlocks (fun _ => true) plainReference blocks' = .ok chapter' →
      ∀ i block, chapter.blocks[i]? = some block →
        List.Sublist ((chapter.upTo i block).map TextBlock.anchorText)
          ((chapter'.withHash block.anchorHash).map TextBlock.anchorText) →
        ∃ block', chapter'.Denotes block.id block' ∧ block'.anchorText = block.anchorText := by
  intro h
  have hsub : List.Sublist ((shortChapter.upTo 0 (shortChapter.blocks.headD (plainBlock ""))).map
      TextBlock.anchorText) ((longChapter.withHash (plainBlock "!0IC=VloaY").anchorHash).map
      TextBlock.anchorText) := by
    decide +kernel
  obtain ⟨block', ⟨j, hindex, hblock', -⟩, htext⟩ :=
    h _ _ _ _ fromBlocks_short fromBlocks_long 0 _ rfl hsub
  have hzero : longChapter.indexOfId "0000000000000000-0" = some 0 := by decide +kernel
  obtain rfl : 0 = j := Option.some.inj (hzero.symm.trans hindex)
  cases hblock'
  exact absurd htext (by decide +kernel)

end Text

end Qbutt
