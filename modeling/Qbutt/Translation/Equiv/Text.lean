import Qbutt.Text.Equiv.Chapter
import Qbutt.Translation.Text

/-!
# Translations keep their anchors

Whatever a model answers, the blocks of an accepted translation go with those of the original
(`Anchored`): the answers of a chunk change the spans of its own blocks only, and `validate_block`
accepts only spans with the readings and the images of the source.  `restore_cached` asks for less than
that, so that a translation that is stored and read again can be restored.
-/

namespace Qbutt.Translation

open Qbutt.Text List

/-! ### Chunks -/

theorem flatten_splitByBytes (batch : List (TextBlock × ℕ)) : (splitByBytes batch).flatten = batch :=
  flatten_pieces _ batch

variable {V : Type} {original : TextChapter V}
  {source : TextBlock} {allows : Bool × Bool × Bool} {before after : List (String × String)}

/-- The chunks have the blocks with text, each once and in order. -/
theorem flatten_chunks (original : TextChapter V) :
    (chunks original).flatten = indices original := by
  unfold chunks
  rw [List.flatMap, flatten_flatten, map_map]
  have hid : (List.flatten ∘ splitByBytes) = id := funext flatten_splitByBytes
  rw [hid, map_id]
  exact flatten_pieces _ _

theorem chunk_bytes {chunk : List (TextBlock × ℕ)} (hchunk : chunk ∈ chunks original)
    (hbytes : maxBatchBytes < (chunk.map fun entry => blockBytes entry.1).sum) :
    chunk.length = 1 := by
  obtain ⟨batch, -, hchunk⟩ := mem_flatMap.mp hchunk
  revert hbytes
  refine forall_mem_pieces (p := fun piece => maxBatchBytes <
    (piece.map fun entry : TextBlock × ℕ => blockBytes entry.1).sum → piece.length = 1) ?_ batch
      chunk hchunk
  intro xs _ h
  exact firstPiece_countWithin _ _ xs h

theorem mem_indices {index : ℕ} :
    (source, index) ∈ indices original ↔
      original.blocks[index]? = some source ∧ translatable source = true := by
  unfold indices
  rw [mem_filter, mem_zipIdx_iff_getElem?]

theorem map_fst_indices (original : TextChapter V) :
    (indices original).map Prod.fst = original.blocks.filter translatable := by
  have hfilter : (original.blocks.zipIdx.map Prod.fst).filter translatable =
      (indices original).map Prod.fst := filter_map
  rw [← hfilter, zipIdx_map_fst]

/-! ### Blocks -/

theorem validateSpan_images {output : OutputSpan} {span : TextSpan}
    (h : validateSpan allows output before = some (span, after)) :
    (image? span).toList ++ after = before := by
  unfold validateSpan at h
  split_ifs at h
  · cases h
    rfl
  · cases h
    rfl
  · cases before with
    | nil => cases h
    | cons image rest =>
      obtain ⟨assetId, alt⟩ := image
      simp only [Option.ite_none_right_eq_some] at h
      obtain ⟨hassetId, h⟩ := h
      cases h
      rw [hassetId]
      rfl

variable {spans : List TextSpan}

theorem validateSpans_images {outputs : List OutputSpan}
    (h : validateSpans allows outputs before = some (spans, after)) :
    spans.filterMap image? ++ after = before := by
  induction outputs generalizing spans before with
  | nil =>
    cases h
    rfl
  | cons output outputs ih =>
    rw [validateSpans] at h
    obtain ⟨⟨span, between⟩, hspan, h⟩ := Option.bind_eq_some_iff.mp h
    obtain ⟨⟨spans', after'⟩, hspans, h⟩ := Option.bind_eq_some_iff.mp h
    cases h
    rw [← validateSpan_images hspan, ← ih hspans, ← append_assoc]
    cases hspan' : image? span with
    | none => rw [filterMap_cons_none hspan']; rfl
    | some image => rw [filterMap_cons_some hspan']; rfl

variable {output : OutputBlock}

theorem validateBlock_spec (h : validateBlock output source = .ok spans) :
    spans.filterMap reading? = readings source ∧ spans.filterMap image? = images source := by
  unfold validateBlock at h
  split_ifs at h with hshape
  cases hspans : validateSpans (emphasis source) output.spans (images source) with
  | none =>
    rw [hspans] at h
    cases h
  | some result =>
    obtain ⟨spans', rest⟩ := result
    rw [hspans] at h
    simp only at h
    split_ifs at h with hreject
    cases h
    simp only [Bool.or_eq_true, decide_eq_true_eq, not_or, ne_eq, not_not, Bool.not_eq_true,
      Bool.not_eq_false'] at hreject
    obtain ⟨⟨hreadings, hrest⟩, -⟩ := hreject
    have himages := validateSpans_images hspans
    rw [isEmpty_iff.mp hrest, append_nil] at himages
    exact ⟨hreadings, himages⟩

/-- How a translated block goes with its source. -/
structure Anchored (source output : TextBlock) : Prop where
  id : output.id = source.id
  kind : output.kind = source.kind
  readings : readings output = readings source
  images : images output = images source
  untranslated : translatable source = false → output = source

theorem Anchored.refl (block : TextBlock) : Anchored block block :=
  ⟨rfl, rfl, rfl, rfl, fun _ => rfl⟩

theorem Anchored.store {block : TextBlock} (h : Anchored source block)
    (htext : translatable source = true) (hspans : validateBlock output source = .ok spans) :
    Anchored source { block with spans := spans } := by
  obtain ⟨hreadings, himages⟩ := validateBlock_spec hspans
  exact ⟨h.id, h.kind, hreadings, himages, fun hno => (by rw [hno] at htext; cases htext)⟩

/-- A relation between two lists survives the change of an element that keeps it. -/
theorem forall₂_modify {α β : Type} {R : α → β → Prop} {f : β → β} {as : List α} {bs : List β}
    {index : ℕ} (h : List.Forall₂ R as bs) (hf : ∀ a b, as[index]? = some a → R a b → R a (f b)) :
    List.Forall₂ R as (bs.modify index f) := by
  induction h generalizing index with
  | nil => simp
  | cons hab _ ih =>
    cases index with
    | zero => exact .cons (hf _ _ rfl hab) ‹_›
    | succ index => exact .cons hab (ih fun a b ha => hf a b ha)

/-! ### Chapters -/

variable {P V : Type} [DecidableEq P] [DecidableEq V]

structure Session.Ongoing (original : TextChapter V) (session : Session V) : Prop where
  reference : session.translated.reference = original.reference
  assets : session.translated.assets = original.assets
  entryAnchor : session.translated.entryAnchor = original.entryAnchor
  blocks : List.Forall₂ Anchored original.blocks session.translated.blocks

omit [DecidableEq V] in
theorem storeBlock_spec {original : TextChapter V} {session session' : Session V} {index : ℕ}
    (h : storeBlock original session (output, source, index) = .ok session')
    (hsource : (source, index) ∈ indices original) (hsession : session.Ongoing original) :
    session'.Ongoing original ∧ session'.requests = session.requests := by
  obtain ⟨spans, hspans, h⟩ := bind_eq_ok.mp h
  cases h
  obtain ⟨hindex, htext⟩ := mem_indices.mp hsource
  refine ⟨⟨hsession.reference, hsession.assets, hsession.entryAnchor, ?_⟩, rfl⟩
  refine forall₂_modify hsession.blocks fun block output hblock hanchored => ?_
  cases hindex.symm.trans hblock
  exact hanchored.store htext hspans

/-- A chunk sends its blocks and keeps the anchors. -/
theorem translateChunk_spec {job : Translator P V} {original : TextChapter V}
    {chapterMap : String → Option (ChapterRef V)} {model effort : String}
    {session session' : Session V} {chunk : List (TextBlock × ℕ)}
    (h : translateChunk job original chapterMap model effort session chunk = .ok session')
    (hchunk : ∀ entry ∈ chunk, entry ∈ indices original) (hsession : session.Ongoing original) :
    session'.Ongoing original ∧ ∃ request : Request (ChapterRef V),
      session'.requests = session.requests ++ [request] ∧ request.blocks = chunk.map Prod.fst := by
  obtain ⟨completion, -, h⟩ := bind_eq_ok.mp h
  obtain ⟨⟨⟩, -, h⟩ := bind_eq_ok.mp h
  obtain ⟨usage, -, h⟩ := bind_eq_ok.mp h
  cases hvalue : completion.value with
  | none =>
    rw [hvalue] at h
    cases h
  | some response =>
    rw [hvalue] at h
    simp only at h
    split_ifs at h with hlimits
    obtain ⟨stored, hstored, h⟩ := bind_eq_ok.mp h
    obtain ⟨fresh, -, h⟩ := bind_eq_ok.mp h
    have hkept := foldlM_ok_induction (fun _ session'' => session''.Ongoing original ∧
      session''.requests = session.requests ++ [_]) hstored
      ⟨{ hsession with }, rfl⟩ ?_
    · split at h
      · cases h
      · cases h
        obtain ⟨hongoing, hrequests⟩ := hkept
        exact ⟨{ hongoing with },
          _, hrequests, rfl⟩
    · rintro done ⟨output, source, index⟩ before after hmem ⟨hbefore, hrequests⟩ hstep
      obtain ⟨hafter, hsame⟩ :=
        storeBlock_spec hstep (hchunk _ (of_mem_zip hmem).2) hbefore
      exact ⟨hafter, hsame.trans hrequests⟩

/-- What a completed translation kept, and what it sent. -/
theorem translateChapter_spec {job : Translator P V} {original : TextChapter V}
    {translation : TextTranslation V} {requests : List (Request (ChapterRef V))}
    (h : translateChapter job original = .ok (translation, requests)) :
    original.validate job.references.validate = .ok () ∧
    translation.chapter.validate job.references.validate = .ok () ∧
    translation.chapter.reference = original.reference ∧
    translation.chapter.assets = original.assets ∧
    translation.chapter.entryAnchor = original.entryAnchor ∧
    List.Forall₂ Anchored original.blocks translation.chapter.blocks ∧
    requests.map Request.blocks = (chunks original).map fun chunk => chunk.map Prod.fst := by
  obtain ⟨⟨⟩, horiginal, h⟩ := bind_eq_ok.mp h
  split_ifs at h with hlanguage
  obtain ⟨⟨⟩, -, h⟩ := bind_eq_ok.mp h
  obtain ⟨⟨model, effort⟩, -, h⟩ := bind_eq_ok.mp h
  obtain ⟨chapterMap, -, h⟩ := bind_eq_ok.mp h
  obtain ⟨session, hsession, h⟩ := bind_eq_ok.mp h
  obtain ⟨⟨⟩, hvalid, h⟩ := bind_eq_ok.mp h
  cases h
  have hkept := foldlM_ok_induction (fun done session' => session'.Ongoing original ∧
    session'.requests.map Request.blocks = done.map fun chunk => chunk.map Prod.fst) hsession
    ⟨⟨rfl, rfl, rfl, forall₂_same.mpr fun block _ => Anchored.refl block⟩, rfl⟩ ?_
  · obtain ⟨hongoing, hrequests⟩ := hkept
    exact ⟨mapError_eq_ok.mp horiginal, mapError_eq_ok.mp hvalid, hongoing.reference,
      hongoing.assets, hongoing.entryAnchor, hongoing.blocks, hrequests⟩
  · rintro done chunk before after hmem ⟨hbefore, hrequests⟩ hstep
    have hchunk : ∀ entry ∈ chunk, entry ∈ indices original := fun entry hentry => by
      rw [← flatten_chunks]
      exact mem_flatten_of_mem hmem hentry
    obtain ⟨hafter, request, hsent, hblocks⟩ := translateChunk_spec hstep hchunk hbefore
    refine ⟨hafter, ?_⟩
    rw [hsent, map_append, map_append, hrequests, map_singleton, map_singleton, hblocks]

/-- A stored translation can be restored: what `restore_cached` compares was kept, and with the assets
of the original the chapter is the one that was accepted. -/
theorem restoreCached_stored {valid : ChapterRef V → Bool} {original translated : TextChapter V}
    (horiginal : original.validate valid = .ok ()) (hvalid : translated.validate valid = .ok ())
    (hreference : translated.reference = original.reference)
    (hassets : translated.assets = original.assets)
    (hentryAnchor : translated.entryAnchor = original.entryAnchor)
    (hblocks : List.Forall₂ Anchored original.blocks translated.blocks) :
    restoreCached valid original { translated with assets := [], entryAnchor := none } =
      .ok translated := by
  have hsame : { translated with assets := original.assets, entryAnchor := original.entryAnchor } =
      translated := by rw [← hassets, ← hentryAnchor]
  have hrestores : ¬ ((original.blocks.zip translated.blocks).any
      fun pair => !restores pair.1 pair.2) = true := by
    rw [any_eq_true]
    rintro ⟨⟨source, output⟩, hmem, hno⟩
    have hanchored := forall₂_zip hblocks hmem
    have hyes : restores source output = true := by
      simp [restores, hanchored.id, hanchored.kind, hanchored.images]
    rw [hyes] at hno
    cases hno
  have hshape : ¬ (decide (translated.reference ≠ original.reference) ||
      decide (translated.blocks.length ≠ original.blocks.length)) = true := by
    simp [hreference, hblocks.length_eq]
  unfold restoreCached
  rw [horiginal]
  show (if _ then _ else _) = _
  rw [if_neg hshape, if_neg hrestores]
  simp only [hsame, hvalid]
  rfl

/-- An accepted translation goes with its original block by block; it can be restored after it was
stored; and every block with text was sent in one request, in order, where only a single block may pass
the limit of a request. -/
theorem translations_keep_anchors {job : Translator P V} {original : TextChapter V}
    {translation : TextTranslation V} {requests : List (Request (ChapterRef V))}
    (codec : Serde.Codec V) (h : translateChapter job original = .ok (translation, requests)) :
    List.Forall₂ Anchored original.blocks translation.chapter.blocks ∧
    (∃ saved, TextChapter.fromJson codec (translation.chapter.toJson codec) = some saved ∧
      saved.assets = [] ∧ saved.entryAnchor = none ∧
      restoreCached job.references.validate original saved =
        .ok { translation.chapter with
          assets := original.assets, entryAnchor := original.entryAnchor }) ∧
    requests.flatMap Request.blocks = original.blocks.filter translatable ∧
    ∀ request ∈ requests, 16000 < (request.blocks.map fun block =>
      Rust.byteLength block.plainText).sum → request.blocks.length = 1 := by
  obtain ⟨horiginal, hvalid, hreference, hassets, hentryAnchor, hblocks, hrequests⟩ :=
    translateChapter_spec h
  refine ⟨hblocks, ⟨_, TextChapter.fromJson_toJson codec translation.chapter, rfl, rfl, ?_⟩, ?_, ?_⟩
  · rw [← hassets, ← hentryAnchor]
    exact restoreCached_stored horiginal hvalid hreference hassets hentryAnchor hblocks
  · rw [List.flatMap, hrequests, ← map_flatten, flatten_chunks, map_fst_indices]
  · intro request hrequest hbytes
    have hmem : request.blocks ∈ (chunks original).map fun chunk => chunk.map Prod.fst := by
      rw [← hrequests]
      exact mem_map_of_mem hrequest
    obtain ⟨chunk, hchunk, hrequest⟩ := mem_map.mp hmem
    rw [← hrequest] at hbytes ⊢
    rw [map_map] at hbytes
    rw [length_map]
    exact chunk_bytes hchunk hbytes

/-! ### A chapter -/

/-- Chapters of one variant of one publication. -/
def sampleChapterReferences : References Unit (ChapterRef Unit) := ⟨fun _ => (), fun _ => true⟩

/-- The variant is written as `null`. -/
def sampleCodec : Serde.Codec Unit where
  write := fun _ => .null
  read
    | .null => some ()
    | _ => none
  read_write := fun _ => rfl

/-- A paragraph with a reading and an image, and a separator. -/
def sampleOriginal : TextChapter Unit where
  reference := ⟨(), "1"⟩
  blocks := [⟨"a", .paragraph, [.ruby "x" "r", .image "i" "p"]⟩, ⟨"b", .separator, []⟩]
  assets := [⟨"i", "image/png", [0]⟩]
  entryAnchor := some "a"

/-- The answer for the paragraph. -/
def sampleCompletion : Completion (ChapterRef Unit) where
  value := some ⟨[⟨"a", [⟨"image", "", false, false, false, "", "i"⟩,
    ⟨"ruby", "y", false, false, false, "r", ""⟩]⟩], [], []⟩
  model := "m"
  effort := "e"
  usage := none
  segments := []

/-- A translation that gets that answer. -/
def sampleTranslator : Translator Unit Unit where
  references := sampleChapterReferences
  chapters := [⟨(), "1"⟩]
  context := ⟨0, [], []⟩
  options := ⟨"en", none, none⟩
  provider := .openRouter "m" "e"
  complete := fun _ _ => .ok sampleCompletion

theorem translations_keep_anchors_sample : ∃ translation requests saved,
    translateChapter sampleTranslator sampleOriginal = .ok (translation, requests) ∧
    List.Forall₂ Anchored sampleOriginal.blocks translation.chapter.blocks ∧
    TextChapter.fromJson sampleCodec (translation.chapter.toJson sampleCodec) = some saved ∧
    restoreCached (fun _ => true) sampleOriginal saved =
      .ok { translation.chapter with assets := sampleOriginal.assets, entryAnchor := some "a" } := by
  have h : ∃ result, translateChapter sampleTranslator sampleOriginal = .ok result := ⟨_, rfl⟩
  obtain ⟨⟨translation, requests⟩, h⟩ := h
  obtain ⟨hblocks, ⟨saved, hsaved, -, -, hrestored⟩, -, -⟩ :=
    translations_keep_anchors sampleCodec h
  exact ⟨translation, requests, saved, h, hblocks, hsaved, hrestored⟩

end Qbutt.Translation
