import Qbutt.Text.Chapter

/-!
# Reading what was written

A chapter that is written and read again is the same chapter without its assets and its entry anchor.
-/

namespace Qbutt.Text

theorem TextBlockKind.fromJson_toJson (kind : TextBlockKind) : fromJson kind.toJson = some kind := by
  cases kind with
  | listItem ordinal =>
    cases ordinal with
    | none => rfl
    | some n =>
      have hn : Serde.option Serde.u32 (.number n.toNat) = some (some n) := by
        show (Serde.u32 (.number n.toNat)).map some = _
        rw [Serde.u32_number]
        rfl
      show (Serde.option Serde.u32 (.number n.toNat)).map listItem = _
      rw [hn]
      rfl
  | _ => rfl

theorem TextSpan.fromJson_toJson (span : TextSpan) : fromJson span.toJson = some span := by
  cases span with
  | text content bold italic underline => cases underline <;> rfl
  | ruby content reading => rfl
  | image assetId alt => rfl

theorem TextBlock.fromJson_toJson (block : TextBlock) : fromJson block.toJson = some block := by
  have hkind := TextBlockKind.fromJson_toJson block.kind
  have hspans := Serde.list_map TextSpan.fromJson_toJson block.spans
  show (TextBlockKind.fromJson block.kind.toJson >>= fun kind =>
    Serde.list TextSpan.fromJson (.array (block.spans.map TextSpan.toJson)) >>= fun spans =>
      some ({ id := block.id, kind := kind, spans := spans } : TextBlock)) = _
  rw [hkind, hspans]
  rfl

variable {V : Type}

theorem ChapterRef.fromJson_toJson (codec : Serde.Codec V) (reference : ChapterRef V) :
    fromJson codec (reference.toJson codec) = some reference := by
  show (codec.read (codec.write reference.variant) >>= fun variant =>
    some ({ variant := variant, id := reference.id } : ChapterRef V)) = _
  rw [codec.read_write]
  rfl

/-- A stored chapter is read as what was stored, without assets and entry anchor. -/
theorem TextChapter.fromJson_toJson (codec : Serde.Codec V) (chapter : TextChapter V) :
    fromJson codec (chapter.toJson codec) =
      some { chapter with assets := [], entryAnchor := none } := by
  have hreference := ChapterRef.fromJson_toJson codec chapter.reference
  have hblocks := Serde.list_map TextBlock.fromJson_toJson chapter.blocks
  show (ChapterRef.fromJson codec (chapter.reference.toJson codec) >>= fun reference =>
    Serde.list TextBlock.fromJson (.array (chapter.blocks.map TextBlock.toJson)) >>= fun blocks =>
      some ({ reference := reference, blocks := blocks, assets := [], entryAnchor := none } :
        TextChapter V)) = _
  rw [hreference, hblocks]
  rfl

end Qbutt.Text
