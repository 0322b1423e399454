import Qbutt.Rust.Serde
import Qbutt.Rust.Str

/-!
# Chapters of text

`TextChapter` of the readers: blocks of spans, with the images that they show.  The variant that a
chapter belongs to is a parameter; of it only the equality, the check of references and the way it is
written are used.
-/

namespace Qbutt.Text

/-- `Error`, as far as checks of chapters report it. -/
inductive Error where
  | invalidReference
  | invalidResponse (message : String)
  | responseTooLarge
  deriving DecidableEq

structure ChapterRef (V : Type) where
  variant : V
  id : String
  deriving DecidableEq

inductive TextBlockKind where
  | paragraph
  | heading
  | separator
  | listItem (ordinal : Option UInt32)
  | quote
  | image
  deriving DecidableEq

inductive TextSpan where
  | text (text : String) (bold italic underline : Bool)
  | ruby (text reading : String)
  | image (assetId alt : String)
  deriving DecidableEq

structure TextImageAsset where
  id : String
  mediaType : String
  bytes : List UInt8
  deriving DecidableEq

structure TextBlock where
  id : String
  kind : TextBlockKind
  spans : List TextSpan
  deriving DecidableEq

structure TextChapter (V : Type) where
  reference : ChapterRef V
  blocks : List TextBlock
  assets : List TextImageAsset
  entryAnchor : Option String
  deriving DecidableEq

def maxTextBytes : ℕ := 2 * 1024 * 1024

def maxBlocks : ℕ := 20000

def maxSpans : ℕ := 40000

def maxAssetBytes : ℕ := 24 * 1024 * 1024

/-! ### Text and size -/

/-- What `TextBlock::plain_text` shows of a span. -/
def TextSpan.plainText : TextSpan → String
  | text content _ _ _ => content
  | ruby content reading =>
    if reading = "" then content else content ++ "(" ++ reading ++ ")"
  | image _ alt => alt

def TextBlock.plainText (block : TextBlock) : String :=
  block.spans.foldl (fun output span => output ++ span.plainText) ""

/-- What `TextChapter::text_bytes` counts of a span. -/
def TextSpan.textBytes : TextSpan → ℕ
  | text content _ _ _ => Rust.byteLength content
  | ruby content reading => Rust.byteLength content + Rust.byteLength reading
  | image _ alt => Rust.byteLength alt

def TextSpan.assetId? : TextSpan → Option String
  | image assetId _ => some assetId
  | _ => none

variable {V : Type}

def TextChapter.textBytes (chapter : TextChapter V) : ℕ :=
  ((chapter.blocks.flatMap TextBlock.spans).map TextSpan.textBytes).sum

/-! ### Validation -/

/-- The loop over the blocks in `TextChapter::validate`; `ids` are those of the blocks before. -/
def validateBlocks (assetIds : List String) : List String → List TextBlock → Except Error Unit
  | _, [] => .ok ()
  | ids, block :: blocks =>
    if block.id = "" || 128 < Rust.byteLength block.id || block.id.toList.any Rust.isControl ||
        ids.contains block.id then
      .error (.invalidResponse "chapter text anchor is invalid")
    else if (block.spans.filterMap TextSpan.assetId?).any fun id => !assetIds.contains id then
      .error (.invalidResponse "chapter image is missing")
    else validateBlocks assetIds (block.id :: ids) blocks

/-- `TextChapter::validate`; `validReference` is `ChapterRef::validate`. -/
def TextChapter.validate (validReference : ChapterRef V → Bool) (chapter : TextChapter V) :
    Except Error Unit :=
  if !validReference chapter.reference then .error .invalidReference
  else if chapter.blocks = [] then .error (.invalidResponse "chapter text is empty")
  else if maxBlocks < chapter.blocks.length ||
      maxSpans < (chapter.blocks.map fun block => block.spans.length).sum ||
      maxTextBytes < chapter.textBytes then
    .error .responseTooLarge
  else if !(chapter.assets.map TextImageAsset.id).Nodup ||
      maxAssetBytes < (chapter.assets.map fun asset => asset.bytes.length).sum then
    .error .responseTooLarge
  else validateBlocks (chapter.assets.map TextImageAsset.id) [] chapter.blocks

/-! ### Serialisation -/

def TextBlockKind.toJson : TextBlockKind → Json
  | paragraph => .string "paragraph"
  | heading => .string "heading"
  | separator => .string "separator"
  | listItem ordinal =>
    .object [("list_item", .object [("ordinal",
      match ordinal with
      | none => .null
      | some n => .number n.toNat)])]
  | quote => .string "quote"
  | image => .string "image"

/-- `Deserialize` for `TextBlockKind`, which ignores unknown fields of a list item. -/
def TextBlockKind.fromJson : Json → Option TextBlockKind
  | .string "paragraph" => some .paragraph
  | .string "heading" => some .heading
  | .string "separator" => some .separator
  | .string "quote" => some .quote
  | .string "image" => some .image
  | .object [("list_item", .object fields)] =>
    if (JsonObject.keys fields).Nodup then
      (Serde.option Serde.u32 (JsonObject.get fields "ordinal")).map .listItem
    else none
  | _ => none

/-- `Serialize` for `TextSpan`; `underline` is skipped when it is not set. -/
def TextSpan.toJson : TextSpan → Json
  | text content bold italic underline =>
    .object [("text", .object ([("text", .string content), ("bold", .bool bold),
      ("italic", .bool italic)] ++ if underline then [("underline", .bool true)] else []))]
  | ruby content reading =>
    .object [("ruby", .object [("text", .string content), ("reading", .string reading)])]
  | image assetId alt =>
    .object [("image", .object [("asset_id", .string assetId), ("alt", .string alt)])]

def TextSpan.fromJson (value : Json) : Option TextSpan := do
  let (name, data) ← Serde.variant value
  match name with
  | "text" =>
    let fields ← Serde.fields ["text", "bold", "italic", "underline"] data
    let underline ←
      if fields.has "underline" then Serde.bool (fields.get "underline") else some false
    return .text (← Serde.string (fields.get "text")) (← Serde.bool (fields.get "bold"))
      (← Serde.bool (fields.get "italic")) underline
  | "ruby" =>
    let fields ← Serde.fields ["text", "reading"] data
    return .ruby (← Serde.string (fields.get "text")) (← Serde.string (fields.get "reading"))
  | "image" =>
    let fields ← Serde.fields ["asset_id", "alt"] data
    return .image (← Serde.string (fields.get "asset_id")) (← Serde.string (fields.get "alt"))
  | _ => none

def TextBlock.toJson (block : TextBlock) : Json :=
  .object [("id", .string block.id), ("kind", block.kind.toJson),
    ("spans", .array (block.spans.map TextSpan.toJson))]

def TextBlock.fromJson (value : Json) : Option TextBlock := do
  let fields ← Serde.fields ["id", "kind", "spans"] value
  return { id := ← Serde.string (fields.get "id")
           kind := ← TextBlockKind.fromJson (fields.get "kind")
           spans := ← Serde.list TextSpan.fromJson (fields.get "spans") }

def ChapterRef.toJson (codec : Serde.Codec V) (reference : ChapterRef V) : Json :=
  .object [("variant", codec.write reference.variant), ("id", .string reference.id)]

def ChapterRef.fromJson (codec : Serde.Codec V) (value : Json) : Option (ChapterRef V) := do
  let fields ← Serde.fields ["variant", "id"] value
  return { variant := ← codec.read (fields.get "variant")
           id := ← Serde.string (fields.get "id") }

/-- `Serialize` for `TextChapter`, which skips the assets and the entry anchor. -/
def TextChapter.toJson (codec : Serde.Codec V) (chapter : TextChapter V) : Json :=
  .object [("reference", chapter.reference.toJson codec),
    ("blocks", .array (chapter.blocks.map TextBlock.toJson))]

def TextChapter.fromJson (codec : Serde.Codec V) (value : Json) : Option (TextChapter V) := do
  let fields ← Serde.fields ["reference", "blocks"] value
  return { reference := ← ChapterRef.fromJson codec (fields.get "reference")
           blocks := ← Serde.list TextBlock.fromJson (fields.get "blocks")
           assets := []
           entryAnchor := none }

end Qbutt.Text
