import Qbutt.Algorithm.Table
import Qbutt.Library.Entry
import Qbutt.Text.Chapter

/-!
# Anchors of blocks

How `TextChapter::from_blocks` gives the blocks of a chapter their ids, and how a reader finds the block
of a saved position again.
-/

namespace Qbutt

/-- A number with a fixed count of lower-case hexadecimal digits. -/
def Rust.lowerHex : ℕ → ℕ → List Char
  | 0, _ => []
  | width + 1, n => Rust.lowerHex width (n / 16) ++ [Nat.digitChar (n % 16)]

def Rust.bytes (text : String) : List UInt8 := text.toList.flatMap String.utf8EncodeChar

namespace Text

def fnv1a (bytes : List UInt8) : UInt64 :=
  bytes.foldl (fun hash byte => (hash ^^^ byte.toUInt64) * 0x100000001b3) 0xcbf29ce484222325

def TextBlock.anchorText (block : TextBlock) : String :=
  (block.spans.filterMap TextSpan.assetId?).foldl (fun text assetId => text ++ assetId) block.plainText

/-- FNV-1a is only an anchor, never a trust or integrity boundary. -/
def TextBlock.anchorHash (block : TextBlock) : UInt64 := fnv1a (Rust.bytes block.anchorText)

/-- The id of a block, of its hash and the number of blocks before it with the same hash. -/
def anchorId (hash : UInt64) (occurrence : ℕ) : String :=
  String.ofList (Rust.lowerHex 16 hash.toNat) ++ "-" ++ toString occurrence

/-- The loop of `from_blocks_with_assets`. -/
def assignIds : Table UInt64 ℕ → List TextBlock → List TextBlock
  | _, [] => []
  | occurrences, block :: blocks =>
    let hash := block.anchorHash
    let occurrence := (occurrences.lookup hash).getD 0
    { block with id := anchorId hash occurrence } ::
      assignIds (AList.insert hash (occurrence + 1) occurrences) blocks

variable {V : Type} (validReference : ChapterRef V → Bool)

def TextChapter.fromBlocksWithAssets (reference : ChapterRef V) (blocks : List TextBlock)
    (assets : List TextImageAsset) : Except Error (TextChapter V) :=
  let chapter : TextChapter V :=
    { reference := reference, blocks := assignIds ∅ blocks, assets := assets, entryAnchor := none }
  match chapter.validate validReference with
  | .error error => .error error
  | .ok () => .ok chapter

def TextChapter.fromBlocks (reference : ChapterRef V) (blocks : List TextBlock) :
    Except Error (TextChapter V) :=
  fromBlocksWithAssets validReference reference blocks []

/-- `index_of_id` of the model of the blocks. -/
def TextChapter.indexOfId (chapter : TextChapter V) (id : String) : Option ℕ :=
  chapter.blocks.findIdx? fun block => block.id = id

/-- Where `complete_text_chapter` resumes: at the saved block, if the chapter has it. -/
def TextChapter.resume {F : Type} (chapter : TextChapter V) (zero : F)
    (resume : Library.ReaderPosition F) : String × F :=
  let start := (chapter.entryAnchor.getD ((chapter.blocks.head?.map TextBlock.id).getD ""), zero)
  match resume with
  | .text blockId offset => if chapter.blocks.any fun block => block.id = blockId then (blockId, offset) else start
  | .page _ _ => start

end Text

end Qbutt

/-!
## Import of HTML

`ChapterBuilder`: the blocks that are made of the nodes of a parsed document.  Images are resolved by a
function of the sources that were asked for before and of the next one.
-/

namespace Qbutt.Text

def maxHtmlBytes : ℕ := 4 * 1024 * 1024

def maxDepth : ℕ := 128

/-- A node of a parsed document; comments and the like are `other`. -/
inductive Node where
  | text (text : String)
  | element (name : String) (attributes : List (String × String)) (children : List Node)
  | other

/-- The three flags of a text span. -/
structure Style where
  bold : Bool
  italic : Bool
  underline : Bool
  deriving DecidableEq

/-- `ChapterBuilder`, with the sources of the images that were resolved. -/
structure ChapterBuilder where
  blocks : List TextBlock := []
  spans : List TextSpan := []
  assets : List TextImageAsset := []
  entryFragment : Option String := none
  entryIndex : Option ℕ := none
  endFragment : Option String := none
  endIndex : Option ℕ := none
  imageResolver : Option (List String → String → Except Error (Option TextImageAsset)) := none
  resolved : List String := []
  assetBytes : ℕ := 0
  textBytes : ℕ := 0
  spanCount : ℕ := 0

/-! ### Texts and attributes -/

def isAsciiWhitespace (c : Char) : Bool :=
  c = ' ' || c = '\t' || c = '\n' || c = '\x0c' || c = '\r'

/-- The loop of `normalize_text`. -/
def normalizeChars : Bool → List Char → List Char
  | _, [] => []
  | whitespace, c :: cs =>
    if isAsciiWhitespace c then
      if whitespace then normalizeChars true cs else ' ' :: normalizeChars true cs
    else if !Rust.isControl c then c :: normalizeChars false cs
    else normalizeChars whitespace cs

def normalizeText (text : List Char) : String := String.ofList (normalizeChars false text)

def hiddenStyle (style : String) : Bool :=
  (style.toList.splitOn ';').any fun declaration =>
    match Rust.splitOnce declaration [':'] with
    | none => false
    | some (name, value) =>
      let value := Rust.trim ((value.splitOn '!').headD [])
      (Rust.eqIgnoreAsciiCase (Rust.trim name) "display" && Rust.eqIgnoreAsciiCase value "none") ||
        (Rust.eqIgnoreAsciiCase (Rust.trim name) "visibility" &&
          Rust.eqIgnoreAsciiCase value "hidden")

/-- The elements whose content is not shown. -/
def excludedNames : List String :=
  ["script", "style", "iframe", "object", "embed", "form", "input", "button", "link", "meta", "base",
    "canvas", "video", "audio", "rt", "rp", "noscript", "template"]

/-- The attributes of an element hide it. -/
def hasHidden (attributes : List (String × String)) : Bool :=
  (attributes.lookup "hidden").isSome || (attributes.lookup "style").any hiddenStyle

/-- The element is excluded or hidden. -/
def isHidden (name : String) (attributes : List (String × String)) : Bool :=
  excludedNames.contains name || hasHidden attributes

mutual

/-- The texts of `ElementRef::text`. -/
def Node.rawText : Node → List Char
  | .text text => text.toList
  | .element _ _ children => rawTexts children
  | .other => []

def rawTexts : List Node → List Char
  | [] => []
  | node :: nodes => node.rawText ++ rawTexts nodes

end

mutual

/-- The sources and the labels of the images among the descendants of a node. -/
def Node.svgImages : Node → List (String × String)
  | .text _ => []
  | .element name attributes children =>
    (if name = "image" then
      match (attributes.lookup "href").or (attributes.lookup "xlink:href") with
      | none => []
      | some source => [(source, (attributes.lookup "aria-label").getD "")]
    else []) ++ svgImages children
  | .other => []

def svgImages : List Node → List (String × String)
  | [] => []
  | node :: nodes => node.svgImages ++ svgImages nodes

end

def rubyBase : List Node → List Char
  | [] => []
  | .text text :: nodes => text.toList ++ rubyBase nodes
  | .element name _ children :: nodes =>
    if name = "rt" ∨ name = "rp" then rubyBase nodes else rawTexts children ++ rubyBase nodes
  | .other :: nodes => rubyBase nodes

def rubyReading : List Node → List Char
  | [] => []
  | .element name _ children :: nodes =>
    if name = "rt" then rawTexts children ++ rubyReading nodes else rubyReading nodes
  | _ :: nodes => rubyReading nodes

def isHeading (name : String) : Bool := ["h1", "h2", "h3", "h4", "h5", "h6"].contains name

/-- A paragraph in a list item, a quote or a heading. -/
def isInlineParagraph (name : String) (parent : Option String) : Bool :=
  name = "p" && parent.any fun parent => ["li", "blockquote", "h1", "h2", "h3"].contains parent

def isBlock (name : String) (parent : Option String) : Bool :=
  !isInlineParagraph name parent &&
    (isHeading name || ["p", "div", "section", "blockquote", "li"].contains name)

def Node.isListItem : Node → Bool
  | .element name _ _ => name = "li"
  | _ => false

/-- The kind of the block of an element, behind some list items. -/
def blockKind (name : String) (parent : Option String) (siblings : ℕ) : TextBlockKind :=
  if isHeading name then .heading
  else if name = "blockquote" then .quote
  else if name = "li" then
    .listItem (if parent = some "ol" then some (UInt32.ofNat siblings + 1) else none)
  else .paragraph

/-- The flags of the text within an element. -/
def Style.within (style : Style) (name : String) : Style where
  bold := style.bold || name = "b" || name = "strong"
  italic := style.italic || name = "i" || name = "em"
  underline := style.underline || name = "u"

def Style.plain : Style := ⟨false, false, false⟩

def TextSpan.style? : TextSpan → Option Style
  | text _ bold italic underline => some ⟨bold, italic, underline⟩
  | _ => none

/-! ### The builder -/

namespace ChapterBuilder

def account (bytes : ℕ) (b : ChapterBuilder) : Except Error ChapterBuilder :=
  let b := { b with textBytes := b.textBytes + bytes, spanCount := b.spanCount + 1 }
  if maxTextBytes < b.textBytes ∨ maxSpans < b.spanCount then .error .responseTooLarge else .ok b

def finish (kind : TextBlockKind) (b : ChapterBuilder) : Except Error ChapterBuilder :=
  if b.spans = [] ∧ kind ≠ .separator then .ok b
  else
    let block : TextBlock := { id := "", kind := kind, spans := b.spans }
    let b := { b with spans := [] }
    if Rust.isBlank block.plainText ∧ kind ≠ .separator ∧ kind ≠ .image then .ok b
    else if maxBlocks ≤ b.blocks.length then .error .responseTooLarge
    else .ok { b with blocks := b.blocks ++ [block] }

def finishIf (condition : Bool) (kind : TextBlockKind) (b : ChapterBuilder) :
    Except Error ChapterBuilder :=
  if condition then b.finish kind else .ok b

/-- Put a text behind the spans, into the last one if it has the same flags. -/
def pushText (text : String) (style : Style) (spans : List TextSpan) : List TextSpan :=
  match spans.getLast? with
  | some (.text previous bold italic underline) =>
    if style = ⟨bold, italic, underline⟩ then
      spans.dropLast ++ [.text (previous ++ text) bold italic underline]
    else spans ++ [.text text style.bold style.italic style.underline]
  | _ => spans ++ [.text text style.bold style.italic style.underline]

def text (text : String) (style : Style) (b : ChapterBuilder) : Except Error ChapterBuilder := do
  if text = "" then return b
  else
    let b ← b.account (Rust.byteLength text)
    return { b with spans := pushText text style b.spans }

/-- The branch of `visit` for a ruby element. -/
def ruby (children : List Node) (b : ChapterBuilder) : Except Error ChapterBuilder := do
  let text := normalizeText (rubyBase children)
  let reading := normalizeText (rubyReading children)
  let b ← b.account (Rust.byteLength text + Rust.byteLength reading)
  return { b with spans := b.spans ++ [.ruby text reading] }

def keepAsset (asset : TextImageAsset) (b : ChapterBuilder) : Except Error ChapterBuilder :=
  if b.assets.any fun existing => existing.id = asset.id then .ok b
  else
    let total := b.assetBytes + asset.bytes.length
    if maxAssetBytes < total then .error .responseTooLarge
    else .ok { b with assetBytes := total, assets := b.assets ++ [asset] }

def imageBlock (asset : TextImageAsset) (alt : String) (b : ChapterBuilder) :
    Except Error ChapterBuilder := do
  let b ← b.finish .paragraph
  let b ← b.account (Rust.byteLength asset.id)
  let span := TextSpan.image asset.id (String.ofList (alt.toList.take 200))
  let b ← { b with spans := b.spans ++ [span] }.keepAsset asset
  b.finish .image

def image (source alt : String) (b : ChapterBuilder) : Except Error ChapterBuilder :=
  match b.imageResolver with
  | none => .ok b
  | some resolve =>
    match resolve b.resolved source with
    | .error error => .error error
    | .ok none => .ok { b with resolved := b.resolved ++ [source] }
    | .ok (some asset) => { b with resolved := b.resolved ++ [source] }.imageBlock asset alt

/-- The blocks at which the fragments of the entry and of the end stand. -/
def noteFragments (attributes : List (String × String)) (b : ChapterBuilder) : ChapterBuilder :=
  let id := attributes.lookup "id"
  { b with
    entryIndex := b.entryIndex.or
      (if b.entryFragment.isSome ∧ b.entryFragment = id then some b.blocks.length else none)
    endIndex := b.endIndex.or
      (if b.endFragment.isSome ∧ b.endFragment = id then some b.blocks.length else none) }

mutual

/-- `visit`, of an element with the name of its parent and the number of list items before it; a text
node is normalised and added. -/
def visit (parent : Option String) (siblings : ℕ) (style : Style) (depth : ℕ) :
    Node → ChapterBuilder → Except Error ChapterBuilder
  | .text text, b => b.text (normalizeText text.toList) style
  | .other, b => .ok b
  | .element name attributes children, b =>
    if maxDepth < depth then .error .responseTooLarge
    else if isHidden name attributes then .ok b
    else if name = "svg" then
      (svgImages children).foldlM (fun b source => b.image source.1 source.2) b
    else if name = "img" then
      match attributes.lookup "src" with
      | none => .ok b
      | some source => b.image source ((attributes.lookup "alt").getD "")
    else if name = "br" then b.text "\n" style
    else if name = "hr" then do
      let b ← b.finish .paragraph
      b.finish .separator
    else if name = "ruby" then b.ruby children
    else do
      let b ← b.finishIf (isBlock name parent) .paragraph
      let b ← visitChildren name 0 (style.within name) depth children (b.noteFragments attributes)
      b.finishIf (isBlock name parent) (blockKind name parent siblings)

/-- The loop of `visit` over the children of an element, behind some list items. -/
def visitChildren (name : String) (siblings : ℕ) (style : Style) (depth : ℕ) :
    List Node → ChapterBuilder → Except Error ChapterBuilder
  | [], b => .ok b
  | node :: nodes, b => do
    let b ← visit (some name) siblings style (depth + 1) node b
    visitChildren name (if node.isListItem then siblings + 1 else siblings) style depth nodes b

end

/-- The blocks of a document, as `from_html` builds them. -/
def build (root : Node) (b : ChapterBuilder) : Except Error ChapterBuilder := do
  let b ← visit none 0 .plain 0 root b
  b.finish .paragraph

end ChapterBuilder

/-! ### Chapters -/

variable {V : Type} (validReference : ChapterRef V → Bool) (parseFragment : String → Node)

def TextChapter.fromHtml (reference : ChapterRef V) (body : String) : Except Error (TextChapter V) :=
  if !validReference reference then .error .invalidReference
  else if maxHtmlBytes < Rust.byteLength body then .error .responseTooLarge
  else do
    let builder ← ChapterBuilder.build (parseFragment body) {}
    fromBlocks validReference reference builder.blocks

/-- The blocks between the fragments of the entry and of the end. -/
def ChapterBuilder.selected (b : ChapterBuilder) : List TextBlock :=
  let start := b.entryIndex.getD 0
  let stop := b.endIndex.getD b.blocks.length
  if (b.entryFragment.isSome ∧ b.entryIndex = none) ∨ stop ≤ start then b.blocks
  else (b.blocks.take stop).drop start

def TextChapter.fromHtmlWithImages (reference : ChapterRef V) (body : String)
    (resolveImage : List String → String → Except Error (Option TextImageAsset))
    (entryFragment endFragment : Option String) : Except Error (TextChapter V) :=
  if !validReference reference then .error .invalidReference
  else if maxHtmlBytes < Rust.byteLength body then .error .responseTooLarge
  else do
    let builder ← ChapterBuilder.build (parseFragment body)
      { imageResolver := some resolveImage, entryFragment := entryFragment, endFragment := endFragment }
    let imageIds := (builder.selected.flatMap TextBlock.spans).filterMap TextSpan.assetId?
    let chapter ← fromBlocksWithAssets validReference reference builder.selected
      (builder.assets.filter fun asset => imageIds.contains asset.id)
    return { chapter with
      entryAnchor := if builder.entryIndex.isSome then chapter.blocks.head?.map TextBlock.id else none }

end Qbutt.Text
