import Qbutt.Algorithm.Pieces
import Qbutt.Text.Chapter
import Qbutt.Translation.Context

/-!
# Translation of chapters

`translate_chapter` sends the blocks that have text to a model, chunk after chunk, puts the answers in
place of their spans and learns conventions from them; `restore_cached` puts a stored translation and
its original together.  The answers of the model are a parameter: they may depend on the requests so
far, and carry the segments that the tools of the model have read meanwhile.
-/

namespace Qbutt.Translation

open Qbutt.Text

inductive CodexError where
  | unavailable
  | authentication
  | modelUnavailable
  | cancelled
  | timeout
  | isolation
  | protocol
  | provider
  | imageGenerationUnavailable
  | artifactCleanup (reason : String) (primary : Option CodexError)
  | image
  | tool (message : String)
  | declined (message : String)

inductive OpenRouterError where
  | configuration
  | authentication (status : UInt16)
  | limit (status : UInt16)
  | network
  | http (status : UInt16)
  | providerCode (code : UInt16)
  | provider
  | modelMismatch
  | protocol
  | cancelled
  | timeout
  | tool

inductive TextTranslationError where
  | codex (error : CodexError)
  | openRouter (error : OpenRouterError)

/-- `TextTranslationProvider`: how the installed Codex resolves a model and an effort, or the settings of
the client. -/
inductive TextTranslationProvider where
  | codex (resolveSelection : Option String → Option String →
      Except TextTranslationError (String × String))
  | openRouter (model effort : String)

structure TextTranslationOptions where
  targetLanguage : String
  model : Option String
  effort : Option String

structure TokenUsage where
  totalTokens : ℕ
  inputTokens : ℕ
  cachedInputTokens : ℕ
  cacheWriteInputTokens : ℕ
  outputTokens : ℕ
  reasoningOutputTokens : ℕ

structure OutputSpan where
  kind : String
  text : String
  bold : Bool
  italic : Bool
  underline : Bool
  reading : String
  assetId : String

structure OutputBlock where
  id : String
  spans : List OutputSpan

structure OutputEvidence where
  chapterId : String
  segmentId : String
  quote : String

structure OutputForm where
  source : String
  target : String
  evidence : OutputEvidence

structure OutputTerm where
  source : String
  target : String
  forms : List OutputForm
  evidence : OutputEvidence

structure OutputFact where
  subject : String
  attributeName : String
  value : String
  evidence : OutputEvidence

structure Output where
  blocks : List OutputBlock
  terms : List OutputTerm
  facts : List OutputFact

/-- A prompt: the blocks to translate, with the context whose relevant part it quotes. -/
structure Request (C : Type) where
  targetLanguage : String
  chapterId : String
  context : TranslationContext C
  blocks : List TextBlock
  chapterCount : ℕ

/-- An answer of the model.  `value` is `none` when it is no `Output`; `segments` are those that the
tools have supplied before the answer came. -/
structure Completion (C : Type) where
  value : Option Output
  model : String
  effort : String
  usage : Option TokenUsage
  segments : List (EvidenceSegment C)

structure TextTranslation (V : Type) where
  chapter : TextChapter V
  additions : ContextAdditions (ChapterRef V)
  evidence : List (EvidenceSegment (ChapterRef V))
  model : String
  effort : String
  usage : TokenUsage

def maxBatchBlocks : ℕ := 60

def maxBatchBytes : ℕ := 16000

/-- `CodexError::Protocol`, as an error of a translation. -/
def protocol : TextTranslationError := .codex .protocol

/-! ### Chunks -/

def hasText : TextSpan → Bool
  | .text text _ _ _ => !Rust.isBlank text
  | .ruby text _ => !Rust.isBlank text
  | .image _ _ => false

def translatable (block : TextBlock) : Bool := block.spans.any hasText

def indices {V : Type} (original : TextChapter V) : List (TextBlock × ℕ) :=
  original.blocks.zipIdx.filter fun entry => translatable entry.1

def blockBytes (block : TextBlock) : ℕ := Rust.byteLength block.plainText

def splitByBytes (batch : List (TextBlock × ℕ)) : List (List (TextBlock × ℕ)) :=
  pieces (countWithin (fun entry => blockBytes entry.1) maxBatchBytes 0 true) batch

/-- The chunks in the order in which the nested loops visit them. -/
def chunks {V : Type} (original : TextChapter V) : List (List (TextBlock × ℕ)) :=
  (pieces (fun _ => maxBatchBlocks) (indices original)).flatMap splitByBytes

/-! ### Blocks -/

def reading? : TextSpan → Option String
  | .ruby _ reading => some reading
  | _ => none

def image? : TextSpan → Option (String × String)
  | .image assetId alt => some (assetId, alt)
  | _ => none

def readings (block : TextBlock) : List String := block.spans.filterMap reading?

def images (block : TextBlock) : List (String × String) := block.spans.filterMap image?

def spanText? : TextSpan → Option String
  | .text text _ _ _ => some text
  | .ruby text _ => some text
  | .image _ _ => none

/-- The emphasis that a block has: bold, italic and underline. -/
def emphasis (block : TextBlock) : Bool × Bool × Bool :=
  (block.spans.any fun | .text _ bold _ _ => bold | _ => false,
   block.spans.any fun | .text _ _ italic _ => italic | _ => false,
   block.spans.any fun | .text _ _ _ underline => underline | _ => false)

/-- One round of the loop over the spans in `validate_block`.  `images` are those of the source that no
span has taken yet, and stay with what is left of them. -/
def validateSpan (allows : Bool × Bool × Bool) (span : OutputSpan) (images : List (String × String)) :
    Option (TextSpan × List (String × String)) :=
  if span.text.toList.any fun c => Rust.isControl c && c != '\n' then none
  else if span.kind = "text" then
    if span.reading = "" && span.assetId = "" && (!span.bold || allows.1) &&
        (!span.italic || allows.2.1) && (!span.underline || allows.2.2) then
      some (.text span.text span.bold span.italic span.underline, images)
    else none
  else if span.kind = "ruby" then
    if span.assetId = "" && !span.bold && !span.italic && !span.underline then
      some (.ruby span.text span.reading, images)
    else none
  else if span.kind = "image" then
    if span.text = "" && span.reading = "" && !span.bold && !span.italic && !span.underline then
      match images with
      | [] => none
      | (assetId, alt) :: images =>
        if span.assetId = assetId then some (.image span.assetId alt, images) else none
    else none
  else none

/-- The loop over the spans in `validate_block`, with the images that are left after it. -/
def validateSpans (allows : Bool × Bool × Bool) :
    List OutputSpan → List (String × String) → Option (List TextSpan × List (String × String))
  | [], images => some ([], images)
  | span :: spans, images => do
    let (span, images) ← validateSpan allows span images
    let (spans, images) ← validateSpans allows spans images
    return (span :: spans, images)

def validateBlock (output : OutputBlock) (source : TextBlock) :
    Except TextTranslationError (List TextSpan) :=
  if output.id ≠ source.id || output.spans.isEmpty || 500 < output.spans.length then .error protocol
  else
    match validateSpans (emphasis source) output.spans (images source) with
    | none => .error protocol
    | some (spans, rest) =>
      if spans.filterMap reading? ≠ readings source || !rest.isEmpty ||
          Rust.isBlank ((spans.filterMap spanText?).foldl (· ++ ·) "") then
        .error protocol
      else .ok spans

/-! ### Additions -/

variable {P V : Type} [DecidableEq P] [DecidableEq V]

/-- The closure `evidence` of `decode_additions`; `chapterMap` is the map of the tools. -/
def decodeEvidence (chapterMap : String → Option (ChapterRef V)) (raw : OutputEvidence) :
    Except TextTranslationError (ContextEvidence (ChapterRef V)) :=
  match chapterMap raw.chapterId with
  | none => .error protocol
  | some chapter =>
    .ok { chapter := chapter, segmentId := raw.segmentId, quote := raw.quote,
          imageObservation := none }

def decodeAdditions (terms : List OutputTerm) (facts : List OutputFact)
    (chapterMap : String → Option (ChapterRef V)) :
    Except TextTranslationError (ContextAdditions (ChapterRef V)) := do
  let terms ← terms.mapM fun term => do
    let forms ← term.forms.mapM fun form => do
      return { source := form.source, target := form.target,
               evidence := ← decodeEvidence chapterMap form.evidence }
    return { source := term.source, target := term.target, forms := forms,
             evidence := ← decodeEvidence chapterMap term.evidence }
  let facts ← facts.mapM fun fact => do
    return { subject := fact.subject, attributeName := fact.attributeName, value := fact.value,
             evidence := ← decodeEvidence chapterMap fact.evidence }
  return { terms := terms, facts := facts }

/-! ### Translation -/

/-- The chapters that the tools may read, as `WorkContextTools::new` checks and keeps them. -/
def chapterMap (valid : ChapterRef V → Bool) (selected : ChapterRef V) (chapters : List (ChapterRef V)) :
    Except TextTranslationError (String → Option (ChapterRef V)) :=
  if valid selected && chapters.all (fun chapter => valid chapter && chapter.variant = selected.variant) &&
      (chapters.map ChapterRef.id).Nodup && (chapters.map ChapterRef.id).contains selected.id then
    .ok fun id => chapters.find? fun chapter => chapter.id = id
  else .error protocol

def checkedAdd (total count : ℕ) : Except TextTranslationError ℕ :=
  if total + count < 2 ^ 64 then .ok (total + count) else .error protocol

/-- The usage with that of an answer, if it reports one. -/
def TokenUsage.add (usage : TokenUsage) : Option TokenUsage → Except TextTranslationError TokenUsage
  | none => .ok usage
  | some batch => do
    return { totalTokens := ← checkedAdd usage.totalTokens batch.totalTokens
             inputTokens := ← checkedAdd usage.inputTokens batch.inputTokens
             cachedInputTokens := ← checkedAdd usage.cachedInputTokens batch.cachedInputTokens
             cacheWriteInputTokens :=
               ← checkedAdd usage.cacheWriteInputTokens batch.cacheWriteInputTokens
             outputTokens := ← checkedAdd usage.outputTokens batch.outputTokens
             reasoningOutputTokens :=
               ← checkedAdd usage.reasoningOutputTokens batch.reasoningOutputTokens }

/-- The variables of `translate_chapter`; `requests` are the prompts sent so far. -/
structure Session (V : Type) where
  translated : TextChapter V
  learned : TranslationContext (ChapterRef V)
  additions : ContextAdditions (ChapterRef V)
  usage : TokenUsage
  evidence : List (EvidenceSegment (ChapterRef V))
  requests : List (Request (ChapterRef V))

/-- What a translation is given besides the original. -/
structure Translator (P V : Type) where
  references : References P (ChapterRef V)
  chapters : List (ChapterRef V)
  context : TranslationContext (ChapterRef V)
  options : TextTranslationOptions
  provider : TextTranslationProvider
  complete : List (Request (ChapterRef V)) → Request (ChapterRef V) →
    Except TextTranslationError (Completion (ChapterRef V))

def selectModel (provider : TextTranslationProvider) (options : TextTranslationOptions) :
    Except TextTranslationError (String × String) :=
  match provider with
  | .codex resolveSelection =>
    match options.model, options.effort with
    | some model, some effort => .ok (model, effort)
    | model, effort => resolveSelection model effort
  | .openRouter model effort =>
    if options.model.any (· ≠ model) || options.effort.any (· ≠ effort) then
      .error (.openRouter .configuration)
    else .ok (model, effort)

def checkModel (provider : TextTranslationProvider) (model effort : String)
    (completion : Completion (ChapterRef V)) : Except TextTranslationError Unit :=
  match provider with
  | .codex _ =>
    if completion.model ≠ model || completion.effort ≠ effort then
      .error (.codex .modelUnavailable)
    else .ok ()
  | .openRouter _ _ => .ok ()

/-- One round of the loop over the blocks of an answer. -/
def storeBlock (original : TextChapter V) (session : Session V)
    (entry : OutputBlock × TextBlock × ℕ) : Except TextTranslationError (Session V) := do
  let (output, source, index) := entry
  let spans ← validateBlock output source
  return { session with
    translated := { session.translated with
      blocks := session.translated.blocks.modify index fun block => { block with spans := spans } }
    evidence := session.evidence ++
      [{ chapter := original.reference, id := source.id, text := source.plainText,
         imageObservation := none }] }

/-- One round of the loop over the chunks. -/
def translateChunk (job : Translator P V) (original : TextChapter V)
    (chapterMap : String → Option (ChapterRef V)) (model effort : String) (session : Session V)
    (chunk : List (TextBlock × ℕ)) : Except TextTranslationError (Session V) := do
  let request : Request (ChapterRef V) :=
    { targetLanguage := job.options.targetLanguage, chapterId := original.reference.id,
      context := session.learned, blocks := chunk.map Prod.fst, chapterCount := job.chapters.length }
  let completion ← job.complete session.requests request
  checkModel job.provider model effort completion
  let usage ← session.usage.add completion.usage
  let session := { session with
    usage := usage
    evidence := session.evidence ++ completion.segments
    requests := session.requests ++ [request] }
  match completion.value with
  | none => .error protocol
  | some response =>
    if response.blocks.length ≠ chunk.length || 40 < response.terms.length ||
        40 < response.facts.length then
      .error protocol
    else do
      let session ← (response.blocks.zip chunk).foldlM (storeBlock original) session
      let fresh ← decodeAdditions response.terms response.facts chapterMap
      match session.learned.apply job.references (job.references.publication original.reference) fresh
          session.evidence with
      | (.error _, _) => .error protocol
      | (.ok _, learned) =>
        return { session with
          learned := learned
          additions := { terms := session.additions.terms ++ fresh.terms
                         facts := session.additions.facts ++ fresh.facts } }

/-- `translate_chapter`: the translation, and the prompts that were sent for it. -/
def translateChapter (job : Translator P V) (original : TextChapter V) :
    Except TextTranslationError (TextTranslation V × List (Request (ChapterRef V))) := do
  (original.validate job.references.validate).mapError fun _ => protocol
  if !(["ru", "en"].contains job.options.targetLanguage) then
    .error (.codex (.tool "Target language is invalid"))
  else do
    (job.context.validate job.references
      (job.references.publication original.reference)).mapError fun _ => protocol
    let (model, effort) ← selectModel job.provider job.options
    let chapterMap ← chapterMap job.references.validate original.reference job.chapters
    let session ← (chunks original).foldlM (translateChunk job original chapterMap model effort)
      { translated := original, learned := job.context, additions := ⟨[], []⟩,
        usage := ⟨0, 0, 0, 0, 0, 0⟩, evidence := [], requests := [] }
    (session.translated.validate job.references.validate).mapError fun _ => protocol
    return ({ chapter := session.translated, additions := session.additions,
              evidence := session.evidence, model := model, effort := effort,
              usage := session.usage }, session.requests)

/-! ### Restoring -/

def restores (source output : TextBlock) : Bool :=
  output.id = source.id && output.kind = source.kind && images source = images output

def restoreCached (valid : ChapterRef V → Bool) (original translated : TextChapter V) :
    Except CodexError (TextChapter V) := do
  (original.validate valid).mapError fun _ => CodexError.protocol
  if translated.reference ≠ original.reference ||
      translated.blocks.length ≠ original.blocks.length then
    .error .protocol
  else if (original.blocks.zip translated.blocks).any fun pair => !restores pair.1 pair.2 then
    .error .protocol
  else do
    let translated :=
      { translated with assets := original.assets, entryAnchor := original.entryAnchor }
    (translated.validate valid).mapError fun _ => CodexError.protocol
    return translated

end Qbutt.Translation
