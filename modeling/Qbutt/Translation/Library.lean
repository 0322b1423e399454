import Qbutt.Algorithm.Interruptible
import Qbutt.Algorithm.Transition
import Qbutt.Translation.Context

/-!
# The translations of a library

What the library stores of translations, and the calls that change it.  A call is a program over a
connection to the database: a transaction works on a copy of the tables, which the commit puts in
their place.  Since a transaction takes the write lock first, and nothing is read before, concurrent
calls are calls one after the other.  The values of `is_current` at its calls are arguments.
-/

namespace Qbutt.Translation

/-- `LibraryError`, as far as translations report it. -/
inductive LibraryError where
  | sqlite
  | corruptEntry (text : String)
  | invalidEntry (text : String)
  | cancelled
  | credentials (text : String)

def maxCachedBytes : ℕ := 4 * 1024 * 1024

def maxCachedImageBytes : ℕ := 16 * 1024 * 1024

def pngSignature : List UInt8 := [0x89, 0x50, 0x4e, 0x47, 0x0d, 0x0a, 0x1a, 0x0a]

def canonicalLanguage (value : String) : Bool :=
  (Rust.byteLength value = 2 || Rust.byteLength value = 5) &&
    value.toList.zipIdx.all fun (c, index) =>
      if index = 2 then c == '-' else 'a' ≤ c && c ≤ 'z'

def validSelectionFields (language model effort : String) : Bool :=
  canonicalLanguage language && !model.isEmpty && Rust.byteLength model ≤ 128 &&
    !model.toList.any Rust.isControl && !effort.isEmpty && Rust.byteLength effort ≤ 32 &&
    !effort.toList.any Rust.isControl

/-- Report an invalid entry unless the condition holds. -/
def require (condition : Bool) (text : String) : Except LibraryError Unit :=
  if condition then .ok () else .error (.invalidEntry text)

/-! ### Keys, selections and settings -/

structure TranslationCacheKey (C : Type) where
  chapter : C
  page : Option UInt32
  targetLanguage : String
  originalDigest : String
  provider : String
  model : String
  effort : String
  pipeline : UInt32
  deriving DecidableEq

structure TranslationSelection where
  targetLanguage : String
  model : String
  effort : String
  explicit : Bool

def TranslationSelection.validate (selection : TranslationSelection) : Except LibraryError Unit :=
  require (validSelectionFields selection.targetLanguage selection.model selection.effort)
    "translation selection is invalid"

variable {P C : Type} [DecidableEq P] [DecidableEq C]

def TranslationCacheKey.validate (R : References P C) (key : TranslationCacheKey C) :
    Except LibraryError Unit := do
  require (R.validate key.chapter) "translation chapter is invalid"
  require (validSelectionFields key.targetLanguage key.model key.effort &&
      Rust.byteLength key.originalDigest = 64 &&
      (key.originalDigest.toList.all fun c => ('0' ≤ c && c ≤ '9') || ('a' ≤ c && c ≤ 'f')) &&
      !key.provider.isEmpty && Rust.byteLength key.provider ≤ 32 &&
      !key.provider.toList.any Rust.isControl && key.pipeline ≠ 0)
    "translation cache key is invalid"

inductive TextTranslationService where
  | codex
  | openRouter
  deriving DecidableEq

structure OpenRouterSettings where
  model : String
  effort : String
  deriving DecidableEq

def OpenRouterSettings.default : OpenRouterSettings := ⟨"", "default"⟩

/-- `OpenRouterSettings::valid`; the model is an author and a name, with one slash between them. -/
def OpenRouterSettings.valid (settings : OpenRouterSettings) : Bool :=
  let author := settings.model.toList.takeWhile (· ≠ '/')
  let rest := settings.model.toList.dropWhile (· ≠ '/')
  !rest.isEmpty && !author.isEmpty && !rest.tail.isEmpty && !rest.tail.contains '/' &&
    settings.model ≠ "openrouter/auto" && Rust.byteLength settings.model ≤ 128 &&
    (settings.model.toList.all fun c =>
      ('a' ≤ c && c ≤ 'z') || ('A' ≤ c && c ≤ 'Z') || ('0' ≤ c && c ≤ '9') ||
        "/._-:".toList.contains c) &&
    ["default", "none", "minimal", "low", "medium", "high", "xhigh", "max"].contains settings.effort

def settingsValid (service : TextTranslationService) (openrouter : OpenRouterSettings) : Bool :=
  openrouter.valid || (service = .codex && openrouter = .default)

/-! ### Tables -/

structure ContextRow (C : Type) where
  revision : ℤ
  context : TranslationContext C

structure SelectionRow where
  model : String
  effort : String
  explicit : Bool

structure ServiceRow where
  service : TextTranslationService
  openrouter : OpenRouterSettings
  apiKey : Option (List UInt8)

/-- The tables of the library that hold translations. -/
structure Tables (P C : Type) where
  contexts : P × String → Option (ContextRow C)
  contents : TranslationCacheKey C → Option String
  images : TranslationCacheKey C → Option (List UInt8)
  selections : String → Option SelectionRow
  service : ServiceRow

def readContext (R : References P C) (tables : Tables P C) (publication : P) (language : String) :
    Except LibraryError (TranslationContext C) :=
  match tables.contexts (publication, language) with
  | none => .ok ⟨0, [], []⟩
  | some row =>
    if row.revision < 0 || row.context.revision ≠ row.revision ||
        row.context.validate R publication ≠ .ok () then
      .error (.corruptEntry "translation context is invalid")
    else .ok row.context

def readSelection (tables : Tables P C) (language : String) :
    Except LibraryError (Option TranslationSelection) :=
  match tables.selections language with
  | none => .ok none
  | some row =>
    if validSelectionFields language row.model row.effort then
      .ok (some ⟨language, row.model, row.effort, row.explicit⟩)
    else .error (.corruptEntry "translation selection is invalid")

def readSettings (tables : Tables P C) : Except LibraryError ServiceRow :=
  if settingsValid tables.service.service tables.service.openrouter then .ok tables.service
  else .error (.corruptEntry "text translation service settings are invalid")

/-! ### Transactions -/

/-- The tables in the database, and those that a transaction works on. -/
structure Connection (P C : Type) where
  committed : Tables P C
  pending : Tables P C

def query {α : Type} (read : Tables P C → Except LibraryError α) :
    Prog LibraryError (Connection P C) α := do
  Prog.attempt .sqlite
  let connection ← Prog.get
  Prog.ofExcept (read connection.pending)

def execute (change : Tables P C → Tables P C) : Prog LibraryError (Connection P C) Unit :=
  Prog.effect .sqlite fun connection => { connection with pending := change connection.pending }

/-- An immediate transaction; without its commit it is rolled back. -/
def transaction {α : Type} (body : Prog LibraryError (Connection P C) α) :
    Prog LibraryError (Connection P C) α := do
  Prog.effect .sqlite fun connection => ⟨connection.committed, connection.committed⟩
  let result ← body
  Prog.effect .sqlite fun connection => ⟨connection.pending, connection.pending⟩
  return result

/-! ### Calls -/

def writeSelection (selection : TranslationSelection) :
    Prog LibraryError (Connection P C) Unit := do
  Prog.ofExcept selection.validate
  let saved ← query fun tables => readSelection tables selection.targetLanguage
  if (saved.any fun saved => saved.explicit) && !selection.explicit then
    Prog.check
      (saved.all fun saved => saved.model = selection.model && saved.effort = selection.effort)
      (.invalidEntry "explicit translation selection changed during the job")
  else
    execute fun tables =>
      { tables with
        selections := Function.update tables.selections selection.targetLanguage
          (some ⟨selection.model, selection.effort, selection.explicit⟩) }

def acceptProvider (key : TranslationCacheKey C) : Prog LibraryError (Connection P C) Unit :=
  if key.provider = "codex" || (key.provider = "codex-imagegen" && key.page.isSome) then
    writeSelection ⟨key.targetLanguage, key.model, key.effort, false⟩
  else if key.provider = "openrouter" && key.page.isNone then do
    let settings ← query readSettings
    Prog.check (settings.service = .openRouter && settings.openrouter.model = key.model &&
        settings.openrouter.effort = key.effort)
      (.invalidEntry "OpenRouter translation settings changed during the job")
  else Prog.throw (.invalidEntry "translation provider is invalid")

def acceptTranslationContext (R : References P C) (key : TranslationCacheKey C) (expected : ℕ)
    (additions : ContextAdditions C) (evidence : List (EvidenceSegment C)) :
    Prog LibraryError (Connection P C) (TranslationContext C) := do
  Prog.check
    (!evidence.any fun segment => segment.imageObservation.any fun image =>
      segment.chapter ≠ key.chapter || some image.page ≠ key.page ||
        image.originalDigest ≠ key.originalDigest)
    (.invalidEntry "image evidence does not match the original page")
  let publication := R.publication key.chapter
  let context ← query fun tables => readContext R tables publication key.targetLanguage
  Prog.check (context.revision = expected)
    (.invalidEntry "translation context changed during the job")
  let (result, context) := context.apply R publication additions evidence
  let changed ← Prog.ofExcept (result.mapError .invalidEntry)
  Prog.when changed do
    Prog.check (context.revision < 2 ^ 63) (.invalidEntry "translation context revision overflow")
    execute fun tables =>
      { tables with
        contexts := Function.update tables.contexts (publication, key.targetLanguage)
          (some ⟨context.revision, context⟩) }
  acceptProvider key
  return context

/-- The values of `is_current` at the start, with the write lock, and before the commit. -/
structure Current where
  started : Bool
  locked : Bool
  finished : Bool

/-- What the two ways to save a translation have in common: the check of what is saved, and the
statement that saves it. -/
def saveOverlay (R : References P C) (key : TranslationCacheKey C) (expected : ℕ)
    (valid : Except LibraryError Unit) (overlay : Tables P C → Tables P C)
    (additions : ContextAdditions C) (evidence : List (EvidenceSegment C)) (current : Current) :
    Prog LibraryError (Connection P C) (TranslationContext C) := do
  Prog.check current.started .cancelled
  Prog.ofExcept (key.validate R)
  Prog.ofExcept valid
  transaction do
    Prog.check current.locked .cancelled
    let context ← acceptTranslationContext R key expected additions evidence
    execute overlay
    Prog.check current.finished .cancelled
    return context

def saveTranslation (R : References P C) (key : TranslationCacheKey C) (expected : ℕ)
    (content : String) (additions : ContextAdditions C) (evidence : List (EvidenceSegment C))
    (current : Current) : Prog LibraryError (Connection P C) (TranslationContext C) :=
  saveOverlay R key expected
    (require (Rust.byteLength content ≤ maxCachedBytes) "translated content exceeds its limit")
    (fun tables => { tables with contents := Function.update tables.contents key (some content) })
    additions evidence current

def saveImageTranslation (R : References P C) (key : TranslationCacheKey C) (expected : ℕ)
    (png : List UInt8) (additions : ContextAdditions C) (evidence : List (EvidenceSegment C))
    (current : Current) : Prog LibraryError (Connection P C) (TranslationContext C) :=
  saveOverlay R key expected
    (require (png.length ≤ maxCachedImageBytes && pngSignature.isPrefixOf png)
      "translation image is not a bounded PNG")
    (fun tables => { tables with images := Function.update tables.images key (some png) })
    additions evidence current

def saveTranslationSelection (selection : TranslationSelection) :
    Prog LibraryError (Connection P C) Unit := do
  Prog.ofExcept selection.validate
  transaction (writeSelection selection)

def resetTranslationSelection (language : String) : Prog LibraryError (Connection P C) Unit := do
  Prog.ofExcept (require (canonicalLanguage language) "translation language is invalid")
  transaction <| execute fun tables =>
    { tables with
      selections := Function.update tables.selections language
        ((tables.selections language).map fun row => { row with explicit := false }) }

/-- `configure_text_translation`; `protect` is what `secrets::protect` makes of a key. -/
def configureTextTranslation (protect : String → Option (List UInt8))
    (service : TextTranslationService) (openrouter : OpenRouterSettings) (apiKey : Option String) :
    Prog LibraryError (Connection P C) ServiceRow := do
  Prog.check (settingsValid service openrouter)
    (.invalidEntry "OpenRouter model or reasoning effort is invalid")
  let encrypted ←
    (match apiKey with
    | none => pure none
    | some key =>
      if key.isEmpty then pure none
      else
        match protect key with
        | some bytes => pure (some bytes)
        | none => Prog.throw (.credentials "Windows could not protect the API key"))
  transaction do
    execute fun tables =>
      { tables with
        service := ⟨service, openrouter, if apiKey.isSome then encrypted else tables.service.apiKey⟩ }
    query readSettings

/-! ### Runs -/

/-- The calls, with what happens to their statements. -/
inductive Call (C : Type) where
  | saveTranslation (key : TranslationCacheKey C) (expected : ℕ) (content : String)
    (additions : ContextAdditions C) (evidence : List (EvidenceSegment C)) (current : Current)
  | saveImageTranslation (key : TranslationCacheKey C) (expected : ℕ) (png : List UInt8)
    (additions : ContextAdditions C) (evidence : List (EvidenceSegment C)) (current : Current)
  | saveTranslationSelection (selection : TranslationSelection)
  | resetTranslationSelection (language : String)
  | configureTextTranslation (service : TextTranslationService) (openrouter : OpenRouterSettings)
    (apiKey : Option String)

def after {α : Type} (tables : Tables P C) (program : Prog LibraryError (Connection P C) α)
    (script : List Fate) : Tables P C :=
  (program ⟨⟨tables, tables⟩, script, []⟩).2.state.committed

def call (R : References P C) (protect : String → Option (List UInt8)) (tables : Tables P C)
    (script : List Fate) : Call C → Tables P C
  | .saveTranslation key expected content additions evidence current =>
    after tables (saveTranslation R key expected content additions evidence current) script
  | .saveImageTranslation key expected png additions evidence current =>
    after tables (saveImageTranslation R key expected png additions evidence current) script
  | .saveTranslationSelection selection =>
    after tables (saveTranslationSelection selection) script
  | .resetTranslationSelection language =>
    after tables (resetTranslationSelection language) script
  | .configureTextTranslation service openrouter apiKey =>
    after tables (configureTextTranslation protect service openrouter apiKey) script

def Tables.new : Tables P C where
  contexts _ := none
  contents _ := none
  images _ := none
  selections _ := none
  service := ⟨.codex, .default, none⟩

def library (R : References P C) (protect : String → Option (List UInt8)) :
    System (Tables P C) (List Fate × Call C) where
  initial tables := tables = .new
  step tables label := some (call R protect tables label.1 label.2)

end Qbutt.Translation
