import Qbutt.Association.Groups
import Qbutt.Rust.Checks

/-!
# Entries of the library

A saved work: the group of its publications, the preferences, and what was opened and read of it.  The
syntax of references and the check of scroll offsets are parameters, since they are only asked.
-/

namespace Qbutt.Library

open Qbutt.Content Qbutt.Association
open Qbutt.Rust (Unicode isBlank byteLength isControl ensure validateDistinct)

/-- What the library asks of texts, references and scroll offsets. -/
structure Checks (F : Type) where
  unicode : Unicode
  publication : PublicationRef → Bool
  variant : VariantRef → Bool
  chapter : ChapterRef → Bool
  offset : F → Bool

structure VariantFilters where
  episode : Option String
  translation : Option String
  source : Option Source
  language : Option String
  player : Option String
  transport : Option Transport
  query : Option String
  deriving DecidableEq

structure VariantPreferences where
  selected : Option VariantRef
  filters : VariantFilters
  deriving DecidableEq

/-- `VariantFilters::default`. -/
def VariantFilters.none : VariantFilters :=
  { episode := .none, translation := .none, source := .none, language := .none, player := .none,
    transport := .none, query := .none }

/-- `VariantPreferences::default`. -/
def VariantPreferences.none : VariantPreferences := { selected := .none, filters := .none }

structure LastOpened where
  variant : VariantRef
  atUnixMillis : ℤ
  deriving DecidableEq

/-- `ReaderPosition`; offsets are of any type. -/
inductive ReaderPosition (F : Type) where
  | page (page : ℕ) (scrollOffset : F)
  | text (blockId : String) (offset : F)
  deriving DecidableEq

structure ReaderProgress (F : Type) where
  chapter : ChapterRef
  position : ReaderPosition F
  deriving DecidableEq

structure LibraryEntry (F : Type) where
  group : WorkGroup
  preferences : VariantPreferences
  favorite : Bool
  lastOpened : Option LastOpened
  readerProgress : Option (ReaderProgress F)
  deriving DecidableEq

/-! ### Works -/

def publicUrl (url : Url) : Bool :=
  (url.scheme = "http" || url.scheme = "https") && url.host.isSome && url.username = "" &&
    url.password.isNone && url.query.isNone && url.fragment.isNone

def validPublicationUrl (work : Work) : Bool :=
  let bare := work.url.port.isNone && work.url.username = "" && work.url.password.isNone &&
    work.url.fragment.isNone
  match work.reference.source with
  | .localBook =>
    work.url.scheme = "qbutt-local" && work.url.host = some work.reference.id && bare &&
      work.url.path = "" && work.url.query.isNone
  | .nhentai => work.url.text = "https://nhentai.net/g/" ++ work.reference.id ++ "/"
  | .ruTracker =>
    work.url.scheme = "https" && work.url.host = some "rutracker.org" && bare &&
      work.url.path = "/forum/viewtopic.php" && work.url.query = some ("t=" ++ work.reference.id)
  | .nnmClub =>
    work.url.scheme = "https" && work.url.host = some "nnmclub.to" && bare &&
      work.url.path = "/forum/viewtopic.php" && work.url.query = some ("t=" ++ work.reference.id)
  | _ => publicUrl work.url

/-- Whether `PublicationNote::source_url` gives the address of a note. -/
def validNoteUrl (publication url : Url) : Bool :=
  url.scheme = "https" && publication.scheme = "https" && url.host = publication.host &&
    url.port = publication.port && url.username = "" && url.password.isNone && url.query.isNone &&
    byteLength url.text ≤ 4096

/-- The test of a note in `validate_work`. -/
def validNote (publication : Url) (note : PublicationNote) : Bool :=
  !isBlank note.text && byteLength note.text ≤ 32 * 1024 &&
    (note.author.all fun author => !isBlank author && byteLength author ≤ 512 &&
      !author.toList.any isControl) &&
    note.url.all (validNoteUrl publication)

def consistent (source : Source) (variant : Variant) : Bool :=
  match source, variant.reference.selector with
  | .aniLiberty, .torrent _ => variant.transport = .torrent
  | .aniLiberty, _ => variant.transport = .video
  | .yummyAnime, .yummyAnimeVideo .. => variant.transport = .video
  | .aniTokyo, .aniTokyoVideo .. => variant.transport = .video
  | .animeSpirit, .animeSpiritKodik .. => variant.transport = .video
  | .rutube, .rutubeVideo => variant.transport = .video
  | .vkVideo, .vkVideo => variant.transport = .video
  | .royalRoad, .originalText | .kakuyomu, .originalText | .syosetu, .originalText
  | .estar, .originalText | .localBook, .originalText => variant.transport = .text
  | .localBook, .localPages => variant.transport = .manga
  | .mangaDex, .mangaTranslation .. | .weebCentral, .weebCentralPages
  | .nhentai, .nhentaiPages | .mangaLib, .libTranslation _ => variant.transport = .manga
  | .ranobeLib, .libTranslation _ | .ranobeHub, .ranobeHubTranslation _ => variant.transport = .text
  | .ruTor, .torrentHash infoHash | .ruTracker, .torrentHash infoHash
  | .nnmClub, .torrentHash infoHash | .nyaa, .torrentHash infoHash | .fitGirl, .torrentHash infoHash
  | .onlineFix, .torrentHash infoHash | .freeTP, .torrentHash infoHash
  | .byRut, .torrentHash infoHash | .igruha, .torrentHash infoHash
  | .theLastGame, .torrentHash infoHash | .limeTorrents, .torrentHash infoHash
  | .x1337, .torrentHash infoHash =>
    variant.transport = .torrent && variant.infoHash = some infoHash
  | .dodi, .dodiTorrent _ => variant.transport = .torrent && variant.infoHash.isNone
  | _, _ => false

variable {F : Type} (C : Checks F)

def validateVariants (work : Work) : List VariantRef → List Variant → Except String Unit
  | _, [] => .ok ()
  | known, variant :: variants => do
    ensure (variant.reference.publication = work.reference)
      "a variant belongs to another publication"
    ensure (C.variant variant.reference) "an exact variant selector is invalid"
    ensure (!known.contains variant.reference) "the work contains duplicate exact variants"
    ensure (consistent work.reference.source variant)
      "the variant transport does not match its source"
    validateVariants work (variant.reference :: known) variants

def validateWork (work : Work) : Except String Unit := do
  ensure (C.publication work.reference) "the publication reference is invalid"
  ensure (!isBlank work.title) "the work title is missing"
  ensure (work.reference.source.categories.contains work.category)
    "the work category does not match its source"
  ensure (validPublicationUrl work && work.cover.all publicUrl) "the work contains a nonpublic URL"
  ensure (work.notes.length ≤ 100 && work.notes.all (validNote work.url))
    "the publication contains invalid source notes"
  validateVariants C work [] work.variants

/-! ### Validation -/

def hasVariant (group : WorkGroup) (reference : VariantRef) : Bool :=
  group.publications.any fun work =>
    work.variants.any fun variant => variant.reference = reference

def transportOf (group : WorkGroup) (reference : VariantRef) : Option Transport :=
  ((group.publications.flatMap Work.variants).find? fun variant =>
    variant.reference = reference).map Variant.transport

/-- The checks of the saved position in `LibraryEntry::validate`. -/
def validatePosition (group : WorkGroup) (progress : ReaderProgress F) : Except String Unit := do
  ensure (C.chapter progress.chapter) "the saved chapter reference is invalid"
  match progress.position with
  | .page page scrollOffset =>
    ensure (transportOf group progress.chapter.variant = some .manga)
      "the saved page position does not belong to manga"
    ensure (page ≤ 2 ^ 31 - 1) "the saved page index exceeds the reader limit"
    ensure (C.offset scrollOffset) "the saved scroll position is invalid"
  | .text blockId offset =>
    ensure (transportOf group progress.chapter.variant = some .text)
      "the saved text position does not belong to text"
    ensure (blockId ≠ "" && byteLength blockId ≤ 128 && !blockId.toList.any isControl)
      "the saved text anchor is invalid"
    ensure (C.offset offset) "the saved scroll position is invalid"

/-- The checks of a reference of the group in `LibraryEntry::validate`. -/
def validateReference (group : WorkGroup) (catalog : Work) (reference : PublicationRef) :
    Except String Unit := do
  ensure (C.publication reference) "an associated publication reference is invalid"
  ensure ((group.publication reference).isSome ||
      reference.source.categories.contains catalog.category)
    "an associated source does not support the work category"

/-- The checks of a publication of the group in `LibraryEntry::validate`. -/
def validatePublication (group : WorkGroup) (work : Work) : Except String Unit := do
  validateWork C work
  ensure (group.references.contains work.reference)
    "an associated publication is missing or repeated"

/-- The check of the selected variant in `LibraryEntry::validate`. -/
def validateSelected (group : WorkGroup) (selected : VariantRef) : Except String Unit := do
  ensure (C.variant selected) "the selected variant reference is invalid"
  ensure (group.references.contains selected.publication)
    "the selected variant belongs to another work group"

namespace LibraryEntry

/-- The variants that were opened and read. -/
def exactVariants (entry : LibraryEntry F) : List VariantRef :=
  (entry.lastOpened.map LastOpened.variant).toList ++
    (entry.readerProgress.map fun progress => progress.chapter.variant).toList

def validate (entry : LibraryEntry F) : Except String Unit := do
  ensure (!entry.group.references.isEmpty && entry.group.references.contains entry.group.anchor)
    "the work group has no resolved anchor publication"
  match entry.group.catalogWork with
  | none => .error "the work group has no resolved anchor publication"
  | some catalog => do
    ensure (entry.group.isConfirmed C.unicode)
      "the resolved publications lack a confirmed association"
    validateDistinct (validateReference C entry.group catalog) id
      "an associated publication reference is repeated" [] entry.group.references
    validateDistinct (validatePublication C entry.group) Work.reference
      "an associated publication is missing or repeated" [] entry.group.publications
    entry.preferences.selected.toList.forM (validateSelected C entry.group)
    entry.exactVariants.forM fun selected =>
      ensure (hasVariant entry.group selected) "the exact selected variant is absent from the work"
    ensure (entry.lastOpened.all fun opened => 0 ≤ opened.atUnixMillis)
      "the history timestamp is invalid"
    entry.readerProgress.toList.forM (validatePosition C entry.group)

end LibraryEntry

/-! ### Reconciliation -/

/-- `refresh_publication`: the publication afterwards. -/
def refreshPublication (previous work : Work) : Work :=
  let refreshed :=
    if work.needsInspection then
      { work with
        notes := previous.notes
        description := work.description <|> previous.description
        cover := work.cover <|> previous.cover
        year := work.year <|> previous.year
        aliases := previous.aliases.foldl (fun aliases name =>
          if aliases.contains name then aliases else aliases ++ [name]) work.aliases
        identifiers := previous.identifiers.foldl (fun identifiers entry =>
          if (identifiers.lookup entry.1).isSome then identifiers else identifiers ++ [entry])
            work.identifiers }
    else work
  { refreshed with
    variants := refreshed.variants ++ previous.variants.filter fun variant =>
      !(refreshed.variants.map Variant.reference).contains variant.reference }

/-- One round of the loop over the publications of the group in `reconcile`. -/
def mergePublication (publications : List Work) (work : Work) : List Work :=
  match publications.findIdx? fun previous => previous.reference = work.reference with
  | some index => publications.modify index fun previous => refreshPublication previous work
  | none => publications ++ [work]

/-- The entry for a group of detached publications, if something of it was selected, opened or read. -/
def detachedEntry (entry : LibraryEntry F) (group : WorkGroup) : Option (LibraryEntry F) :=
  let contains := fun reference : VariantRef => group.references.contains reference.publication
  let selected := entry.preferences.selected.filter contains
  let lastOpened := entry.lastOpened.filter fun opened => contains opened.variant
  let readerProgress := entry.readerProgress.filter fun progress => contains progress.chapter.variant
  let exact := lastOpened.map LastOpened.variant <|>
    (readerProgress.map fun progress => progress.chapter.variant) <|> selected
  exact.map fun exact =>
    { group := { group with anchor := exact.publication }
      preferences :=
        match selected with
        | some selected => { selected := some selected, filters := entry.preferences.filters }
        | none => { selected := some exact, filters := .none }
      favorite := false
      lastOpened := lastOpened
      readerProgress := readerProgress }

variable (U : Unicode)

def detachedEntries (entry : LibraryEntry F) (current : WorkGroup) : List (LibraryEntry F) :=
  let detached := (entry.group.publications.filter fun work =>
    !current.references.contains work.reference).foldl update []
  (groups U detached).filterMap (detachedEntry entry)

/-- `reconcile`: the entry afterwards, and the detached ones. -/
def reconcile (entry : LibraryEntry F) (group : WorkGroup) :
    LibraryEntry F × List (LibraryEntry F) :=
  let contains := fun reference : VariantRef => group.references.contains reference.publication
  let retained := entry.group.publications.filter fun work =>
    group.references.contains work.reference
  ({ entry with
      group := { entry.group with
        references := group.references
        publications := group.publications.foldl mergePublication retained }
      preferences := { entry.preferences with
        selected := entry.preferences.selected.filter contains }
      lastOpened := entry.lastOpened.filter fun opened => contains opened.variant
      readerProgress :=
        entry.readerProgress.filter fun progress => contains progress.chapter.variant },
    detachedEntries U entry group)

end Qbutt.Library

/-!
## The library

The rows of the table `library`, one for each anchor.  Every call is one transaction: it ends with an
error and leaves the rows as they were, or all its writes are kept.  The order of the rows by the time of
their last change is not modelled.
-/

namespace Qbutt.Library

open Qbutt.Content Qbutt.Association

/-- `LibraryError`, as far as these calls report it. -/
inductive LibraryError where
  | sqlite
  | corruptEntry (message : String)
  | invalidEntry (message : String)
  | clock
  deriving DecidableEq

/-- The rows, by the anchors of their works. -/
abbrev Rows (F : Type) := PublicationRef → Option (LibraryEntry F)

variable {F : Type} (C : Checks F)

def readEntry (rows : Rows F) (reference : PublicationRef) :
    Except LibraryError (Option (LibraryEntry F)) :=
  match rows reference with
  | none => .ok none
  | some entry => do
    (entry.validate C).mapError .corruptEntry
    if entry.group.anchor ≠ reference then
      .error (.corruptEntry "the row identity does not match its work")
    else return some entry

def writeEntry (rows : Rows F) (entry : LibraryEntry F) : Except LibraryError (Rows F) := do
  (entry.validate C).mapError .invalidEntry
  return Function.update rows entry.group.anchor (some entry)

def retainOpenedVariant (current previous : WorkGroup) (reference : VariantRef) :
    Except LibraryError WorkGroup :=
  match previous.publication reference.publication with
  | none => .error (.invalidEntry "the detached opened publication is missing")
  | some publication =>
    match current.publications.findIdx? fun work => work.reference = reference.publication with
    | some index =>
      if (current.publications[index]?).any fun work =>
          work.variants.any fun variant => variant.reference = reference then .ok current
      else
        match publication.variants.find? fun variant => variant.reference = reference with
        | none => .error (.invalidEntry "the detached opened variant is missing")
        | some variant =>
          .ok { current with
            publications := current.publications.modify index fun work =>
              { work with variants := work.variants ++ [variant] } }
    | none =>
      .ok { current with
        references :=
          if current.references.contains publication.reference then current.references
          else current.references ++ [publication.reference]
        publications := current.publications ++ [publication] }

def receiveOpened (detached : LibraryEntry F) (saved : LibraryEntry F) :
    Option LastOpened → Except LibraryError (LibraryEntry F)
  | none => .ok saved
  | some opened => do
    let group ← retainOpenedVariant saved.group detached.group opened.variant
    return { saved with group := group, lastOpened := some opened }

def receiveProgress (detached : LibraryEntry F) (saved : LibraryEntry F) :
    Option (ReaderProgress F) → Except LibraryError (LibraryEntry F)
  | none => .ok saved
  | some progress => do
    let group ← retainOpenedVariant saved.group detached.group progress.chapter.variant
    return { saved with group := group, readerProgress := some progress }

def preserveDetachedEntry (rows : Rows F) (detached : LibraryEntry F) :
    Except LibraryError (Rows F) := do
  match ← readEntry C rows detached.group.anchor with
  | none => writeEntry C rows detached
  | some saved =>
    let opened := detached.lastOpened.filter fun opened =>
      saved.lastOpened.all fun saved => saved.atUnixMillis < opened.atUnixMillis
    let progress := detached.readerProgress.filter fun _ => saved.readerProgress.isNone
    if opened.isNone && progress.isNone then return rows
    else do
      let saved ← receiveOpened detached saved opened
      let saved ← receiveProgress detached saved progress
      writeEntry C rows saved

def newEntry (group : WorkGroup) : LibraryEntry F :=
  { group := group, preferences := .none, favorite := false, lastOpened := none,
    readerProgress := none }

/-- `update`: the rows afterwards and the entry; `now` is `now_millis`, unless the clock fails. -/
def updateEntry (rows : Rows F) (now : Option ℤ) (group : WorkGroup)
    (change : LibraryEntry F → ℤ → LibraryEntry F) :
    Except LibraryError (Rows F × LibraryEntry F) := do
  let (entry, detached) := match ← readEntry C rows group.anchor with
    | some entry => reconcile C.unicode entry group
    | none => (newEntry group, [])
  match now with
  | none => .error .clock
  | some timestamp =>
    let entry := change entry timestamp
    let rows ← detached.foldlM (preserveDetachedEntry C) rows
    let rows ← writeEntry C rows entry
    return (rows, entry)

/-- The calls that write. -/
inductive Call (F : Type) where
  | setFavorite (group : WorkGroup) (favorite : Bool)
  | savePreferences (group : WorkGroup) (preferences : VariantPreferences)
  | recordOpened (group : WorkGroup) (variant : VariantRef) (preferences : VariantPreferences)
  | saveReaderProgress (group : WorkGroup) (preferences : VariantPreferences)
      (progress : ReaderProgress F)
  | removeHistory (reference : PublicationRef)

def removeHistory (rows : Rows F) (now : Option ℤ) (reference : PublicationRef) :
    Except LibraryError (Rows F × Option (LibraryEntry F)) := do
  match ← readEntry C rows reference with
  | none => return (rows, none)
  | some entry =>
    let entry := { entry with lastOpened := none }
    match now with
    | none => .error .clock
    | some _ =>
      let rows ← writeEntry C rows entry
      return (rows, some entry)

/-- What a call computes before its transaction is committed. -/
def Call.run (rows : Rows F) (now : Option ℤ) :
    Call F → Except LibraryError (Rows F × Option (LibraryEntry F))
  | setFavorite group favorite =>
    (updateEntry C rows now group fun entry _ => { entry with favorite := favorite }).map
      (Prod.map id some)
  | savePreferences group preferences =>
    (updateEntry C rows now group fun entry _ => { entry with preferences := preferences }).map
      (Prod.map id some)
  | recordOpened group variant preferences =>
    (updateEntry C rows now group fun entry timestamp =>
      { entry with
        preferences := preferences
        lastOpened := some { variant := variant, atUnixMillis := timestamp } }).map (Prod.map id some)
  | saveReaderProgress group preferences progress =>
    (updateEntry C rows now group fun entry timestamp =>
      { entry with
        preferences := preferences
        lastOpened := some { variant := progress.chapter.variant, atUnixMillis := timestamp }
        readerProgress := some progress }).map (Prod.map id some)
  | removeHistory reference => Library.removeHistory C rows now reference

/-- A call: its result, and the rows after it.  `committed` says whether the statements of its
transaction succeed. -/
def call (rows : Rows F) (now : Option ℤ) (committed : Bool) (c : Call F) :
    Except LibraryError (Option (LibraryEntry F)) × Rows F :=
  if !committed then (.error .sqlite, rows)
  else
    match c.run C rows now with
    | .ok (rows', result) => (.ok result, rows')
    | .error error => (.error error, rows)

end Qbutt.Library
