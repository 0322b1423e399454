import Qbutt.Content.Work
import Qbutt.Rust.Str

/-!
# Seasons and qualifiers of series

Explicit season labels of a title, and the parts, cours and cuts that a publication names.
-/

namespace Qbutt.Association

open Qbutt.Content Qbutt.Rust

variable (U : Unicode)

def words (title : List Char) : List (List Char) :=
  splitWords (fun c => !U.isAlphanumeric c) (U.textToLowercase title)

def isWord (word : List Char) (candidates : List String) : Bool :=
  candidates.any fun candidate => word = candidate.toList

def seasonPair (first second : List Char) : Option ℕ :=
  if isWord first ["season", "сезон"] then parseU16 second
  else if !isWord second ["season", "сезон"] then none
  else
    parseU16 (((["st", "nd", "rd", "th"].findSome? fun suffix =>
      stripSuffix first suffix.toList)).getD first)

/-- The decimal digits that `format!` writes. -/
def decimal (n : ℕ) : List Char := Nat.toDigits 10 n

def normalizedSeasonTitle (title : List Char) : Option (List Char) :=
  match (words U title).reverse with
  | second :: first :: before =>
    if before.isEmpty then none
    else (seasonPair first second).map fun season => before.reverse.flatten ++ decimal season
  | _ => none

def wordSeasons (word : List Char) : List ℕ :=
  match stripPrefix word ['s'] with
  | none => []
  | some season =>
    (parseU16 season).toList ++
      match splitOnce season ['e'] with
      | some (season, episode) =>
        if !episode.isEmpty && episode.all isAsciiDigit then (parseU16 season).toList else []
      | none => []

def explicitSeasons (title : List Char) : List ℕ :=
  let words := words U title
  (windows2 words).filterMap (fun pair => seasonPair pair.1 pair.2) ++ words.flatMap wordSeasons

def sortDedup (numbers : List ℕ) : List ℕ := (numbers.mergeSort fun a b => a ≤ b).dedup

structure Qualifiers where
  parts : List ℕ
  cours : List ℕ
  directorsCut : Bool
  deriving DecidableEq

def numbersAfter (labels : List String) (words : List (List Char)) : List ℕ :=
  (windows2 words).filterMap fun pair =>
    if isWord pair.1 labels then parseU16 pair.2 else none

def namesDirectorsCut (words : List (List Char)) : Bool :=
  ((windows2 words).any fun pair =>
    (isWord pair.1 ["directors", "director"] && isWord pair.2 ["cut"]) ||
      (isWord pair.1 ["режиссерская", "режиссёрская"] && isWord pair.2 ["версия"])) ||
  ((words.zip (windows2 words.tail)).any fun triple =>
    isWord triple.1 ["director"] && isWord triple.2.1 ["s"] && isWord triple.2.2 ["cut"])

def qualifiers (work : Work) : Qualifiers :=
  let names := work.names.map fun name => words U name.toList
  { parts := sortDedup (names.flatMap (numbersAfter ["part", "часть"]))
    cours := sortDedup (names.flatMap (numbersAfter ["cour"]))
    directorsCut := names.any namesDirectorsCut }

end Qbutt.Association

/-!
## Product titles

What product a publication reports: the name under which it is shown and the normalised names by which
it is matched.  A game may take its title from other publications of the same search: from an edition of
the same build and year, from a publication of the same name, or from the game that it updates.
-/

namespace Qbutt.Association

open Qbutt.Content Qbutt.Rust

variable (U : Unicode)

/-! ### Labels in titles -/

def videoTags : List String :=
  ["bdrip", "bdremux", "hdrip", "web-dl", "web-dlrip", "webrip", "bluray", "blu-ray", "uhd.bd"]

/-- The test of `video_metadata` for what comes first in `remaining`. -/
def technicalTail (remaining : List Char) : Bool :=
  let words := (splitWhitespace (trimStartMatches remaining ['[', '('])).dropWhile fun word =>
    eqIgnoreAsciiCase word "uhd" || eqIgnoreAsciiCase word "pl"
  let first := trimEndMatches (toAsciiLowercase (words.headD [])) [']', ')']
  let quality := (stripPrefix first ['m']).getD first
  isWord quality ["480p", "576p", "720p", "1080p", "1080i", "1440p", "2160p", "4320p"] ||
    (isWord first ["dual"] && !words.tail.isEmpty) ||
    videoTags.any fun tag =>
      match stripPrefix first tag.toList with
      | some rest => rest.isEmpty || rest.head?.any fun c => c = '-' || c = '.'
      | none => false

/-- The loop of `video_metadata`; an annotation in brackets may precede the technical tail. -/
def videoMetadataFrom : ℕ → List Char → Bool
  | 0, _ => false
  | fuel + 1, remaining =>
    technicalTail remaining ||
      match (stripPrefix remaining ['[']).bind fun annotation => splitOnce annotation [']'] with
      | some (_, suffix) => videoMetadataFrom fuel (trimStart suffix)
      | none => false

def videoMetadata (suffix : List Char) : Bool :=
  videoMetadataFrom (suffix.length + 1) (trimStart suffix)

/-- A year of four digits. -/
def labelYear (number : List Char) : Option ℕ :=
  (parseU16 number).bind fun year =>
    if number.length = 4 && 1900 ≤ year && year ≤ 2099 then some year else none

/-- `year_labels`: what is before and after each label, and its year. -/
def yearLabels (title : List Char) : List (List Char × List Char × ℕ) :=
  let bracketed := (matchChars (fun c => c = '(' || c = '[') title).filterMap
    fun (before, opening, after) => do
      let (number, suffix) ← splitOnce after [if opening = '(' then ')' else ']']
      let year ← labelYear number
      return (before, suffix, year)
  let releaseYear := (matchChars (fun c => c = ' ') title).filterMap fun (before, _, after) => do
    let (number, suffix) ← splitOnce after [' ']
    let year ← labelYear number
    if videoMetadata suffix then some (before, suffix, year) else none
  bracketed ++ releaseYear

def labelledYears (title : List Char) : List ℕ := (yearLabels title).map fun label => label.2.2

/-- The year of a work: the reported one, or that of the first label in its title. -/
def workYear (work : Work) : Option ℕ := work.year <|> (labelledYears work.title.toList).head?

def gameReleaseMetadata (metadata : List Char) : Bool :=
  let words := splitWhitespace metadata
  let first := words.headD []
  if eqIgnoreAsciiCase first "build" || eqIgnoreAsciiCase first "crackfix" then
    let value := words.tail.headD []
    let value := match value with
      | 'v' :: value => value
      | 'V' :: value => value
      | value => value
    !value.isEmpty && value.all isAsciiDigit
  else if eqIgnoreAsciiCase first "repack" then
    (words.tail.head?.any fun word => eqIgnoreAsciiCase word "by") && !words.tail.tail.isEmpty
  else
    match rsplitOnce metadata ' ' with
    | some (name, label) => !name.isEmpty && eqIgnoreAsciiCase label "repack"
    | none => false

/-- `version_metadata`: what is before the version, and the version with all that follows. -/
def versionMetadata (title : List Char) : Option (List Char × List Char) :=
  (matchChars (fun c => c = 'v') title).findSome? fun (before, _, after) =>
    if before.getLast?.any fun c => !isWhitespace c && c ≠ '[' && c ≠ '(' then none
    else
      let content := trimStart after
      if content.head?.any isAsciiDigit then
        some (trimEnd (trimEndMatches (trimEnd before) [',', '-', '–', '—', '[', '(']), content)
      else none

def releaseTitle (title : List Char) (category : Category) : List Char :=
  let product :=
    if category = .games then
      let product := ((matchChars (fun c => c = '[' || c = '(') title).findSome?
        fun (before, opening, after) =>
          match splitOnce after [if opening = '[' then ']' else ')'] with
          | some (metadata, _) =>
            if gameReleaseMetadata metadata then some (trimEnd before) else none
          | none => none).getD title
      match versionMetadata product with
      | some (before, _) => trimEnd before
      | none => product
    else title
  ((yearLabels product).findSome? fun (before, suffix, _) =>
    let suffix := trim suffix
    let first := (splitWhitespace suffix).headD []
    if suffix.isEmpty || videoMetadata suffix ||
        (category = .games && ["pc", "mac", "linux"].any fun platform =>
          eqIgnoreAsciiCase first platform) then
      some (trimEnd before)
    else none).getD product

/-- The words that `edition_base` allows before `Edition` or `Bundle`. -/
def editionWords : List String :=
  ["standard", "digital", "deluxe", "ultimate", "gold", "complete", "definitive", "collector's",
    "collector’s", "supporter", "special", "premium", "anniversary", "enhanced", "goty", "game", "of",
    "the", "year"]

def editionBase (title : List Char) : List Char :=
  (([": ", " - ", " – ", " — "].flatMap fun separator =>
    matchIndices title separator.toList).findSome? fun (before, suffix) =>
      let label := (splitText suffix " - ".toList).headD []
      match (splitWhitespace label).reverse with
      | [] => none
      | kind :: descriptors =>
        let bundle := eqIgnoreAsciiCase kind "bundle"
        if (bundle || eqIgnoreAsciiCase kind "edition") && !descriptors.isEmpty &&
            descriptors.all (fun word => isWord (toAsciiLowercase word) editionWords ||
              (bundle && word.all isAsciiUppercase)) then
          some (trimEnd before)
        else none).getD title

def normalizedTitle (title : List Char) : List Char :=
  (title.filter U.isAlphanumeric).flatMap U.toLowercase

/-! ### Conflicts -/

def catalogIdentifiers : List String := ["mal", "shikimori", "kinopoisk"]

def differ {α : Type} [DecidableEq α] (as : List α) : Bool :=
  (windows2 as).any fun pair => pair.1 ≠ pair.2

def workYears (work : Work) : List ℕ :=
  work.year.toList ++ work.names.flatMap fun name => labelledYears name.toList

def workSeasons (work : Work) : List ℕ :=
  work.names.flatMap fun name => explicitSeasons U name.toList

def conflictingIdentity (publications : List Work) : Bool :=
  (catalogIdentifiers.any fun key =>
    differ (publications.filterMap fun work => work.identifiers.lookup key)) ||
  differ (publications.flatMap workYears) ||
  differ (publications.flatMap (workSeasons U)) ||
  differ ((publications.map Work.category).filter fun category => category ≠ .video)

/-! ### Titles -/

structure ProductTitle where
  normalized : List (List Char)
  display : List Char
  deriving DecidableEq

structure GameRelease where
  work : Work
  title : List Char
  base : List Char
  builds : List (List Char)
  year : Option ℕ

/-- The map from references to titles; a later entry comes first. -/
abbrev Titles := List (PublicationRef × ProductTitle)

def Titles.get (titles : Titles) (reference : PublicationRef) : ProductTitle :=
  (titles.lookup reference).getD ⟨[], []⟩

def gameRelease (work : Work) : GameRelease :=
  let title := work.title.toList
  let sourceTitle := ((work.aliases.map String.toList).find? fun name =>
    !name.isEmpty && (name.isPrefixOf title || name.isSuffixOf title)).getD title
  let title := releaseTitle sourceTitle work.category
  { work := work
    title := title
    base := editionBase title
    builds :=
      match versionMetadata sourceTitle with
      | some (_, content) =>
        ((content.splitOnP fun c => !isAsciiAlphanumeric c && c ≠ '.').map fun build =>
          trimStartMatches build ['v']).filter fun build => 5 ≤ build.length && build.all isAsciiDigit
      | none => []
    year := workYear work }

def game? (work : Work) : Option GameRelease :=
  if work.category = .games then some (gameRelease work) else none

def isEditionOf (edition game : GameRelease) : Bool :=
  edition.base ≠ edition.title && game.year.isSome && game.year = edition.year &&
    !conflictingIdentity U [game.work, edition.work] &&
    toAsciiLowercase (game.title.take edition.base.length) = toAsciiLowercase edition.base &&
    (game.title.drop edition.base.length).head? = some ' ' &&
    !(game.title.drop edition.base.length).any isAsciiDigit &&
    game.builds.any fun build => edition.builds.contains build

/-- The name under which a publication is shown. -/
def displayTitle (games : List GameRelease) (work : Work) : List Char :=
  match game? work with
  | none => releaseTitle work.title.toList work.category
  | some game =>
    if game.base ≠ game.title then game.base
    else
      match (games.filter fun edition => isEditionOf U edition game).map GameRelease.base with
      | [] => game.base
      | base :: rest => if rest.all fun candidate => candidate = base then base else game.base

/-- The names of a title: one for each localised name, and one for a season that it counts. -/
def normalizedNames (category : Category) (title : List Char) : List (List Char) :=
  (splitText title " / ".toList).flatMap fun name =>
    normalizedTitle U name ::
      if category = .anime || category = .tv then (normalizedSeasonTitle U name).toList else []

/-- The title of a publication in the first loop of `product_titles`. -/
def ownTitle (games : List GameRelease) (work : Work) : ProductTitle :=
  let display := displayTitle U games work
  let titles := display :: ((game? work).map GameRelease.title).toList ++
    work.aliases.map fun name =>
      let title := releaseTitle name.toList work.category
      if work.category = .games then editionBase title else title
  { normalized :=
      (titles.flatMap (normalizedNames U work.category)).foldl (fun names name =>
        if !name.isEmpty && !names.contains name then names ++ [name] else names) []
    display := display }

def confirmedTitleAlias (games : List GameRelease) (titles : Titles) (publication : GameRelease) :
    Option ProductTitle :=
  let reported := normalizedTitle U publication.title
  let shown := fun game : GameRelease => normalizedTitle U (titles.get game.work.reference).display
  if shown publication ≠ reported then none
  else
    let candidates := games.filter fun game => normalizedTitle U game.title = reported &&
      !conflictingIdentity U [publication.work, game.work]
    if conflictingIdentity U (candidates.map GameRelease.work) then none
    else
      match candidates.filter fun game => shown game ≠ reported with
      | [] => none
      | first :: witnesses =>
        if witnesses.any fun game => shown game ≠ shown first then none
        else some (titles.get first.work.reference)

def endsInUpdate (title : List Char) : Bool :=
  match rsplitOnce title ' ' with
  | some (_, suffix) => eqIgnoreAsciiCase suffix "update"
  | none => false

def updateTitle (games : List GameRelease) (titles : Titles) (update : GameRelease) :
    Option ProductTitle :=
  match rsplitOnce update.title ' ' with
  | none => none
  | some (original, suffix) =>
    if !eqIgnoreAsciiCase suffix "update" ||
        (versionMetadata update.work.title.toList).isNone then none
    else
      let original := normalizedTitle U original
      let shown := fun game : GameRelease => normalizedTitle U (titles.get game.work.reference).display
      let candidates := games.filter fun game => normalizedTitle U game.title = original &&
        !conflictingIdentity U [update.work, game.work] && !endsInUpdate game.title
      match candidates with
      | [] => none
      | first :: rest =>
        if conflictingIdentity U (candidates.map GameRelease.work) then none
        else if rest.any fun game => shown game ≠ shown first then none
        else some (titles.get first.work.reference)

def retitle (title? : Titles → GameRelease → Option ProductTitle) (games : List GameRelease)
    (titles : Titles) : Titles :=
  games.foldl (fun titles game =>
    match title? titles game with
    | some title => (game.work.reference, title) :: titles
    | none => titles) titles

def productTitles (publications : List Work) : Titles :=
  let games := publications.filterMap game?
  let titles := publications.foldl (fun titles work =>
    (work.reference, ownTitle U games work) :: titles) []
  retitle (updateTitle U games) games (retitle (confirmedTitleAlias U games) games titles)

end Qbutt.Association
