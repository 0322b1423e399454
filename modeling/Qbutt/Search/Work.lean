import Mathlib.Data.List.Infix
import Qbutt.Algorithm.Binary64
import Qbutt.Algorithm.InsertionMap
import Qbutt.Qt.ByteArray

/-!
# The texts of a search

How the content component reads titles, labels and numbers, and what a search query asks for.  What a
regular expression or the Unicode tables say of a text is a field of `Patterns`; everything that the
component does with the answers is defined here and in the modules that follow.
-/

namespace Qbutt.Search

/-- What the regular expressions and the Unicode functions of the component say of texts. -/
structure Patterns where
  /-- `normalizeTitle`. -/
  normalizeTitle : String → String
  /-- `value.trim()`. -/
  trim : String → String
  /-- `value.toLowerCase()`. -/
  toLowerCase : String → String
  /-- `value.normalize("NFC").replace(/\s+/g, " ").trim()`. -/
  collapse : String → String
  /-- `String(Number(value))`, of a decimal number. -/
  numberText : String → String
  /-- `/^\d+$/`. -/
  isWhole : String → Bool
  /-- `/^\d+(?:\.\d+)?$/`. -/
  isDecimal : String → Bool
  /-- `searchQuery`: the title and the year of a text that ends in a year. -/
  titleYear : String → Option (String × ℕ)
  /-- `queryMatches`: the word has a character of Han, Hiragana or Katakana. -/
  isIdeographic : String → Bool
  /-- `queryMatches`: the word is four or more characters of Cyrillic. -/
  isCyrillicWord : String → Bool
  /-- `new URL(magnet).searchParams.getAll("xt")`; nothing for a text that is not an address. -/
  exactTopics : String → Option (List String)
  /-- `episodeFacets`: the season and the episode of a label such as `s01e02`. -/
  seasonEpisode : String → Option (String × String)
  /-- `matchesSeason`: the number of the season. -/
  seasonCounter : String → Option String
  /-- `sameWork`: the number of the season in a title. -/
  titleSeason : String → Option String
  /-- `animeTorrentEpisode`: the year in brackets. -/
  bracketedYear : String → Option ℕ
  /-- `animeTorrentEpisode`: several episodes together. -/
  isBatch : String → Bool
  /-- `animeTorrentEpisode`: without the name of the release group. -/
  dropGroup : String → String
  /-- `animeTorrentEpisode`: the season and the episode of a label such as `S01E02`. -/
  explicitEpisode : String → Option (String × String)
  /-- `animeTorrentEpisode`: without the number of the season. -/
  dropSeason : String → String
  /-- `animeTorrentEpisode`: nothing or notes of the release. -/
  isReleaseNote : String → Bool
  /-- `animeTorrentEpisode`: there is a character of Latin or Cyrillic. -/
  hasLetters : String → Bool
  /-- `animeTorrentEpisode`: the number of the episode after a title. -/
  episodeSuffix : String → Option String
  /-- `languageCode`: a language tag. -/
  isLanguageTag : String → Bool
  /-- `rankVariants`: without the label before the name of a studio. -/
  dropVoiceLabel : String → String
  /-- `rankVariants`: the height of the picture in a title, such as `1080p`. -/
  titleQuality : String → Option String
  /-- `score`: recorded in a cinema. -/
  isRecorded : String → Bool
  /-- `score`: taken from a disc or a stream. -/
  isRipped : String → Bool
  /-- `score`: the height of the picture. -/
  resolution : String → Option ℕ
  /-- `relevance`: `name.split(/\s*[|/]\s*/)`. -/
  labels : String → List String
  /-- `relevance`: what is before the year of release in brackets at the end. -/
  beforeRelease : String → Option String

variable (P : Patterns)

/-! ### The language's own text functions -/

/-- `value || undefined`: an empty text counts as none. -/
def present (value : Option String) : Option String := value.filter fun text => text ≠ ""

def includes (text part : String) : Bool := decide (part.toList <:+: text.toList)

def startsWith (text part : String) : Bool := decide (part.toList <+: text.toList)

/-- `text.split(" ")`. -/
def words (text : String) : List String := (text.toList.splitOn ' ').map String.ofList

/-- `[...new Set(values)]`. -/
def distinct {α : Type} [DecidableEq α] (values : List α) : List α :=
  values.foldl (fun found value => if value ∈ found then found else found ++ [value]) []

/-! ### Queries -/

structure SearchQuery where
  title : String
  words : List String
  year : Option ℕ
  deriving DecidableEq

def searchQuery (value : String) : SearchQuery :=
  let year := P.titleYear (P.trim value)
  let title := (year.map Prod.fst).getD (P.trim value)
  { title := title
    words := (words (P.normalizeTitle title)).filter fun word => word ≠ ""
    year := year.map Prod.snd }

def queryYearMatches (query : SearchQuery) (names : List String) (year : Option ℕ) : Bool :=
  match query.year with
  | none => true
  | some wanted =>
    year == some wanted || names.any fun name => (words (P.normalizeTitle name)).contains (toString wanted)

def queryMatches (query : SearchQuery) (names : List String) (year : Option ℕ) : Bool :=
  queryYearMatches P query names year && names.any fun name =>
    let normalized := P.normalizeTitle name
    query.words.all fun word =>
      if P.isIdeographic word then includes normalized word
      else (words normalized).any fun candidate =>
        candidate == word || (P.isCyrillicWord word && startsWith candidate word)

end Qbutt.Search

/-!
## Publications and works of a search

A work of a search is a publication or several merged ones, with the variants in which it can be
obtained.  Variants with the same key are the same publication and are merged (`mergeVariants`);
`rankVariants` adds what can be told from other labels and orders the variants.
-/

namespace Qbutt.Search

inductive Category where
  | all
  | games
  | movies
  | tv
  | anime
  | software
  | books
  | manga
  deriving DecidableEq

inductive Transport where
  | torrent
  | video
  | book
  | manga
  | file
  deriving DecidableEq

inductive TranslationType where
  | dub
  | subtitles
  deriving DecidableEq

inductive PublicationKind where
  | full
  | patch
  | fix
  | optional
  | archivePart
  | upload
  deriving DecidableEq

inductive AdStatus where
  | unknown
  | reported
  | clean
  deriving DecidableEq

/-- An element of `notes`. -/
structure Note where
  text : String
  url : String
  author : Option String
  deriving DecidableEq

structure Facets where
  episode : Option String
  season : Option String
  translation : Option String
  deriving DecidableEq

structure Variant where
  id : String
  sourceId : String
  sourceName : String
  title : String
  url : String
  transport : Transport
  magnet : Option String
  downloadUrl : Option String
  infoHash : Option String
  size : Option ℕ
  seeders : Option ℤ
  publishedAt : Option String
  duration : Option ℕ
  version : Option String
  edition : Option String
  cooperative : Option Bool
  translation : Option String
  translationType : Option TranslationType
  languages : Option (List String)
  quality : Option String
  facets : Option Facets
  episode : Option String
  season : Option String
  player : Option String
  author : Option String
  publicationKind : Option PublicationKind
  needsInspection : Option Bool
  adStatus : Option AdStatus
  notes : Option (List Note)
  deriving DecidableEq

/-- `Work`; a list or a record that is not there is empty. -/
structure Work where
  id : String
  title : String
  category : Category
  url : Option String
  cover : Option String
  description : Option String
  year : Option ℕ
  aliases : List String
  identifiers : InsertionMap String String
  notes : List Note
  variants : List Variant
  deriving DecidableEq

variable (P : Patterns)

/-! ### Variants -/

def base32 : List Char := "abcdefghijklmnopqrstuvwxyz234567".toList

def hexLetters : List Char := "0123456789abcdef".toList

/-- `/^[a-f\d]{n}$/`. -/
def isHex (n : ℕ) (text : String) : Bool :=
  text.toList.length == n && text.toList.all fun c => c ∈ hexLetters

/-- `/^[a-f\d]{n}$/i`. -/
def isAnyHex (n : ℕ) (text : String) : Bool := isHex n (String.ofList (text.toList.map Char.toLower))

def hexText (bytes : List ℕ) : String :=
  String.ofList (bytes.flatMap fun byte => [byte / 16, byte % 16].map fun digit => hexLetters.getD digit '0')

/-- The loop of `magnetHash` over the letters of base 32. -/
def base32Bytes : ℕ → ℕ → List Char → List ℕ
  | _, _, [] => []
  | bits, accumulator, letter :: letters =>
    let accumulator := (accumulator * 32 + base32.idxOf letter) % 2 ^ 32
    if 8 ≤ bits + 5 then
      (accumulator / 2 ^ (bits + 5 - 8) % 256) :: base32Bytes (bits + 5 - 8) accumulator letters
    else base32Bytes (bits + 5) accumulator letters

/-- `/^urn:bt(?:ih|mh):/i`. -/
def isBtTopic (value : String) : Bool :=
  let value := value.toList.map Char.toLower
  "urn:btih:".toList.isPrefixOf value || "urn:btmh:".toList.isPrefixOf value

/-- The hash that a topic names, without `urn:` and in lower case. -/
def topicHash (value : String) : Option String :=
  let rest := value.toList.drop 5
  if "btih:".toList.isPrefixOf value.toList && isHex 40 (String.ofList rest) then some value
  else if "btmh:1220".toList.isPrefixOf value.toList && isHex 64 (String.ofList (rest.drop 4)) then
    some value
  else if "btih:".toList.isPrefixOf value.toList && rest.length == 32 && rest.all (· ∈ base32) then
    some ("btih:" ++ hexText (base32Bytes 0 0 rest))
  else none

def magnetHash (variant : Variant) : Option String :=
  let infoHash := variant.infoHash.getD ""
  if isAnyHex 40 infoHash then some ("btih:" ++ P.toLowerCase infoHash)
  else if isAnyHex 64 infoHash then some ("btmh:1220" ++ P.toLowerCase infoHash)
  else do
    let magnet ← present variant.magnet
    let topics ← P.exactTopics magnet
    let topic ← topics.find? isBtTopic
    topicHash (P.toLowerCase (String.ofList (topic.toList.drop 4)))

def variantKey (variant : Variant) : String := variant.sourceId ++ ":" ++ variant.id

def isUserUpload (work : Work) : Bool :=
  work.variants.all fun variant => variant.publicationKind == some .upload

/-- `episodeFacets`; the translation is not among them. -/
def episodeFacets (variant : Variant) : Facets :=
  let explicit := P.seasonEpisode (variant.episode.getD "")
  let episode := present (explicit.map Prod.snd) <|> variant.episode
  let season := present (explicit.map Prod.fst) <|> variant.season
  { episode := episode.map fun text => if P.isDecimal text then P.numberText text else text
    season := season.map fun text => if P.isWhole text then P.numberText text else text
    translation := none }

/-! ### Merging -/

/-- `mergeNotes`, of all groups together. -/
def mergeNotes (notes : List Note) : List Note := distinct notes

/-- A variant with what a later report of it says. -/
def mergeVariant (previous variant : Variant) : Variant where
  id := variant.id
  sourceId := variant.sourceId
  sourceName := variant.sourceName
  title := variant.title
  url := variant.url
  transport := variant.transport
  magnet := variant.magnet <|> previous.magnet
  downloadUrl := variant.downloadUrl <|> previous.downloadUrl
  infoHash := variant.infoHash <|> previous.infoHash
  size := variant.size <|> previous.size
  seeders := variant.seeders <|> previous.seeders
  publishedAt := variant.publishedAt <|> previous.publishedAt
  duration := variant.duration <|> previous.duration
  version := variant.version <|> previous.version
  edition := variant.edition <|> previous.edition
  cooperative := variant.cooperative <|> previous.cooperative
  translation := variant.translation <|> previous.translation
  translationType := variant.translationType <|> previous.translationType
  languages := variant.languages <|> previous.languages
  quality := variant.quality <|> previous.quality
  facets := variant.facets <|> previous.facets
  episode := variant.episode <|> previous.episode
  season := variant.season <|> previous.season
  player := variant.player <|> previous.player
  author := variant.author <|> previous.author
  publicationKind := variant.publicationKind <|> previous.publicationKind
  needsInspection := variant.needsInspection <|> previous.needsInspection
  adStatus := variant.adStatus <|> previous.adStatus
  notes := some (mergeNotes (previous.notes.getD [] ++ variant.notes.getD []))

def mergeVariants (variants : List Variant) : List Variant :=
  (variants.foldl (fun (publications : InsertionMap String Variant) variant =>
    publications.set (variantKey variant)
      (match publications.get (variantKey variant) with
      | some previous => mergeVariant previous variant
      | none => variant)) InsertionMap.empty).values

def mergeWorkMetadata (current : Option Work) (incoming : Work) : Work :=
  { incoming with
    url := incoming.url <|> current.bind Work.url
    cover := incoming.cover <|> current.bind Work.cover
    description := incoming.description <|> current.bind Work.description
    year := incoming.year <|> current.bind Work.year
    aliases := distinct ((current.elim [] Work.aliases) ++ incoming.aliases)
    identifiers := incoming.identifiers.entries.foldl (fun m entry => m.set entry.1 entry.2)
      (current.elim InsertionMap.empty Work.identifiers)
    notes := mergeNotes ((current.elim [] Work.notes) ++ incoming.notes) }

/-! ### Ranking -/

/-- The `known` table of `languageCode`. -/
def knownLanguages : List (String × String) :=
  [("rus", "ru"), ("russian", "ru"), ("русский", "ru"), ("eng", "en"), ("english", "en"),
    ("английский", "en"), ("jpn", "ja"), ("japanese", "ja"), ("японский", "ja"), ("ukr", "uk"),
    ("ukrainian", "uk"), ("украинский", "uk"), ("zho", "zh"), ("chi", "zh"), ("chinese", "zh"),
    ("китайский", "zh"), ("kor", "ko"), ("korean", "ko"), ("корейский", "ko"), ("deu", "de"),
    ("ger", "de"), ("german", "de"), ("fra", "fr"), ("fre", "fr"), ("french", "fr"), ("spa", "es"),
    ("spanish", "es")]

def languageCode (value : String) : String :=
  let language := String.ofList ((P.toLowerCase (P.trim value)).toList.map fun c =>
    if c = '_' then '-' else c)
  match knownLanguages.lookup language with
  | some code => code
  | none =>
    if P.isLanguageTag language then String.ofList (language.toList.takeWhile (· ≠ '-'))
    else P.trim value

def studioName (variant : Variant) : Option String :=
  present (variant.translation.map fun translation => P.trim (P.dropVoiceLabel translation))

/-- `studios`: the first name for each normalized one. -/
def studiosOf (variants : List Variant) : InsertionMap String String :=
  variants.foldl (fun studios variant =>
    match studioName P variant with
    | none => studios
    | some studio =>
      if (studios.get (P.normalizeTitle studio)).isSome then studios
      else studios.set (P.normalizeTitle studio) studio) InsertionMap.empty

def releaseSeason (variants : List Variant) (work : Work) : Option String :=
  match distinct (variants.filterMap fun variant => present (episodeFacets P variant).season) with
  | [season] =>
    if work.category = .anime && ((present (work.identifiers.get "mal")).isSome ||
        (present (work.identifiers.get "shikimori")).isSome) then some season else none
  | _ => none

/-- A variant with the facets that `rankVariants` adds. -/
def prepareVariant (season : Option String) (studios : InsertionMap String String)
    (variant : Variant) : Variant :=
  let facets := episodeFacets P variant
  { variant with
    quality := present (present variant.quality <|>
      if variant.transport = .torrent then P.titleQuality variant.title else none) <|> variant.quality
    languages := variant.languages.map fun languages =>
      distinct ((languages.map (languageCode P)).filter fun language => language ≠ "")
    facets := some
      { episode := facets.episode
        season := if season = some "1" then some ""
          else present facets.season <|> if (present facets.episode).isSome then season else none
        translation := match studioName P variant with
          | some studio => studios.get (P.normalizeTitle studio)
          | none => variant.translation } }

/-- `/^4k$/i`, for the letters of `name`. -/
def isNamed (name text : String) : Bool := text.toList.map Char.toLower == name.toList

def score (preferred : Option String) (variant : Variant) : ℚ :=
  let label := (present variant.quality).getD variant.title
  let quality := (present variant.quality).getD ""
  let value : ℤ :=
    (if variant.publicationKind = some .patch || variant.publicationKind = some .fix then -100 else 0) +
    (if variant.adStatus = some .reported then -80 else 0) +
    (if P.isRecorded label then -60 else 0) +
    (if variant.publicationKind = some .full then 30 else 0) +
    (if variant.cooperative = some true then 15 else 0) +
    (if variant.adStatus = some .clean then 10 else 0) +
    (if P.isRipped label then 10 else 0) +
    (match preferred, variant.languages with
      | some preferred, some (language :: languages) =>
        if preferred ∈ language :: languages then 40 else -10
      | _, _ => 0)
  if isNamed "4k" quality then (value + 44 : ℤ)
  else if isNamed "2k" quality then (value + 30 : ℤ)
  else match P.resolution quality with
    | some lines => Binary64.round (value + min 44 (Binary64.round ((lines : ℚ) / 50)))
    | none => value

def placeTorrents : List Variant → List Variant → List Variant
  | [], _ => []
  | variant :: variants, torrents =>
    if variant.transport = .torrent then
      match torrents with
      | torrent :: torrents => torrent :: placeTorrents variants torrents
      | [] => variant :: placeTorrents variants []
    else variant :: placeTorrents variants torrents

def orderTorrents (run : List Variant) : List Variant :=
  placeTorrents run ((run.filter fun variant => variant.transport = .torrent).insertionSort
    fun left right => max 0 (right.seeders.getD 0) ≤ max 0 (left.seeders.getD 0))

def rankVariants (variants : List Variant) (language : Option String) (work : Work) : List Variant :=
  let preferred := present ((present language).map (languageCode P))
  let prepared := (variants.map (prepareVariant P (releaseSeason P variants work)
    (studiosOf P variants))).insertionSort fun left right =>
      score P preferred right ≤ score P preferred left
  (prepared.splitBy fun left right => score P preferred left = score P preferred right).flatMap
    orderTorrents

end Qbutt.Search
