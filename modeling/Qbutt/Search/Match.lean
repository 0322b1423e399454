import Qbutt.Rust.Str
import Qbutt.Search.Work

/-!
# Which publications are of one work

Two publications are of one work (`sameWork`) when their identity, a variant, a hash or an identifier
says so, or their titles where titles are enough.  A torrent or an uploaded episode may also be found to
belong to the only work of a catalogue that it names (`matchingCatalog`).
-/

namespace Qbutt.Search

variable (P : Patterns)

/-- `value || undefined`, of a number. -/
def nonzero (value : Option ℕ) : Option ℕ := value.filter fun number => number ≠ 0

def titlesOf (work : Work) : List String := (work.title :: work.aliases).map P.normalizeTitle

def yearsDiffer (left right : Work) : Bool :=
  match nonzero left.year, nonzero right.year with
  | some year, some year' => year ≠ year'
  | _, _ => false

/-! ### The same work -/

def seasonsOf (work : Work) : String :=
  let labels := (work.variants.filterMap fun variant => present (episodeFacets P variant).season) ++
    ((P.titleSeason work.title).map P.numberText).toList
  ",".intercalate ((distinct labels).insertionSort fun left right => utf16 left ≤ utf16 right)

def authorsOf (work : Work) : List String :=
  (work.variants.filterMap fun variant => present variant.author).map P.normalizeTitle

/-- An identifier that both works have, with a value other than the one of the first. -/
def identifiersDiffer (left right : Work) : Bool :=
  left.identifiers.entries.any fun entry =>
    entry.2 ≠ "" && (present (right.identifiers.get entry.1)).any fun value => value ≠ entry.2

def identifiersAgree (left right : Work) : Bool :=
  left.identifiers.entries.any fun entry =>
    entry.2 ≠ "" && right.identifiers.get entry.1 = some entry.2

/-- The end of `sameWork`: what the titles say. -/
def sameTitle (left right : Work) : Bool :=
  let title := P.normalizeTitle left.title
  3 ≤ (utf16 title).length && title = P.normalizeTitle right.title &&
    (left.category ∈ [.books, .manga, .games, .software] ||
      ((nonzero left.year).isSome && left.year = right.year))

def sameWork (left right : Work) : Bool :=
  if left.id = right.id then true
  else if left.variants.any fun a => right.variants.any fun b =>
      a.sourceId = b.sourceId && a.id = b.id then true
  else if left.variants.any fun a => right.variants.any fun b =>
      (magnetHash P a).isSome && magnetHash P a = magnetHash P b then true
  else if (left.category ≠ .all && right.category ≠ .all && left.category ≠ right.category) ||
      yearsDiffer left right then false
  else if identifiersDiffer left right then false
  else if identifiersAgree left right then true
  else if isUserUpload left || isUserUpload right then false
  else if left.category = .all || left.category ≠ right.category then false
  else if left.category ∈ [.books, .manga] && !((authorsOf P left).any fun author =>
      author ∈ authorsOf P right) then false
  else if left.category ∈ [.anime, .movies, .tv] && seasonsOf P left ≠ seasonsOf P right then false
  else sameTitle P left right

/-! ### Works of a catalogue -/

def matchesSeason (titles : List String) (season : Option String) : Bool :=
  match present season with
  | none => true
  | some season =>
    let counters := titles.filterMap P.seasonCounter
    season ∈ counters || (season = "1" && counters.isEmpty)

/-- `remaining`: a label without the names of the work. -/
def withoutNames (aliases : List String) (label : String) : String :=
  aliases.foldl (fun remaining name => remaining.replace (" " ++ name ++ " ") " ") (" " ++ label ++ " ")

/-- What is before a name in a text, and what follows it with the blank behind the name. -/
def aroundName (text name : String) : Option (String × String) :=
  (Rust.splitOnce text.toList (" " ++ name ++ " ").toList).map fun (before, after) =>
    (String.ofList before, String.ofList (' ' :: after))

/-- `animeTorrentEpisode`: the episode and the season. -/
def animeTorrentEpisode (variant : Variant) (work : Work) : Option (String × Option String) :=
  let otherYear := match nonzero (P.bracketedYear variant.title), nonzero work.year with
    | some year, some year' => decide (year ≠ year')
    | _, _ => false
  if otherYear || P.isBatch variant.title then none
  else
    let title := P.dropGroup variant.title
    let name := " " ++ P.normalizeTitle title ++ " "
    let titles := titlesOf P work
    let explicit := P.explicitEpisode title
    let season := explicit.map fun label => P.numberText label.1
    if !matchesSeason P titles season then none
    else
      let aliases := ((if explicit.isSome then titles.map P.dropSeason else titles).filter fun name =>
        5 ≤ (utf16 name).length).insertionSort fun left right =>
          (utf16 right).length ≤ (utf16 left).length
      -- Labels that hold nothing but names of the work and notes of the release.
      let alternateLabels := ((title.toList.splitOnP fun c => c ∈ "()[]{},|/".toList).map fun label =>
        P.normalizeTitle (String.ofList label)).filter fun label =>
          P.isReleaseNote (P.trim (withoutNames aliases label))
      let matched := aliases.filter fun candidate =>
        match aroundName name candidate with
        | none => false
        | some (before, _) =>
          (alternateLabels.any fun label => includes (" " ++ label ++ " ") (" " ++ candidate ++ " ")) ||
            !P.hasLetters before
      if matched.isEmpty then none
      else match explicit with
        | some (_, episode) => some (P.numberText episode, season)
        | none => matched.findSome? fun candidate => do
          let (_, suffix) ← aroundName name candidate
          let episode ← P.episodeSuffix suffix
          return (P.numberText episode, none)

def withEpisode (variant : Variant) (episode : String × Option String) : Variant :=
  { variant with
    episode := some episode.1
    season := episode.2 <|> variant.season }

def catalogVariants (publication catalog : Work) : List Variant :=
  publication.variants.map fun variant =>
    if catalog.category = .anime && variant.transport = .torrent then
      match animeTorrentEpisode P variant catalog with
      | some episode => withEpisode variant episode
      | none => variant
    else variant

/-- `episodeUpload`: the publication is whole episodes that users uploaded. -/
def episodeUpload (publication : Work) : Bool :=
  publication.category = .anime && isUserUpload publication &&
    publication.variants.all fun variant =>
      variant.transport = .video && (present variant.episode).isSome &&
        15 * 60 ≤ variant.duration.getD 0

/-- What `matchingCatalog` asks of a work, for uploaded episodes. -/
def uploadMatches (publication work : Work) : Bool :=
  let titles := titlesOf P work
  if publication.variants.any fun variant => !matchesSeason P titles variant.season then false
  else if publication.aliases.any fun name => P.normalizeTitle name ∈ titles then true
  else if publication.variants.any fun variant => (present variant.season).isSome then false
  else match work.description.map P.collapse, publication.description.map P.collapse with
    | some synopsis, some description =>
      200 ≤ (utf16 synopsis).length && startsWith description synopsis
    | _, _ => false

def catalogMatches (publication work : Work) : Bool :=
  if (publication.category ≠ .all && work.category ≠ publication.category) ||
      yearsDiffer publication work then false
  else if work.category ∈ [.books, .manga] then sameWork P publication work
  else if episodeUpload publication then uploadMatches P publication work
  else if work.category = .anime then
    publication.variants.any fun variant => (animeTorrentEpisode P variant work).isSome
  else
    (titlesOf P work).any fun key => 5 ≤ (utf16 key).length &&
      publication.variants.any fun variant =>
        let name := P.normalizeTitle variant.title
        name = key || startsWith name (key ++ " ")

def matchingCatalog (publication : Work) (catalog : List Work) : Option Work :=
  if !episodeUpload publication &&
      !(publication.variants.all fun variant => variant.transport = .torrent) then none
  else match catalog.filter (catalogMatches P publication) with
    | [work] => some work
    | _ => none

end Qbutt.Search
