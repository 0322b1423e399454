import Mathlib.Data.Finset.Image
import Mathlib.Data.Prod.Lex
import Mathlib.Data.String.Basic
import Qbutt.Association.Identity

/-!
# Groups of publications

`WorkAssociation` keeps the publications that a search has reported, in the order in which they arrived,
and shows them in groups: a publication joins the only earlier group whose members it is confirmed to
match, unless it matches publications that are in conflict with each other.
-/

namespace Qbutt.Association

open Qbutt.Content Qbutt.Rust

variable (U : Unicode)

/-! ### Matching -/

def supplementaryWords : List String :=
  ["trailer", "teaser", "reaction", "review", "highlights", "promo", "preview", "opening", "ending",
    "amv", "edit", "edits", "clip", "clips", "recap", "slowed"]

/-- The beginnings of words that make a title supplementary. -/
def supplementaryPrefixes : List String :=
  ["трейлер", "тизер", "реакци", "обзор", "нарезк", "промо", "превью", "опенинг", "эндинг", "амв",
    "эдит", "клип", "пересказ"]

def isSupplementary (title : String) (description : Option String) : Bool :=
  let introduction := splitWords (fun c => !U.isAlphanumeric c) (description.getD "").toList
  (introduction.head?.any (fun word => isWord (U.textToLowercase word) ["выпустили"]) &&
    introduction.tail.head?.any fun word => isWord (U.textToLowercase word) ["трейлер"]) ||
  let words := splitWords (fun c => !U.isAlphanumeric c)
    ((U.textToLowercase title.toList).map fun c => if c = 'ё' then 'е' else c)
  ((words.zip (windows2 words.tail)).any fun phrase =>
    phrase.2.1.all isAsciiDigit &&
      ((isWord phrase.1 ["за"] && isWord phrase.2.2 ["минут", "минуту", "минуты"]) ||
        (isWord phrase.1 ["in"] && isWord phrase.2.2 ["minute", "minutes"]))) ||
  words.any fun word =>
    isWord word supplementaryWords || supplementaryPrefixes.any fun start =>
      start.toList.isPrefixOf word

def wordEpisode (word : List Char) : Option (List Char) :=
  match (stripPrefix word ['s']).bind fun word => splitOnce word ['e'] with
  | some (season, episode) =>
    if (parseU16 season).isSome then (parseU32 episode).map decimal else none
  | none => none

def episodeWords : List String := ["episode", "эпизод", "серия"]

def titleEpisodes (title : List Char) : List (List Char) :=
  let words := words U title
  ((windows2 words).filterMap fun pair =>
    if isWord pair.1 episodeWords then (parseU32 pair.2).map decimal
    else if isWord pair.2 episodeWords then (parseU32 pair.1).map decimal
    else none) ++ words.filterMap wordEpisode

/-- `explicit_episodes`, without its order, in which two works may only differ together. -/
def explicitEpisodes (work : Work) : Finset (List Char) :=
  (((work.variants.filterMap Variant.episode).map fun episode => U.textToLowercase episode.toList) ++
    work.names.flatMap fun name => titleEpisodes U name.toList).toFinset

def sameFilm (left right : Work) : Bool :=
  ((left.category = .video && (right.category = .movies || right.category = .tv)) ||
    (right.category = .video && (left.category = .movies || left.category = .tv))) &&
  (workYear left).isSome && workYear left = workYear right &&
  (workSeasons U left).toFinset = (workSeasons U right).toFinset &&
  explicitEpisodes U left = explicitEpisodes U right

/-- Whether a work is a supplementary video. -/
def isTrailer (work : Work) : Bool :=
  work.reference.source = .rutube && isSupplementary U work.title work.description

/-- Whether a work is an episodic publication with qualifiers. -/
def isSeries (work : Work) : Bool := work.category = .anime || work.category = .tv

def sameIdentifier (left right : Work) (key : String) : Bool :=
  match left.identifiers.lookup key, right.identifiers.lookup key with
  | some a, some b => a = b
  | _, _ => false

def confirmedMatch (titles : Titles) (left right : Work) : Bool :=
  if left.reference = right.reference then true
  else if isTrailer U left || isTrailer U right then false
  else if left.category ≠ right.category && !sameFilm U left right then false
  else if conflictingIdentity U [left, right] then false
  else if (isSeries left || isSeries right) && qualifiers U left ≠ qualifiers U right then false
  else if left.category = right.category && catalogIdentifiers.any (sameIdentifier left right) then
    true
  else (titles.get right.reference).normalized.any fun title =>
    (titles.get left.reference).normalized.contains title

/-! ### Groups -/

structure WorkGroup where
  anchor : PublicationRef
  references : List PublicationRef
  publications : List Work
  deriving DecidableEq

namespace WorkGroup

def single (work : Work) : WorkGroup :=
  { anchor := work.reference, references := [work.reference], publications := [work] }

def publication (group : WorkGroup) (reference : PublicationRef) : Option Work :=
  group.publications.find? fun work => work.reference = reference

def anchorWork (group : WorkGroup) : Option Work := group.publication group.anchor

def catalogWork (group : WorkGroup) : Option Work :=
  group.anchorWork.bind fun anchor =>
    if anchor.category = .video then
      (group.publications.find? fun work => work.category = .movies || work.category = .tv) <|>
        some anchor
    else some anchor

def isConfirmed (group : WorkGroup) : Bool :=
  let titles := productTitles U group.publications
  decide (group.publications.Pairwise fun previous publication =>
    confirmedMatch U titles previous publication = true)

/-- The group with one more publication. -/
def push (group : WorkGroup) (work : Work) : WorkGroup :=
  { group with
    references := group.references ++ [work.reference]
    publications := group.publications ++ [work] }

end WorkGroup

def ambiguous (titles : Titles) (publications : List Work) (publication : Work) : Bool :=
  conflictingIdentity U (publications.filter fun candidate =>
    confirmedMatch U titles publication candidate)

def ambiguousReferences (titles : Titles) (publications : List Work) : List PublicationRef :=
  (publications.filter (ambiguous U titles publications)).map Work.reference

def isCandidate (titles : Titles) (ambiguous : List PublicationRef) (publication : Work)
    (group : WorkGroup) : Bool :=
  !ambiguous.contains group.anchor && group.publications.all fun member =>
    confirmedMatch U titles member publication

/-- One round of the loop in `groups_with_titles`. -/
def placePublication (titles : Titles) (ambiguous : List PublicationRef) (groups : List WorkGroup)
    (publication : Work) : List WorkGroup :=
  if ambiguous.contains publication.reference then groups ++ [.single publication]
  else
    match groups.zipIdx.filter fun entry => isCandidate U titles ambiguous publication entry.1 with
    | [(_, index)] => groups.modify index fun group => group.push publication
    | _ => groups ++ [.single publication]

def groupsWithTitles (titles : Titles) (publications : List Work) : List WorkGroup :=
  publications.foldl
    (placePublication U titles (ambiguousReferences U titles publications)) []

def groups (publications : List Work) : List WorkGroup :=
  groupsWithTitles U (productTitles U publications) publications

/-! ### Searching -/

def minimum {α : Type} [LinearOrder α] (default : α) (as : List α) : α :=
  match as with
  | [] => default
  | a :: as => as.foldl min a

def groupNames (titles : Titles) (group : WorkGroup) : List (List Char) :=
  group.references.flatMap fun reference => (titles.get reference).normalized

/-- The order of the rows of a search. -/
abbrev RowKey := Bool ×ₗ Bool ×ₗ String ×ₗ ℕ ×ₗ String ×ₗ String

/-- The key by which `search_groups` sorts. -/
def rowKey (titles : Titles) (query : List Char) (group : WorkGroup) : RowKey :=
  let names := groupNames titles group
  toLex (!names.contains query, toLex (!names.any fun name => query.isPrefixOf name,
    toLex (minimum "" (names.map String.ofList),
      toLex ((group.catalogWork.map fun work => work.category.toNat).getD 0,
        minimum (toLex ("", "")) (group.references.map fun reference =>
          toLex (reference.source.id, reference.id))))))

/-- Whether a row is shown: a publication may still have variants, or has some. -/
def isShown (group : WorkGroup) : Bool :=
  group.publications.any fun work => work.needsInspection || !work.variants.isEmpty

def searchGroups (publications : List Work) (query : String) : List WorkGroup :=
  let query := normalizedTitle U query.toList
  let titles := productTitles U publications
  ((groupsWithTitles U titles publications).filter isShown).mergeSort fun left right =>
    rowKey titles query left ≤ rowKey titles query right

/-! ### Updates -/

def update (publications : List Work) (work : Work) : List Work :=
  match publications.findIdx? fun previous => previous.reference = work.reference with
  | some index => publications.set index work
  | none => publications ++ [work]

def updateSearch (publications : List Work) (work : Work) : List Work :=
  if work.needsInspection && publications.any fun previous =>
      previous.reference = work.reference && !previous.needsInspection then publications
  else update publications work

/-- `confirm_empty_inspection`: the publications, and whether there was one to confirm. -/
def confirmEmptyInspection (publications : List Work) (reference : PublicationRef) :
    List Work × Bool :=
  match publications.findIdx? fun work => work.reference = reference with
  | some index =>
    (publications.modify index fun work => { work with needsInspection := false, variants := [] },
      true)
  | none => (publications, false)

end Qbutt.Association
