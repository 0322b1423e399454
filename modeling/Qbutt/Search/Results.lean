import Qbutt.Search.Match

/-!
# Results of a search

`SearchResults` collects the publications that the sources report for a query and shows them as works.
The works are rebuilt from all publications whenever one is added (`publish`): each publication joins the
first work that is the same, and then torrents and uploaded episodes are attached to the catalogue work
that they name.  The client is told only what changed.
-/

namespace Qbutt.Search

variable (P : Patterns)

/-- What the client is told. -/
inductive Event where
  | result (work : Work) (relevance : ℕ)
  | removeResult (id : String) (replacementId : Option String)
  deriving DecidableEq

structure SearchResults where
  works : InsertionMap String Work
  publications : InsertionMap String Work
  queries : List SearchQuery
  language : Option String
  deriving DecidableEq

namespace SearchResults

/-- `constructor`. -/
def new (query : String) (language : Option String) : SearchResults where
  works := InsertionMap.empty
  publications := InsertionMap.empty
  queries := [searchQuery P query]
  language := language

def addQuery (results : SearchResults) (query : String) : SearchResults :=
  let parsed := searchQuery P query
  if !parsed.words.isEmpty && !(results.queries.any fun previous =>
      P.normalizeTitle previous.title = P.normalizeTitle parsed.title) then
    { results with queries := results.queries ++ [parsed] }
  else results

/-! ### The order of the works -/

/-- A label of a name that is no more than the title, and whether it names a release. -/
def labelMatches (query : SearchQuery) (title : String) (exact : List String) (label : String) :
    Bool × Bool :=
  let metadata := P.beforeRelease label
  let plain := metadata.getD label
  if P.normalizeTitle plain ∈ exact then (metadata.isSome, true)
  else
    let parsed := searchQuery P plain
    let named := parsed.year.isSome && P.normalizeTitle parsed.title = title
    (metadata.isSome || named, named)

def relevance (queries : List SearchQuery) (work : Work) : ℕ :=
  match queries with
  | [] => 0
  | query :: _ =>
    let names := work.title :: work.aliases
    let title := P.normalizeTitle query.title
    let literal := match query.year with
      | some year => title ++ " " ++ toString year
      | none => title
    let exact := [title, literal]
    let named := names.any fun name => P.normalizeTitle name ∈ exact
    if !isUserUpload work then
      if named then 2 else (queryMatches P query names work.year).toNat
    else if !(work.variants.any fun variant => 40 * 60 ≤ variant.duration.getD 0) then 0
    else if named then 1
    else (names.any fun name =>
      let found := (P.labels name).map (labelMatches P query title exact)
      found.any Prod.fst && found.any Prod.snd).toNat

/-! ### Rebuilding the works -/

def store (language : Option String) (works : InsertionMap String Work) (work : Work) :
    InsertionMap String Work :=
  works.set work.id
    { work with variants := rankVariants P (mergeVariants work.variants) language work }

/-- The publication is of a catalogue: not only uploaded by users, and not only torrents. -/
def isCatalog (work : Work) : Bool :=
  !isUserUpload work && work.variants.any fun variant => variant.transport ≠ .torrent

/-- The first work that is the same as a publication. -/
def targetOf (works : InsertionMap String Work) (incoming : Work) : Option Work :=
  works.values.find? fun work => sameWork P work incoming

/-- A work with a publication that joins it; a publication of a catalogue gives it its identity. -/
def joinedWork (target incoming : Work) : Work :=
  { if isCatalog incoming then mergeWorkMetadata (some target) incoming else target with
    id := if isCatalog incoming then incoming.id else target.id
    notes := mergeNotes (target.notes ++ incoming.notes)
    variants := target.variants ++ incoming.variants }

/-- The first loop of `publish`. -/
def joinPublication (language : Option String) (works : InsertionMap String Work) (incoming : Work) :
    InsertionMap String Work :=
  match targetOf P works incoming with
  | none => store P language works incoming
  | some target =>
    let works := store P language works (joinedWork target incoming)
    if isCatalog incoming && target.id ≠ incoming.id then works.delete target.id else works

/-- The works after the first loop of `publish`. -/
def joined (language : Option String) (publications : List Work) : InsertionMap String Work :=
  publications.foldl (joinPublication P language) InsertionMap.empty

def attachedWork (target publication catalog : Work) : Work :=
  { target with
    notes := mergeNotes (target.notes ++ publication.notes)
    variants := target.variants ++ catalogVariants P publication catalog }

/-- The second loop of `publish`; nothing where the catalogue work is not there any more and the
component would throw. -/
def attachPublication (language : Option String) (catalogs : List Work)
    (works : InsertionMap String Work) (publication : Work) : Option (InsertionMap String Work) :=
  match matchingCatalog P publication catalogs with
  | none => some works
  | some catalog =>
    if catalog.id = publication.id then some works
    else (works.get catalog.id).map fun target =>
      store P language (works.delete publication.id) (attachedWork P target publication catalog)

def rebuild (language : Option String) (publications : List Work) :
    Option (InsertionMap String Work) :=
  let works := joined P language publications
  works.values.foldlM (attachPublication P language (works.values.filter isCatalog)) works

def replacementOf (works : InsertionMap String Work) (removed : Work) : Option Work :=
  works.values.find? fun work => removed.variants.all fun variant =>
    work.variants.any fun current => variantKey current = variantKey variant

/-- What `publish` tells the client of the works that were there and the works that are. -/
def changes (queries : List SearchQuery) (previous works : InsertionMap String Work) : List Event :=
  (works.entries.filterMap fun entry =>
    if previous.get entry.1 = some entry.2 then none
    else some (.result entry.2 (relevance P queries entry.2))) ++
  (previous.entries.filterMap fun entry =>
    if (works.get entry.1).isSome then none
    else some (.removeResult entry.1 ((replacementOf works entry.2).map Work.id)))

def publish (results : SearchResults) : Option (SearchResults × List Event) :=
  (rebuild P results.language results.publications.values).map fun works =>
    ({ results with works := works }, changes P results.queries results.works works)

/-! ### Adding publications -/

/-- What `add` asks of a publication. -/
def accepts (results : SearchResults) (incoming : Work) : Bool :=
  let names := incoming.title :: incoming.aliases ++ incoming.variants.map Variant.title
  incoming.id ≠ "" && incoming.title ≠ "" && !incoming.variants.isEmpty &&
    (results.queries.head?.all fun query => queryYearMatches P query names incoming.year) &&
    results.queries.any fun query => queryMatches P query names incoming.year

/-- A publication with what was reported of it before. -/
def merged (previous : Option Work) (incoming : Work) : Work :=
  { mergeWorkMetadata previous incoming with
    variants := mergeVariants ((previous.elim [] Work.variants) ++ incoming.variants) }

/-- `add`: whether the publication was accepted, and what the client is told. -/
def add (results : SearchResults) (incoming : Work) : Option (Bool × SearchResults × List Event) :=
  if !accepts P results incoming then some (false, results, [])
  else
    let previous := results.publications.get incoming.id
    let publication := merged previous incoming
    if previous = some publication then some (true, results, [])
    else (publish P { results with
      publications := results.publications.set incoming.id publication }).map fun (results, events) =>
        (true, results, events)

end SearchResults

end Qbutt.Search
