import Qbutt.Algorithm.InsertionMap
import Qbutt.Algorithm.SlashPath
import Qbutt.Algorithm.Transition
import Qbutt.Qt.ByteArray

/-!
# Names of categories

A category is named by its path in the tree of categories: sections with slashes between them.  A
name is valid if it has no backslash and no empty section; the empty name, that of no category, is
valid as well (`isValidCategoryName`).
-/

namespace Qbutt.Categories

abbrev CategoryName := List Char

def isPlain (c : Char) : Bool := c ≠ '\\' && c ≠ '/'

/-- What the expression for valid names takes after the first character: characters of sections and
slashes that no slash follows, and at last a character of a section.  Its end may also stand before a
last line feed, which is a character of a section itself. -/
def tailMatches : List Char → Bool
  | [] => false
  | [c] => isPlain c
  | c :: d :: cs => (isPlain c || (c = '/' && d ≠ '/')) && tailMatches (d :: cs)

def isValidCategoryName (name : CategoryName) : Bool :=
  match name with
  | [] => true
  | c :: cs => isPlain c && (cs.isEmpty || tailMatches cs)

/-- What comes after the last slash. -/
def subcategoryName (category : CategoryName) : CategoryName := category.rtakeWhile (· ≠ '/')

def parentCategoryName (category : CategoryName) : CategoryName := parentSection category

def expandFrom (before : List Char) : List Char → List CategoryName
  | [] => [before]
  | c :: cs =>
    if c = '/' then before :: expandFrom (before ++ [c]) cs else expandFrom (before ++ [c]) cs

def expandCategory (category : CategoryName) : List CategoryName := expandFrom [] category

def Within (category name : CategoryName) : Prop :=
  name = category ∨ category ++ ['/'] <+: name

instance (category name : CategoryName) : Decidable (Within category name) :=
  inferInstanceAs (Decidable (_ ∨ _))

def lineage (name : CategoryName) : List CategoryName :=
  if name = [] then [] else name :: parents name

end Qbutt.Categories

/-!
## Categories of a session

The map of categories, the calls that change it, and what the torrents of a session take part in:
each torrent has a category, which its setter keeps as it is while the files of the torrent belong to
an exclusive operation.  What a category does not say itself it takes from the categories above it.

A run also has a listener, which keeps the names of the categories by their signals alone, and the
torrents' jobs and modes and the session's settings change between the calls in any way.
-/

namespace Qbutt.Categories

abbrev Path := List Char

/-- What is used of Qt: `cleanPath` is that of the program's own paths. -/
structure QtPaths where
  cleanPath : List Char → Path
  isAbsolutePath : Path → Bool

namespace QtPaths

variable (Q : QtPaths)

def isAbsolute (path : Path) : Bool :=
  if path.head? = some ':' then false else Q.isAbsolutePath path

/-- The path below another one. -/
def join (lhs rhs : Path) : Path :=
  if rhs = [] then lhs
  else if lhs = [] then rhs
  else Q.cleanPath (lhs ++ '/' :: rhs)

/-- The characters `:?"*<>|`. -/
def isReserved (c : Char) : Bool := "?\"*<>|:".toList.contains c

/-- Each run of reserved characters becomes a space; `inside` is set in a run. -/
def replaceReserved (inside : Bool) : List Char → List Char
  | [] => []
  | c :: cs =>
    if isReserved c then
      if inside then replaceReserved true cs else ' ' :: replaceReserved true cs
    else c :: replaceReserved false cs

def toValidPath (name : List Char) : Path := Q.cleanPath (replaceReserved false name)

end QtPaths

/-! ### The data -/

inductive ShareLimitAction where
  | default | stop | remove | removeWithContent | enableSuperSeeding
  deriving DecidableEq

structure DownloadPathOption where
  enabled : Bool := false
  path : Path := []
  deriving DecidableEq

def defaultRatioLimit : ℚ := -2

def defaultSeedingTimeLimit : ℤ := -2

structure CategoryOptions where
  savePath : Path := []
  downloadPath : Option DownloadPathOption := none
  ratioLimit : ℚ := defaultRatioLimit
  seedingTimeLimit : ℤ := defaultSeedingTimeLimit
  inactiveSeedingTimeLimit : ℤ := defaultSeedingTimeLimit
  shareLimitAction : ShareLimitAction := .default
  deriving DecidableEq

inductive MaintenanceJob where
  | none | handleMetadata | repair | repairChecking | stagingRecovery | completion
  deriving DecidableEq

structure Torrent where
  category : CategoryName
  useAutoTMM : Bool
  savePath : Path
  downloadPath : Path
  maintenanceJob : MaintenanceJob
  deriving DecidableEq

structure Settings where
  savePath : Path
  downloadPath : Path
  isDownloadPathEnabled : Bool
  globalMaxRatio : ℚ
  globalMaxSeedingMinutes : ℤ
  globalMaxInactiveSeedingMinutes : ℤ
  shareLimitAction : ShareLimitAction
  isDisableAutoTMMWhenCategoryChanged : Bool
  isDisableAutoTMMWhenCategorySavePathChanged : Bool
  deriving DecidableEq

structure Session where
  settings : Settings
  categories : InsertionMap CategoryName CategoryOptions
  torrents : InsertionMap ℕ Torrent
  deriving DecidableEq

inductive Signal where
  | categoryAdded (name : CategoryName)
  | categoryRemoved (name : CategoryName)
  | categoryOptionsChanged (name : CategoryName)
  | torrentCategoryChanged (torrent : ℕ) (oldCategory : CategoryName)
  | torrentSavingModeChanged (torrent : ℕ)
  deriving DecidableEq

/-- What a call leaves, what it returns and the signals it emits. -/
structure Outcome (σ : Type) where
  state : σ
  result : Bool
  signals : List Signal
  deriving DecidableEq

/-! ### Torrents -/

namespace Torrent

variable (t : Torrent)

def isRepairing : Bool :=
  t.maintenanceJob = .repair || t.maintenanceJob = .repairChecking ||
    t.maintenanceJob = .stagingRecovery

def hasExclusiveFileOperation : Bool := t.isRepairing || t.maintenanceJob = .completion

def belongsToCategory (category : CategoryName) : Bool :=
  if t.category = [] then category.isEmpty
  else if t.category = category then true
  else (category ++ ['/']).isPrefixOf t.category

end Torrent

/-! ### What categories inherit -/

/-- What the nearest of a name and those above it says itself, and the default if none of them says
anything. -/
def inherited {α : Type} (own : CategoryName → Option α) (default : α) (name : CategoryName) : α :=
  if h : name = [] then default
  else match own name with
    | some value => value
    | none => inherited own default (parentCategoryName name)
  termination_by name.length
  decreasing_by
    have hle : (parentCategoryName name).length ≤ name.length - 1 := length_parentSection_le name
    have hpos : 0 < name.length := List.length_pos_of_ne_nil h
    omega

/-- A value that is not the one that stands for none. -/
def said {α : Type} [DecidableEq α] (default value : α) : Option α :=
  if value = default then none else some value

namespace Session

variable (Q : QtPaths) (s : Session)

def isListed (name : CategoryName) : Bool := (s.categories.get name).isSome

def categoryOptions (categoryName : CategoryName) : CategoryOptions :=
  (s.categories.get categoryName).getD {}

def categoryRatioLimit : CategoryName → ℚ :=
  inherited (fun name => said defaultRatioLimit (s.categoryOptions name).ratioLimit)
    s.settings.globalMaxRatio

def categorySeedingTimeLimit : CategoryName → ℤ :=
  inherited (fun name => said defaultSeedingTimeLimit (s.categoryOptions name).seedingTimeLimit)
    s.settings.globalMaxSeedingMinutes

def categoryInactiveSeedingTimeLimit : CategoryName → ℤ :=
  inherited
    (fun name => said defaultSeedingTimeLimit (s.categoryOptions name).inactiveSeedingTimeLimit)
    s.settings.globalMaxInactiveSeedingMinutes

def categoryShareLimitAction : CategoryName → ShareLimitAction :=
  inherited (fun name => said .default (s.categoryOptions name).shareLimitAction)
    s.settings.shareLimitAction

def categorySavePath (categoryName : CategoryName) (options : CategoryOptions) : Path :=
  if h : categoryName = [] then s.settings.savePath
  else
    let explicit := options.savePath
    let path := if explicit = [] then Q.toValidPath (subcategoryName categoryName) else explicit
    let parentName := parentCategoryName categoryName
    if Q.isAbsolute path then path
    else if explicit = [] then
      Q.join (categorySavePath parentName (s.categoryOptions parentName)) path
    else Q.join s.settings.savePath path
  termination_by categoryName.length
  decreasing_by
    have hle : (parentCategoryName categoryName).length ≤ categoryName.length - 1 :=
      length_parentSection_le categoryName
    have hpos : 0 < categoryName.length := List.length_pos_of_ne_nil h
    omega

/-- `option`, or what is inherited of it. -/
def resolveCategoryDownloadPathOption (categoryName : CategoryName)
    (option : Option DownloadPathOption) : DownloadPathOption :=
  if categoryName = [] then { enabled := s.settings.isDownloadPathEnabled, path := [] }
  else match option with
    | some option => option
    | none =>
      inherited (fun name => (s.categoryOptions name).downloadPath)
        { enabled := s.settings.isDownloadPathEnabled, path := [] } (parentCategoryName categoryName)

/-- The options under which the download path of a parent is read: enabled, even if it is not. -/
def parentDownloadOptions (parentOptions : CategoryOptions) : CategoryOptions :=
  if parentOptions.downloadPath.any (·.enabled) then parentOptions
  else { parentOptions with downloadPath := some { enabled := true, path := [] } }

def categoryDownloadPath (categoryName : CategoryName) (options : CategoryOptions) : Path :=
  let downloadPathOption := s.resolveCategoryDownloadPathOption categoryName options.downloadPath
  if !downloadPathOption.enabled then []
  else if h : categoryName = [] then s.settings.downloadPath
  else
    let path :=
      if downloadPathOption.path = [] then Q.toValidPath (subcategoryName categoryName)
      else downloadPathOption.path
    if Q.isAbsolute path then path
    else
      let parentName := parentCategoryName categoryName
      let parentDownloadPath :=
        categoryDownloadPath parentName (parentDownloadOptions (s.categoryOptions parentName))
      Q.join (if parentDownloadPath = [] then s.settings.downloadPath else parentDownloadPath) path
  termination_by categoryName.length
  decreasing_by
    have hle : (parentCategoryName categoryName).length ≤ categoryName.length - 1 :=
      length_parentSection_le categoryName
    have hpos : 0 < categoryName.length := List.length_pos_of_ne_nil h
    omega

/-! ### Setters of a torrent -/

def setAutoTMMEnabled (id : ℕ) (t : Torrent) (enabled : Bool) : Outcome Torrent :=
  if t.hasExclusiveFileOperation then ⟨t, false, []⟩
  else if t.useAutoTMM = enabled then ⟨t, false, []⟩
  else
    let t := { t with useAutoTMM := enabled }
    let t :=
      if enabled then t
      else
        { t with
          savePath := s.categorySavePath Q t.category (s.categoryOptions t.category)
          downloadPath := s.categoryDownloadPath Q t.category (s.categoryOptions t.category) }
    ⟨t, true, [.torrentSavingModeChanged id]⟩

def setCategory (id : ℕ) (t : Torrent) (category : CategoryName) : Outcome Torrent :=
  if t.hasExclusiveFileOperation then ⟨t, false, []⟩
  else if t.category = category then ⟨t, true, []⟩
  else if !category.isEmpty && !s.isListed category then ⟨t, false, []⟩
  else
    let mode :=
      if s.settings.isDisableAutoTMMWhenCategoryChanged then s.setAutoTMMEnabled Q id t false
      else ⟨t, true, []⟩
    ⟨{ mode.state with category := category }, true,
      mode.signals ++ [.torrentCategoryChanged id mode.state.category]⟩

/-- A loop over the torrents that changes each by itself. -/
def forTorrents (f : ℕ → Torrent → Outcome Torrent) : Session × List Signal :=
  ({ s with torrents := s.torrents.mapValues fun id t => (f id t).state },
    s.torrents.entries.flatMap fun entry => (f entry.1 entry.2).signals)

/-! ### Calls -/

def hasActiveAutoTMMRepair (category : CategoryName) : Bool :=
  s.torrents.values.any fun t =>
    t.isRepairing && t.useAutoTMM && (category.isEmpty || t.belongsToCategory category)

def addParent (name : CategoryName) (made : Session × List Signal) (parent : CategoryName) :
    Session × List Signal :=
  if parent ≠ name ∧ !made.1.isListed parent then
    ({ made.1 with categories := made.1.categories.set parent {} },
      made.2 ++ [.categoryAdded parent])
  else made

def addCategory (name : CategoryName) (options : CategoryOptions) : Outcome Session :=
  if name.isEmpty then ⟨s, false, []⟩
  else if !isValidCategoryName name || s.isListed name then ⟨s, false, []⟩
  else
    let (s, signals) := (expandCategory name).foldl (addParent name) (s, [])
    ⟨{ s with categories := s.categories.set name options }, true,
      signals ++ [.categoryAdded name]⟩

def setCategoryOptions (categoryName : CategoryName) (options : CategoryOptions) :
    Outcome Session :=
  match s.categories.get categoryName with
  | none => ⟨s, false, []⟩
  | some currentOptions =>
    let pathsChange :=
      options.savePath ≠ currentOptions.savePath || options.downloadPath ≠ currentOptions.downloadPath
    if options = currentOptions then ⟨s, true, []⟩
    else if pathsChange && s.hasActiveAutoTMMRepair categoryName then ⟨s, false, []⟩
    else
      let (s, signals) :=
        if s.settings.isDisableAutoTMMWhenCategorySavePathChanged && pathsChange then
          s.forTorrents fun id t =>
            if t.category = categoryName then s.setAutoTMMEnabled Q id t false else ⟨t, true, []⟩
        else (s, [])
      ⟨{ s with categories := s.categories.set categoryName options }, true,
        signals ++ [.categoryOptionsChanged categoryName]⟩

def subcategories (name : CategoryName) : List CategoryName :=
  ((s.categories.entries.map Prod.fst).filter (name ++ ['/']).isPrefixOf).insertionSort
    fun a b => utf16 (String.ofList a) ≤ utf16 (String.ofList b)

def removeCategory (name : CategoryName) : Outcome Session :=
  if s.hasActiveAutoTMMRepair name then ⟨s, false, []⟩
  else
    let parentCategory := parentCategoryName name
    let (s, signals) := s.forTorrents fun id t =>
      if t.belongsToCategory name then s.setCategory Q id t parentCategory else ⟨t, true, []⟩
    let removed := s.subcategories name
    let result := s.isListed name || !removed.isEmpty
    ⟨{ s with
        categories := (s.categories.removeIf (name ++ ['/']).isPrefixOf).delete name }, result,
      signals ++ removed.map .categoryRemoved ++ if result then [.categoryRemoved name] else []⟩

end Session

/-! ### Runs -/

/-- What a listener that keeps the names of the categories makes of a signal: nothing if it is to add
a name that it has or to remove one that it does not have. -/
def hear (names : List CategoryName) : Signal → Option (List CategoryName)
  | .categoryAdded name => if name ∈ names then none else some (name :: names)
  | .categoryRemoved name => if name ∈ names then some (names.erase name) else none
  | _ => some names

structure Run where
  session : Session
  heard : Option (List CategoryName)

inductive Label where
  | addCategory (name : CategoryName) (options : CategoryOptions)
  | setCategoryOptions (categoryName : CategoryName) (options : CategoryOptions)
  | removeCategory (name : CategoryName)
  | setCategory (torrent : ℕ) (category : CategoryName)
  /-- The job and the mode of a torrent change. -/
  | work (torrent : ℕ) (job : MaintenanceJob) (mode : Bool)
  | configure (settings : Settings)

namespace Run

variable (Q : QtPaths)

/-- A call returns, and the listener has heard its signals. -/
def after (r : Run) (outcome : Outcome Session) : Run where
  session := outcome.state
  heard := r.heard.bind fun names => outcome.signals.foldlM hear names

def step (r : Run) : Label → Option Run
  | .addCategory name options => some (r.after (r.session.addCategory name options))
  | .setCategoryOptions categoryName options =>
    some (r.after (r.session.setCategoryOptions Q categoryName options))
  | .removeCategory name => some (r.after (r.session.removeCategory Q name))
  | .setCategory id category =>
    (r.session.torrents.get id).map fun t =>
      let outcome := r.session.setCategory Q id t category
      r.after
        ⟨{ r.session with torrents := r.session.torrents.set id outcome.state }, outcome.result,
          outcome.signals⟩
  | .work id job mode =>
    (r.session.torrents.get id).map fun t =>
      let torrents :=
        r.session.torrents.set id { t with maintenanceJob := job, useAutoTMM := mode }
      { r with session := { r.session with torrents := torrents } }
  | .configure settings => some { r with session := { r.session with settings := settings } }

end Run

end Qbutt.Categories
