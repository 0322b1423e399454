import Mathlib.Algebra.Group.Int.Defs
import Mathlib.Algebra.Group.Nat.Defs
import Mathlib.Tactic.ByContra
import Qbutt.Algorithm.Transition

/-!
# The page list of the manga reader

`PageModel` is the list model behind the reader's view.  Its updates go through a queue: `publish`
puts one at the end, and the outermost call takes them one by one, changes the rows and signals the
change.  A listener of a signal may publish further updates, which then only wait in the queue.

The system `publisher` has one step for each change, each signal and each update that is taken, so
that anything can be published in between.  `Round`s record what an update found, left and
signalled.

* `applyUpdate_stale`: an update of another chapter or of a row that is not there changes nothing.
* `applyUpdate_covered`: what an update changes of `data`, it signals, with one exception.
* `pageModel_never_stale`: the queue over whole runs.
-/

namespace Qbutt.Reader

open List

/-! ### The rows -/

structure CachedPage where
  url : String
  width : Int
  height : Int
  deriving Repr, DecidableEq

inductive PageLoad where
  | unloaded
  | loading
  | ready (page : CachedPage) (translated : Option CachedPage) (shown : Bool)
  | failed
  deriving Repr, DecidableEq

structure PageRow where
  width : Int
  height : Int
  load : PageLoad
  deriving Repr, DecidableEq

inductive Update where
  | reset (generation count : Nat)
  | window (generation first last keepFirst keepLast anchor : Nat)
  | loading (generation index : Nat)
  | ready (generation index : Nat) (page : CachedPage)
  | failed (generation index : Nat)
  | translationMode (enabled : Bool)
  | clearTranslations
  | translated (generation index : Nat) (page : CachedPage)
  deriving Repr, DecidableEq

/-- The rows, the chapter they belong to, and whether translated pages are shown. -/
structure PageModel where
  rows : List PageRow
  generation : Nat
  translationMode : Bool
  deriving Repr, DecidableEq

/-- The cast `as i32`. -/
def i32 (n : Int) : Int := Int.bmod n (2 ^ 32)

/-- What a view is told.  A row `-1` is the invalid index. -/
inductive Signal where
  | beginReset
  | endReset
  | generationChanged
  | dataChanged (first last : Int)
  deriving Repr, DecidableEq

/-- The values of `data`: nothing, a number, an address, or the text of a page error. -/
inductive Value where
  | none
  | int (n : Int)
  | url (address : String)
  | text
  | pageError
  deriving Repr, DecidableEq

namespace PageModel

def rowCount (m : PageModel) : Int := i32 m.rows.length

/-- `QAbstractListModel::index`: rows that the model does not have get the invalid index. -/
def index (m : PageModel) (row : Int) : Int :=
  if 0 ≤ row ∧ row < m.rowCount then row else -1

def url (m : PageModel) (row : Nat) : String :=
  match m.rows[row]? with
  | some ⟨_, _, .ready page translated _⟩ =>
    ((translated.filter fun _ => m.translationMode).getD page).url
  | _ => ""

def pageState : PageLoad → Int
  | .unloaded => 0
  | .loading => 1
  | .ready .. => 2
  | .failed => 3

def data (m : PageModel) (row role : Int) : Value :=
  if m.index row = -1 then .none
  else
    match m.rows[row.toNat]? with
    | none => .none
    | some r =>
      match role - 256 with
      | 0 => .int row
      | 1 => .url (m.url row.toNat)
      | 2 => .int r.width
      | 3 => .int r.height
      | 4 => .int (pageState r.load)
      | 5 => if r.load = .failed then .pageError else .text
      | _ => .none

/-- The view has shown the page with this address. -/
def confirm (m : PageModel) (index : Nat) (url : String) : PageModel :=
  if m.url index ≠ url then m
  else
    { m with
      rows := m.rows.modify index fun row =>
        match row.load with
        | .ready page translated _ => { row with load := .ready page translated true }
        | _ => row }

/-! ### Updates -/

def resetRows (count : Nat) : List PageRow := List.replicate count ⟨0, 0, .unloaded⟩

def clearRow (row : PageRow) : PageRow :=
  match row.load with
  | .ready page _ shown => { row with load := .ready page none shown }
  | _ => row

def windowRow (first last keepFirst keepLast anchor index : Nat) (row : PageRow) : PageRow :=
  if index ≠ anchor ∧ (index < keepFirst ∨ keepLast < index) then
    { row with load := .unloaded }
  else
    match row.load with
    | .ready page translated _ =>
      if index < first ∨ last < index then
        { row with load := .ready page translated false }
      else row
    | _ => row

def readyRow (page : CachedPage) (_ : PageRow) : PageRow :=
  ⟨page.width, page.height, .ready page none false⟩

def translatedRow (page : CachedPage) (row : PageRow) : PageRow :=
  match row.load with
  | .ready original _ shown => { row with load := .ready original (some page) shown }
  | _ => row

/-- The row shows this page already. -/
def holds (m : PageModel) (index : Nat) (page : CachedPage) : Bool :=
  match m.rows[index]? with
  | some ⟨_, _, .ready previous _ _⟩ => previous.url == page.url
  | _ => false

/-- The rows of an update that names its chapter, and the signal for its rows `first` to `last`. -/
def change (m : PageModel) (generation first last : Nat) (rows : List PageRow) :
    PageModel × List Signal :=
  if m.generation ≠ generation ∨ m.rows.length ≤ last then (m, [])
  else
    let changed := { m with rows }
    (changed, [.dataChanged (changed.index (i32 first)) (changed.index (i32 last))])

/-- One turn of the loop in `publish`: the model it leaves and what it signals then. -/
def applyUpdate (m : PageModel) : Update → PageModel × List Signal
  | .reset generation count =>
    ({ m with rows := resetRows count, generation }, [.endReset, .generationChanged])
  | .translationMode enabled =>
    if m.translationMode ≠ enabled then
      ({ m with translationMode := enabled },
        if m.rows ≠ [] then [.dataChanged (m.index 0) (m.index (i32 (m.rowCount - 1)))] else [])
    else (m, [])
  -- this branch goes on without a signal
  | .clearTranslations => ({ m with rows := m.rows.map clearRow }, [])
  | .window generation first last keepFirst keepLast anchor =>
    m.change generation 0 (m.rows.length - 1)
      (m.rows.mapIdx (windowRow first last keepFirst keepLast anchor))
  | .loading generation index =>
    m.change generation index index (m.rows.modify index ({ · with load := .loading }))
  | .ready generation index page =>
    if m.holds index page then (m, [])
    else m.change generation index index (m.rows.modify index (readyRow page))
  | .translated generation index page =>
    m.change generation index index (m.rows.modify index (translatedRow page))
  | .failed generation index =>
    m.change generation index index (m.rows.modify index ({ · with load := .failed }))

end PageModel

/-! ### The queue -/

/-- What an update found and left, and what was signalled after the change. -/
structure Round where
  update : Update
  before : PageModel
  after : PageModel
  emitted : List Signal
  deriving Repr, DecidableEq

/-- The model with its queue.  `opening` is a reset that is announced but not made; `current` is
the last change with the signals that are still to come; `published` and `finished` are history. -/
structure Publisher where
  model : PageModel
  pending : List Update
  publishing : Bool
  opening : Option (Nat × Nat)
  current : Option (Round × List Signal)
  published : List Update
  finished : List Round
  deriving Repr, DecidableEq

inductive Label where
  | publish (update : Update)
  | confirm (index : Nat) (url : String)
  | proceed
  deriving Repr, DecidableEq

namespace Publisher

def initial : Publisher := ⟨⟨[], 0, false⟩, [], false, none, none, [], []⟩

/-- Make the change of an update; its signals come one by one. -/
def make (s : Publisher) (update : Update) : Publisher :=
  { s with
    model := (s.model.applyUpdate update).1
    current := some (⟨update, s.model, (s.model.applyUpdate update).1, []⟩,
      (s.model.applyUpdate update).2) }

/-- The next thing the loop in `publish` does. -/
def proceed (s : Publisher) : Option Publisher :=
  if s.publishing then
    match s.opening, s.current, s.pending with
    | some (generation, count), _, _ =>
      some ({ s with opening := none }.make (.reset generation count))
    | none, some (round, signal :: rest), _ =>
      some { s with current := some ({ round with emitted := round.emitted ++ [signal] }, rest) }
    | none, some (round, []), _ =>
      some { s with current := none, finished := s.finished ++ [round] }
    | none, none, .reset generation count :: pending =>
      some { s with pending, opening := some (generation, count) }
    | none, none, update :: pending => some ({ s with pending }.make update)
    | none, none, [] => some { s with publishing := false }
  else none

/-- A call of `publish` while the loop runs leaves the update in the queue. -/
def step (s : Publisher) : Label → Option Publisher
  | .publish update =>
    some { s with
      pending := s.pending ++ [update]
      publishing := true
      published := s.published ++ [update] }
  | .confirm index url => some { s with model := s.model.confirm index url }
  | .proceed => s.proceed

/-- The updates that were applied, in this order. -/
def applied (s : Publisher) : List Round := s.finished ++ s.current.toList.map Prod.fst

end Publisher

def publisher : System Publisher Label where
  initial s := s = Publisher.initial
  step := Publisher.step

/-! ### What the view may rely on -/

/-- The update names another chapter or a row that is not there. -/
def Stale (m : PageModel) : Update → Prop
  | .window generation .. => generation ≠ m.generation
  | .loading generation index | .ready generation index _ | .failed generation index
  | .translated generation index _ => generation ≠ m.generation ∨ m.rows.length ≤ index
  | .reset .. | .translationMode _ | .clearTranslations => False

/-- The signal tells a view to read this row again. -/
def Signal.Covers (row : Int) : Signal → Prop
  | .endReset => True
  | .dataChanged first last => 0 ≤ first ∧ first ≤ row ∧ row ≤ last
  | .beginReset | .generationChanged => False

/-- Every row whose data changed in the round was signalled. -/
def Round.Covered (r : Round) : Prop :=
  ∀ row role, r.before.data row role ≠ r.after.data row role → ∃ s ∈ r.emitted, s.Covers row

/-- No row shows another address once its translation is gone. -/
def PageModel.Hidden (m : PageModel) : Prop :=
  m.translationMode = true → ∀ (row : Nat) width height page translated shown,
    (row : Int) < m.rowCount →
    m.rows[row]? = some ⟨width, height, .ready page (some translated) shown⟩ →
    translated.url = page.url

/-- The pages without the note whether they were shown, which `data` does not read. -/
def PageRow.unshown (row : PageRow) : PageRow :=
  match row.load with
  | .ready page translated _ => { row with load := .ready page translated false }
  | _ => row

def PageModel.unshown (m : PageModel) : PageModel := { m with rows := m.rows.map PageRow.unshown }

theorem PageRow.unshown_unshown (row : PageRow) : row.unshown.unshown = row.unshown := by
  rcases row with ⟨_, _, _ | _ | _ | _⟩
  all_goals rfl

theorem PageModel.unshown_unshown (m : PageModel) : m.unshown.unshown = m.unshown := by
  simp only [unshown, map_map, Function.comp_def, PageRow.unshown_unshown]

def fold (updates : List Update) : PageModel :=
  updates.foldl (fun m u => (m.applyUpdate u).1) Publisher.initial.model

/-- The properties of the list view over a run. -/
structure NeverStale (s : Publisher) : Prop where
  order : s.published = s.applied.map Round.update ++
    s.opening.toList.map (fun p => .reset p.1 p.2) ++ s.pending
  idle : s.publishing = false → s.published = s.finished.map Round.update
  once : s.model.unshown = (fold (s.applied.map Round.update)).unshown
  effect : ∀ r ∈ s.applied, r.after = (r.before.applyUpdate r.update).1
  stale : ∀ r ∈ s.applied, Stale r.before r.update → r.after = r.before
  covered : ∀ r ∈ s.finished, r.Covered

/-! ### One update -/

theorem i32_eq (n : Int) : i32 n =
    if n % 4294967296 < 2147483648 then n % 4294967296 else n % 4294967296 - 4294967296 := rfl

theorem i32_lt (n : Int) : i32 n < 2 ^ 31 := by
  rw [i32_eq]
  split
  all_goals omega

theorem i32_of_lt {n : Int} (hn : 0 ≤ n) (h : n < 2 ^ 31) : i32 n = n := by
  rw [i32_eq]
  split
  all_goals omega

/-- The last row has the last valid index, whatever the cast leaves of the length. -/
theorem i32_pred {n : Int} (h : 0 < i32 n) : i32 (n - 1) = i32 n - 1 := by
  rw [i32_eq] at h ⊢
  rw [i32_eq]
  split at h
  all_goals split
  all_goals omega

theorem i32_zero : i32 (0 : Nat) = 0 := rfl

attribute [irreducible] i32

namespace PageModel

variable {m m' : PageModel} {row role : Int}

theorem index_of_mem (h : 0 ≤ row ∧ row < m.rowCount) : m.index row = row :=
  if_pos h

/-- What `data` reads of a row, but for the address. -/
def facts (row : PageRow) : Int × Int × Int := (row.width, row.height, pageState row.load)

theorem pageState_eq_three (load : PageLoad) : pageState load = 3 ↔ load = .failed := by
  cases load
  all_goals simp [pageState]

theorem data_congr (hlen : m.rows.length = m'.rows.length) (hrow : 0 ≤ row ∧ row < m.rowCount →
      m.rows[row.toNat]?.map facts = m'.rows[row.toNat]?.map facts ∧
        m.url row.toNat = m'.url row.toNat) : m.data row role = m'.data row role := by
  have hcount : m.rowCount = m'.rowCount := by rw [rowCount, rowCount, hlen]
  by_cases h : 0 ≤ row ∧ row < m.rowCount
  · obtain ⟨hr, hu⟩ := hrow h
    have hi : m.index row = row := index_of_mem h
    have hi' : m'.index row = row := index_of_mem (hcount ▸ h)
    rw [data, data, hi, hi', hu]
    split
    · rfl
    · rcases hm : m.rows[row.toNat]? with _ | r
      all_goals rcases hm' : m'.rows[row.toNat]? with _ | r'
      all_goals rw [hm, hm'] at hr
      all_goals simp only [Option.map_none, Option.map_some, reduceCtorEq, Option.some.injEq,
        facts, Prod.mk.injEq] at hr
      obtain ⟨hw, hh, hs⟩ := hr
      have hf : r.load = .failed ↔ r'.load = .failed := by
        rw [← pageState_eq_three, ← pageState_eq_three, hs]
      simp only [hw, hh, hs, hf]
  · have hi : m.index row = -1 := if_neg h
    have hi' : m'.index row = -1 := if_neg (hcount ▸ h)
    rw [data, data, if_pos hi, if_pos hi']

theorem data_url {row : Nat} {r : PageRow} (h : (row : Int) < m.rowCount)
    (hr : m.rows[row]? = some r) : m.data row 257 = .url (m.url row) := by
  have hi : m.index row = row := index_of_mem ⟨by omega, h⟩
  rw [data, hi, if_neg (by omega), Int.toNat_natCast, hr]
  rfl

theorem mem_of_data_ne (hlen : m.rows.length = m'.rows.length)
    (h : m.data row role ≠ m'.data row role) : 0 ≤ row ∧ row < m.rowCount := by
  by_contra hn
  exact h (data_congr hlen fun hm => absurd hm hn)

theorem change_eq (generation first last : Nat) (rows : List PageRow) :
    (m.change generation first last rows).1 =
      if m.generation ≠ generation ∨ m.rows.length ≤ last then m else { m with rows } := by
  unfold change
  split <;> rfl

theorem change_covered (generation first last : Nat) (rows : List PageRow)
    (hlen : rows.length = m.rows.length)
    (hsame : 0 ≤ row ∧ row < m.rowCount → m.rows[row.toNat]? ≠ rows[row.toNat]? →
      0 ≤ i32 first ∧ i32 first ≤ row ∧ row ≤ i32 last ∧ i32 last < m.rowCount)
    (h : m.data row role ≠ (m.change generation first last rows).1.data row role) :
    ∃ s ∈ (m.change generation first last rows).2, s.Covers row := by
  unfold change at h ⊢
  split at h
  · exact absurd rfl h
  · rename_i hguard
    rw [if_neg hguard]
    have hm := mem_of_data_ne (by exact hlen.symm) h
    have hne : m.rows[row.toNat]? ≠ rows[row.toNat]? := by
      intro he
      have hu : m.url row.toNat = ({ m with rows } : PageModel).url row.toNat := by
        rw [url, url, he]
      exact h (data_congr hlen.symm fun _ => ⟨congrArg _ he, hu⟩)
    obtain ⟨hf, hfr, hrl, hlr⟩ := hsame hm hne
    have hcount : ({ m with rows } : PageModel).rowCount = m.rowCount := by
      rw [rowCount, rowCount, hlen]
    refine ⟨_, mem_singleton_self _, ?_⟩
    show 0 ≤ _ ∧ _ ≤ row ∧ row ≤ _
    rw [index, index, hcount]
    generalize m.rowCount = n at *
    generalize i32 first = f at *
    generalize i32 last = l at *
    rw [if_pos (by omega), if_pos (by omega)]
    omega

theorem modify_covered (generation index : Nat) (f : PageRow → PageRow) (h : m.data row role ≠
      (m.change generation index index (m.rows.modify index f)).1.data row role) :
    ∃ s ∈ (m.change generation index index (m.rows.modify index f)).2, s.Covers row := by
  apply change_covered generation index index _ (length_modify ..) _ h
  intro hm hne
  have hi : row.toNat = index := by
    by_contra hn
    rw [List.getElem?_modify_ne _ _ (Ne.symm hn)] at hne
    exact hne rfl
  have hlt : row < 2 ^ 31 := Int.lt_trans hm.2 (i32_lt _)
  have hcast : i32 index = index := i32_of_lt (by omega) (by omega)
  omega

theorem all_covered (hm : 0 ≤ row ∧ row < m.rowCount) :
    0 ≤ m.index 0 ∧ m.index 0 ≤ row ∧ row ≤ m.index (i32 (m.rowCount - 1)) := by
  have h0 : m.index 0 = 0 := index_of_mem ⟨Int.le_refl _, by omega⟩
  have hlt : m.rowCount < 2 ^ 31 := i32_lt _
  have hcast : i32 (m.rowCount - 1) = m.rowCount - 1 := i32_of_lt (by omega) (by omega)
  have hl : m.index (m.rowCount - 1) = m.rowCount - 1 := index_of_mem ⟨by omega, by omega⟩
  rw [h0, hcast, hl]
  omega

theorem url_clear (row : Nat) :
    ({ m with rows := m.rows.map clearRow } : PageModel).url row =
      match m.rows[row]? with
      | some ⟨_, _, .ready page _ _⟩ => page.url
      | _ => "" := by
  simp only [url, List.getElem?_map]
  rcases m.rows[row]? with _ | ⟨_, _, _ | _ | _ | _⟩
  all_goals rfl

theorem facts_clearRow (row : PageRow) : facts (clearRow row) = facts row := by
  rcases row with ⟨_, _, _ | _ | _ | _⟩
  all_goals rfl

/-- Clearing shows another address just where a translated page is shown. -/
theorem clear_same_iff :
    (∀ row role, m.data row role = (m.applyUpdate .clearTranslations).1.data row role) ↔
      m.Hidden := by
  have hlen : m.rows.length = (m.rows.map clearRow).length := (length_map _).symm
  constructor
  · intro h hmode row width height page translated shown hrow hr
    have hcount : (m.applyUpdate .clearTranslations).1.rowCount = m.rowCount :=
      congrArg (fun n : Nat => i32 n) hlen.symm
    have hc : (m.applyUpdate .clearTranslations).1.rows[row]? =
        some ⟨width, height, .ready page none shown⟩ := by
      simp only [applyUpdate, List.getElem?_map, hr, Option.map_some, clearRow]
    have hu := h row 257
    rw [data_url hrow hr, data_url (hcount ▸ hrow) hc, Value.url.injEq] at hu
    simpa only [url, hr, hc, hmode, Option.filter_some, if_true, Option.getD_some,
      Option.filter_none, Option.getD_none] using hu
  · intro h row role
    apply data_congr hlen
    intro hm
    constructor
    · simp only [applyUpdate, List.getElem?_map, Option.map_map, Function.comp_def, facts_clearRow]
    · have hh := fun hmode => h hmode row.toNat
      rw [Int.toNat_of_nonneg hm.1] at hh
      rw [applyUpdate, url_clear, url]
      rcases hr : m.rows[row.toNat]? with _ | ⟨w, t, _ | _ | ⟨page, _ | translated, shown⟩ | _⟩
      all_goals try rfl
      · cases hmode : m.translationMode with
        | false => rfl
        | true => exact hh hmode w t page translated shown hm.2 hr

/-- What an update changes is signalled, but for translations that go while they are shown. -/
theorem applyUpdate_covered (u : Update) (hu : u = .clearTranslations → m.Hidden)
    (h : m.data row role ≠ (m.applyUpdate u).1.data row role) :
    ∃ s ∈ (m.applyUpdate u).2, s.Covers row := by
  cases u with
  | reset => exact ⟨.endReset, mem_cons_self, trivial⟩
  | clearTranslations => exact absurd (clear_same_iff.mpr (hu rfl) row role) h
  | loading | failed | translated => exact modify_covered _ _ _ h
  | ready generation index page =>
    rw [applyUpdate] at h ⊢
    split at h
    · exact absurd rfl h
    · rename_i hh
      rw [if_neg hh]
      exact modify_covered _ _ _ h
  | window generation first last keepFirst keepLast anchor =>
    apply change_covered _ _ _ _ (length_mapIdx ..) _ h
    intro hm _
    have hpos : 0 < m.rowCount := by omega
    have hlen : 1 ≤ m.rows.length := by
      by_contra h0
      rw [rowCount, show m.rows.length = 0 by omega, i32_zero] at hpos
      omega
    have hpred : i32 ((m.rows.length - 1 : Nat) : Int) = m.rowCount - 1 := by
      rw [Int.ofNat_sub hlen]
      exact i32_pred hpos
    rw [hpred, i32_zero]
    omega
  | translationMode enabled =>
    rw [applyUpdate] at h ⊢
    split at h
    · rename_i hne
      rw [if_pos hne]
      have hm := mem_of_data_ne (by rfl) h
      have hrows : m.rows ≠ [] := by
        intro h0
        rw [rowCount, h0, length_nil, i32_zero] at hm
        omega
      rw [if_pos hrows]
      exact ⟨_, mem_singleton_self _, all_covered hm⟩
    · exact absurd rfl h

theorem applyUpdate_stale (u : Update) (h : Stale m u) : (m.applyUpdate u).1 = m := by
  cases u with
  | reset | translationMode | clearTranslations => exact h.elim
  | window =>
    rw [applyUpdate, change_eq, if_pos (.inl (Ne.symm h))]
  | loading | failed | translated =>
    rw [applyUpdate, change_eq, if_pos (h.imp_left Ne.symm)]
  | ready =>
    rw [applyUpdate]
    split
    · rfl
    · rw [change_eq, if_pos (h.imp_left Ne.symm)]

/-! ### Whether a page was shown -/

theorem unshown_modify (f : PageRow → PageRow) (hf : ∀ r, (f r).unshown = (f r.unshown).unshown)
    (rows : List PageRow) (index : Nat) :
    (rows.modify index f).map PageRow.unshown =
      ((rows.map PageRow.unshown).modify index f).map PageRow.unshown := by
  apply ext_getElem?
  intro i
  simp only [List.getElem?_map, List.getElem?_modify]
  cases rows[i]? with
  | none => rfl
  | some r =>
    by_cases hi : index = i
    · simpa [hi] using hf r
    · simp [hi, PageRow.unshown_unshown]

theorem unshown_load (load : PageLoad) (row : PageRow) :
    PageRow.unshown { row with load } = PageRow.unshown { row.unshown with load } := by
  rcases row with ⟨_, _, _ | _ | _ | _⟩
  all_goals rfl

theorem unshown_windowRow (first last keepFirst keepLast anchor index : Nat) (row : PageRow) :
    (windowRow first last keepFirst keepLast anchor index row).unshown =
      (windowRow first last keepFirst keepLast anchor index row.unshown).unshown := by
  by_cases hk : index ≠ anchor ∧ (index < keepFirst ∨ keepLast < index)
  · simp only [windowRow, if_pos hk]
    exact unshown_load .unloaded row
  · simp only [windowRow, if_neg hk]
    rcases row with ⟨_, _, _ | _ | _ | _⟩
    all_goals try rfl
    by_cases h : index < first ∨ last < index
    · simp only [PageRow.unshown, if_pos h]
    · simp only [PageRow.unshown, if_neg h]

theorem unshown_translatedRow (page : CachedPage) (row : PageRow) :
    (translatedRow page row).unshown = (translatedRow page row.unshown).unshown := by
  rcases row with ⟨_, _, _ | _ | _ | _⟩
  all_goals rfl

theorem unshown_clearRow (row : PageRow) :
    (clearRow row).unshown = (clearRow row.unshown).unshown := by
  rcases row with ⟨_, _, _ | _ | _ | _⟩
  all_goals rfl

theorem holds_unshown (index : Nat) (page : CachedPage) :
    m.unshown.holds index page = m.holds index page := by
  simp only [holds, unshown, List.getElem?_map]
  rcases m.rows[index]? with _ | ⟨_, _, _ | _ | _ | _⟩
  all_goals rfl

theorem unshown_change (generation first last : Nat) (rows rows' : List PageRow)
    (h : rows.map PageRow.unshown = rows'.map PageRow.unshown) :
    (m.change generation first last rows).1.unshown =
      (m.unshown.change generation first last rows').1.unshown := by
  have hlen : m.unshown.rows.length = m.rows.length := length_map _
  rw [change_eq, change_eq, hlen]
  by_cases hg : m.generation ≠ generation ∨ m.rows.length ≤ last
  · rw [if_pos hg, if_pos (show m.unshown.generation ≠ generation ∨ _ from hg), unshown_unshown]
  · rw [if_neg hg, if_neg (show ¬ (m.unshown.generation ≠ generation ∨ _) from hg)]
    exact congrArg (PageModel.mk · m.generation m.translationMode) h

/-- Updates do the same to models that differ in the shown pages only. -/
theorem unshown_applyUpdate (u : Update) :
    (m.applyUpdate u).1.unshown = (m.unshown.applyUpdate u).1.unshown := by
  cases u with
  | reset => rfl
  | translationMode enabled =>
    rw [applyUpdate, applyUpdate]
    by_cases hm : m.translationMode ≠ enabled
    · rw [if_pos hm, if_pos (show m.unshown.translationMode ≠ enabled from hm)]
      exact (unshown_unshown { m with translationMode := enabled }).symm
    · rw [if_neg hm, if_neg (show ¬ m.unshown.translationMode ≠ enabled from hm)]
      exact (unshown_unshown m).symm
  | clearTranslations =>
    simp only [applyUpdate, unshown, map_map]
    congr 1
    exact map_congr_left fun row _ => unshown_clearRow row
  | window generation first last keepFirst keepLast anchor =>
    rw [applyUpdate, applyUpdate, show m.unshown.rows.length = m.rows.length from length_map _]
    apply unshown_change
    apply ext_getElem?
    intro i
    simp only [unshown, List.getElem?_map, List.getElem?_mapIdx, Option.map_map]
    congr 1
    exact funext fun r => unshown_windowRow _ _ _ _ _ _ r
  | loading | failed =>
    exact unshown_change _ _ _ _ _ (unshown_modify _ (unshown_load _) _ _)
  | translated generation index page =>
    exact unshown_change _ _ _ _ _ (unshown_modify _ (unshown_translatedRow page) _ _)
  | ready generation index page =>
    rw [applyUpdate, applyUpdate, holds_unshown]
    split
    · exact (unshown_unshown m).symm
    · exact unshown_change _ _ _ _ _ (unshown_modify _ (fun _ => rfl) _ _)

theorem confirm_unshown (index : Nat) (address : String) :
    (m.confirm index address).unshown = m.unshown := by
  rw [confirm]
  split
  · rfl
  · rw [unshown, unshown]
    congr 1
    apply ext_getElem?
    intro i
    simp only [List.getElem?_map, List.getElem?_modify]
    rcases m.rows[i]? with _ | ⟨_, _, _ | _ | _ | _⟩
    all_goals try rfl
    all_goals
      by_cases hi : index = i
      · simp [hi, PageRow.unshown]
      · simp [hi]

end PageModel

/-! ### Runs -/

/-- A round's update had the effect it should have, and what it emitted is known. -/
structure Round.Sound (r : Round) (todo : List Signal) : Prop where
  effect : r.after = (r.before.applyUpdate r.update).1
  signals : r.emitted ++ todo = (r.before.applyUpdate r.update).2
  hidden : r.update = .clearTranslations → r.before.Hidden

/-- Translations are only cleared where none is shown. -/
def clearsHidden (s : Publisher) (label : Label) : Prop :=
  label = .proceed → s.publishing = true → s.opening = none → s.current = none →
    s.pending.head? = some .clearTranslations → s.model.Hidden

/-- The invariant of the queue. -/
structure Inv (s : Publisher) : Prop where
  order : s.published = s.applied.map Round.update ++
    s.opening.toList.map (fun p => .reset p.1 p.2) ++ s.pending
  idle : s.publishing = false → s.pending = [] ∧ s.opening = none ∧ s.current = none
  once : s.model.unshown = (fold (s.applied.map Round.update)).unshown
  finished : ∀ r ∈ s.finished, r.Sound []
  current : ∀ p ∈ s.current, p.1.Sound p.2
  opening : s.opening.isSome → s.current = none

theorem fold_append (updates : List Update) (u : Update) :
    fold (updates ++ [u]) = ((fold updates).applyUpdate u).1 := by
  rw [fold, foldl_append]
  rfl

variable {s s' : Publisher}

/-- A change that is made stands at the end of the applied updates. -/
theorem make_inv {u : Update} {rest : List Update} (h : Inv s) (hcur : s.current = none)
    (hrun : s.publishing = true)
    (hnext : s.opening.toList.map (fun p => Update.reset p.1 p.2) ++ s.pending = u :: rest)
    (hidden : u = .clearTranslations → s.model.Hidden) :
    Inv ({ s with opening := none, pending := rest }.make u) := by
  have happlied : s.applied = s.finished := by
    rw [Publisher.applied, hcur, Option.toList_none, map_nil, append_nil]
  have horder := h.order
  rw [append_assoc, hnext, happlied] at horder
  have honce := h.once
  rw [happlied] at honce
  refine ⟨?_, ?_, ?_, h.finished, ?_, ?_⟩
  · simp [Publisher.make, Publisher.applied, horder]
  · intro hp
    exact absurd (hrun.symm.trans hp) (by decide)
  · show PageModel.unshown (s.model.applyUpdate u).1 = _
    rw [Publisher.applied, map_append, Publisher.make, Option.toList_some, map_singleton,
      map_singleton, fold_append, PageModel.unshown_applyUpdate, honce,
      ← PageModel.unshown_applyUpdate]
  · intro p hp
    cases hp
    exact ⟨rfl, rfl, hidden⟩
  · intro hn
    exact absurd hn (by simp [Publisher.make])

theorem proceed_inv (h : Inv s) (hc : clearsHidden s .proceed) (hs : s.proceed = some s') :
    Inv s' := by
  unfold Publisher.proceed at hs
  split at hs
  · rename_i hrun
    have hbusy {P : Prop} (hp : s.publishing = false) : P := absurd (hrun.symm.trans hp) (by decide)
    split at hs
    · -- the rows of a reset
      rename_i generation count hopen
      cases hs
      exact make_inv h (h.opening (by rw [hopen]; rfl)) hrun (by rw [hopen]; rfl)
        (fun hu => nomatch hu)
    · -- one more signal
      rename_i round signal rest hopen hcur
      cases hs
      have hround := h.current _ hcur
      refine ⟨?_, ?_, ?_, h.finished, ?_, ?_⟩
      · have horder := h.order
        simpa [Publisher.applied, hcur] using horder
      · exact hbusy
      · have honce := h.once
        simpa [Publisher.applied, hcur] using honce
      · intro p hp
        cases hp
        refine ⟨hround.effect, ?_, hround.hidden⟩
        rw [append_assoc]
        exact hround.signals
      · intro hn
        rw [hopen] at hn
        exact absurd hn (by decide)
    · -- the round is over
      rename_i round hopen hcur
      cases hs
      refine ⟨?_, ?_, ?_, ?_, ?_, fun _ => rfl⟩
      · have horder := h.order
        simpa [Publisher.applied, hcur] using horder
      · exact hbusy
      · have honce := h.once
        simpa [Publisher.applied, hcur] using honce
      · intro r hr
        rcases mem_append.mp hr with hr | hr
        · exact h.finished r hr
        · obtain rfl := mem_singleton.mp hr
          exact h.current _ hcur
      · intro p hp
        exact absurd hp (by simp)
    · -- a reset is announced
      rename_i generation count pending hopen hcur hpend
      cases hs
      refine ⟨?_, ?_, h.once, h.finished, ?_, fun _ => hcur⟩
      · have horder := h.order
        simpa [Publisher.applied, hopen, hcur, hpend] using horder
      · exact hbusy
      · intro p hp
        exact absurd (hcur ▸ hp) (by simp)
    · rename_i u pending _ hopen hcur hpend
      cases hs
      have hm := make_inv h hcur hrun (by rw [hopen, hpend]; rfl)
        (fun hu => hc rfl hrun hopen hcur (by rw [hpend, hu]; rfl))
      simpa [hopen] using hm
    · -- the queue is empty
      rename_i hopen hcur hpend
      cases hs
      exact { h with idle := fun _ => ⟨hpend, hopen, hcur⟩ }
  · exact absurd hs (by simp)

theorem step_inv {label : Label} (h : Inv s) (hc : clearsHidden s label)
    (hs : publisher.step s label = some s') : Inv s' := by
  cases label with
  | publish update =>
    cases hs
    refine { h with order := ?_, idle := fun hp => absurd hp (by simp) }
    show s.published ++ [update] = _
    rw [h.order, append_assoc]
    rfl
  | confirm index address =>
    cases hs
    refine { h with once := ?_ }
    exact (PageModel.confirm_unshown index address).trans h.once
  | proceed => exact proceed_inv h hc hs

theorem reachable_inv (h : publisher.Reachable clearsHidden s) : Inv s := by
  apply h.invariant
  · rintro _ rfl
    exact ⟨rfl, fun _ => ⟨rfl, rfl, rfl⟩, rfl, by simp [Publisher.initial],
      by simp [Publisher.initial], by simp [Publisher.initial]⟩
  · intro s label s' hi hc hs
    exact step_inv hi hc hs

/-- Where translations are only cleared while none is shown, every update is applied once and in
turn, and the view is told of all it changes before the next one. -/
theorem pageModel_never_stale {s : Publisher} (h : publisher.Reachable clearsHidden s) :
    NeverStale s := by
  have hi := reachable_inv h
  have heffect : ∀ r ∈ s.applied, r.after = (r.before.applyUpdate r.update).1 := by
    intro r hr
    rcases mem_append.mp hr with hr | hr
    · exact (hi.finished r hr).effect
    · obtain ⟨p, hp, rfl⟩ := mem_map.mp hr
      exact (hi.current p (Option.mem_toList.mp hp)).effect
  refine ⟨hi.order, ?_, hi.once, heffect, ?_, ?_⟩
  · intro hp
    obtain ⟨hpend, hopen, hcur⟩ := hi.idle hp
    have horder := hi.order
    simpa [Publisher.applied, hpend, hopen, hcur] using horder
  · intro r hr hstale
    rw [heffect r hr, PageModel.applyUpdate_stale _ hstale]
  · intro r hr row role hne
    have hround := hi.finished r hr
    have hsignals := hround.signals
    rw [append_nil] at hsignals
    rw [hround.effect] at hne
    rw [hsignals]
    exact PageModel.applyUpdate_covered r.update hround.hidden hne

def samplePage : CachedPage := ⟨"page.jpg", 800, 1200⟩

def sampleTranslation : CachedPage := ⟨"translated.png", 800, 1200⟩

/-- A page that is translated; then the translation is cleared, in this mode. -/
def clearing (translationMode : Bool) : List Label :=
  [.publish (.reset 1 1), .publish (.ready 1 0 samplePage),
    .publish (.translated 1 0 sampleTranslation), .publish (.translationMode true),
    .publish (.translationMode translationMode), .publish .clearTranslations] ++
    List.replicate 19 .proceed

theorem pageModel_never_stale_clearing :
    ∃ s, publisher.runAll Publisher.initial (clearing false) = some s ∧ s.finished.length = 6 ∧
      s.model.data 0 257 = .url "page.jpg" ∧ NeverStale s := by
  have hrun : (publisher.runAll Publisher.initial (clearing false)).map (fun s =>
      (s.finished.length, s.model.data 0 257)) = some (6, .url "page.jpg") := by
    decide +kernel
  obtain ⟨s, hs, hstate⟩ := Option.map_eq_some_iff.mp hrun
  rw [Prod.mk.injEq] at hstate
  have hallowed : publisher.AllowedAll (fun s _ =>
      s.pending.head? = some .clearTranslations → s.model.translationMode = false)
      Publisher.initial (clearing false) := by
    decide +kernel
  have hclears := hallowed.mono fun s label h => show clearsHidden s label from
    fun _ _ _ _ hhead hmode => absurd (hmode.symm.trans (h hhead)) (by decide)
  exact ⟨s, hs, hstate.1, hstate.2,
    pageModel_never_stale (System.reachable_of_runAll _ (.start rfl) hclears hs)⟩

theorem cleared_page_not_signalled :
    ∃ s, publisher.Reachable (fun _ _ => True) s ∧ ¬ NeverStale s := by
  have hrun : (publisher.runAll Publisher.initial (clearing true)).map (fun s =>
      s.finished.getLast?.map fun r =>
        (r.before.data 0 257, r.after.data 0 257, r.emitted)) =
      some (some (.url "translated.png", .url "page.jpg", [])) := by
    decide +kernel
  obtain ⟨s, hs, hstate⟩ := Option.map_eq_some_iff.mp hrun
  obtain ⟨r, hr, hdata⟩ := Option.map_eq_some_iff.mp hstate
  simp only [Prod.mk.injEq] at hdata
  refine ⟨s, System.reachable_of_runAll _ (.start rfl)
    (System.allowedAll_of_forall (fun _ _ _ => trivial) _) hs, fun h => ?_⟩
  have hcovered := h.covered r (mem_of_getLast? hr) 0 257 (by rw [hdata.1, hdata.2.1]; decide)
  rw [hdata.2.2] at hcovered
  obtain ⟨_, hmem, _⟩ := hcovered
  exact nomatch hmem

end Qbutt.Reader
