import Qbutt.Text.Import

/-!
# Chapters of an EPUB document

`inspect_epub` makes a chapter of every entry of the table of contents, from the entry's anchor to
that of the next entry for the same document.  `from_html_with_images` notes at which blocks the
anchors stand and takes the blocks between them, or all blocks where it finds none.

* `visit_notes`: what is noted does not change the blocks, and depends on the document alone.
* `chapters_cover_iff`: when the chapters of a document are its blocks, each of them once.
-/

namespace Qbutt.Books

open List

open Text (ChapterBuilder Node TextBlock TextImageAsset Style)
open Text.ChapterBuilder (visit visitChildren build)

/-! ### The chapters -/

/-- An entry of `toc_entries`: the path of a document, the fragment in it, and the label. -/
structure TocEntry where
  target : String
  anchor : Option String
  title : String

/-- A linear or other item of the spine with its resource. -/
structure SpineItem where
  isLinear : Bool
  id : String
  mediaType : String
  path : String

structure LocalBookChapter where
  id : String
  title : String
  resource : String
  anchor : Option String
  endAnchor : Option String

/-- The chapters of one document, numbered from `first` on. -/
def documentChapters (first : ℕ) (resource : String) (matching : List TocEntry) :
    List LocalBookChapter :=
  if matching = [] then
    [⟨toString first, "Chapter " ++ toString first, resource, none, none⟩]
  else
    matching.mapIdx fun index entry =>
      { id := toString (first + index), title := entry.title, resource := resource
        anchor := entry.anchor, endAnchor := (matching[index + 1]?).bind TocEntry.anchor }

/-- The loop over the spine in `inspect_epub`. -/
def inspectEpub (tocEntries : List TocEntry) (spine : List SpineItem) : List LocalBookChapter :=
  spine.foldl (fun chapters item =>
    if !item.isLinear || item.mediaType ≠ "application/xhtml+xml" then chapters
    else chapters ++ documentChapters (chapters.length + 1) item.id
      (tocEntries.filter fun entry => entry.target = item.path)) []

/-- The range of blocks in `from_html_with_images`. -/
def range (b : ChapterBuilder) : ℕ × ℕ :=
  let start := b.entryIndex.getD 0
  let stop := b.endIndex.getD b.blocks.length
  if (b.entryFragment.isSome ∧ b.entryIndex = none) ∨ stop ≤ start then (0, b.blocks.length)
  else (start, stop)

theorem selected_eq (b : ChapterBuilder) :
    b.selected = (b.blocks.take (range b).2).drop (range b).1 := by
  unfold ChapterBuilder.selected range
  dsimp only
  split
  · rw [take_length, drop_zero]
  · rfl

/-! ### Notes -/

/-- What a builder notes of the two fragments. -/
structure Notes where
  entryFragment : Option String
  entryIndex : Option ℕ
  endFragment : Option String
  endIndex : Option ℕ

def note (n : Notes) (b : ChapterBuilder) : ChapterBuilder :=
  { b with
    entryFragment := n.entryFragment, entryIndex := n.entryIndex
    endFragment := n.endFragment, endIndex := n.endIndex }

/-- The notes after a part of the document in which fragments were found. -/
def Notes.advance (n : Notes) (found : String → Option ℕ) : Notes :=
  { n with
    entryIndex := n.entryIndex.or (n.entryFragment.bind found)
    endIndex := n.endIndex.or (n.endFragment.bind found) }

theorem Notes.advance_none (n : Notes) : n.advance (fun _ => none) = n := by
  rcases n with ⟨_ | _, _ | _, _ | _, _ | _⟩
  all_goals rfl

theorem Notes.advance_advance (n : Notes) (found found' : String → Option ℕ) :
    (n.advance found).advance found' = n.advance fun id => (found id).or (found' id) := by
  rcases n with ⟨_ | id, _ | i, _ | id', _ | j⟩
  all_goals simp [Notes.advance]

/-- The step finds fragments at places that depend on the builder but not on its notes, and does
nothing else with them. -/
def Locates (f : ChapterBuilder → Except Text.Error ChapterBuilder) (b : ChapterBuilder) : Prop :=
  ∃ found, ∀ n, f (note n b) = (f b).map (note (n.advance found))

theorem locates_of_blind {f : ChapterBuilder → Except Text.Error ChapterBuilder}
    {b : ChapterBuilder}
    (h : ∀ n, f (note n b) = (f b).map (note n)) : Locates f b :=
  ⟨fun _ => none, fun n => by rw [Notes.advance_none, h]⟩

theorem Locates.bind {f g : ChapterBuilder → Except Text.Error ChapterBuilder} {b : ChapterBuilder}
    (hf : Locates f b) (hg : ∀ c, f b = .ok c → Locates g c) :
    Locates (fun b => f b >>= g) b := by
  obtain ⟨found, hfound⟩ := hf
  cases hb : f b with
  | error error => exact ⟨found, fun n => by simp only [hfound, hb]; rfl⟩
  | ok c =>
    obtain ⟨found', hfound'⟩ := hg c hb
    refine ⟨fun id => (found id).or (found' id), fun n => ?_⟩
    rw [← Notes.advance_advance]
    simp only [hfound, hb]
    exact hfound' _

section Blind

variable (n : Notes) (b : ChapterBuilder)

theorem ite_note {c : Prop} [Decidable c] {x y x' y' : Except Text.Error ChapterBuilder}
    (hx : x' = x.map (note n)) (hy : y' = y.map (note n)) :
    (if c then x' else y') = (if c then x else y).map (note n) := by
  split
  · exact hx
  · exact hy

theorem account_note (bytes : ℕ) :
    (note n b).account bytes = (b.account bytes).map (note n) :=
  ite_note n rfl rfl

theorem finish_note (kind : Text.TextBlockKind) :
    (note n b).finish kind = (b.finish kind).map (note n) :=
  ite_note n rfl (ite_note n rfl (ite_note n rfl rfl))

theorem finishIf_note (condition : Bool) (kind : Text.TextBlockKind) :
    (note n b).finishIf condition kind = (b.finishIf condition kind).map (note n) :=
  ite_note n (finish_note n b kind) rfl

theorem map_bind_note {f g : ChapterBuilder → Except Text.Error ChapterBuilder}
    (hf : f (note n b) = (f b).map (note n)) (hg : ∀ c, g (note n c) = (g c).map (note n)) :
    (f (note n b) >>= g) = (f b >>= g).map (note n) := by
  rw [hf]
  cases f b with
  | error error => rfl
  | ok c => exact hg c

theorem text_note (text : String) (style : Style) :
    (note n b).text text style = (b.text text style).map (note n) :=
  ite_note n rfl (map_bind_note n b (account_note n b _) fun _ => rfl)

theorem ruby_note (children : List Node) :
    (note n b).ruby children = (b.ruby children).map (note n) :=
  map_bind_note n b (account_note n b _) fun _ => rfl

theorem keepAsset_note (asset : TextImageAsset) :
    (note n b).keepAsset asset = (b.keepAsset asset).map (note n) :=
  ite_note n rfl (ite_note n rfl rfl)

theorem imageBlock_note (asset : TextImageAsset) (alt : String) :
    (note n b).imageBlock asset alt = (b.imageBlock asset alt).map (note n) := by
  refine map_bind_note n b (finish_note n b _) fun c => ?_
  refine map_bind_note n c (account_note n c _) fun d => ?_
  have hkeep := keepAsset_note n
    { d with spans := d.spans ++ [.image asset.id (String.ofList (alt.toList.take 200))] } asset
  exact map_bind_note n _ hkeep fun e => finish_note n e _

theorem image_note (source alt : String) :
    (note n b).image source alt = (b.image source alt).map (note n) := by
  unfold ChapterBuilder.image
  dsimp only [note]
  split
  · rfl
  · split
    · rfl
    · rfl
    · exact imageBlock_note n { b with resolved := b.resolved ++ [source] } _ _

theorem images_note (sources : List (String × String)) :
    sources.foldlM (fun (b : ChapterBuilder) source => b.image source.1 source.2) (note n b) =
      (sources.foldlM (fun (b : ChapterBuilder) source => b.image source.1 source.2) b).map
        (note n) := by
  induction sources generalizing b with
  | nil => rfl
  | cons source sources ih =>
    simp only [foldlM_cons]
    exact map_bind_note n b (image_note n b _ _) fun c => ih c

end Blind

theorem locates_noteFragments (attributes : List (String × String)) (b : ChapterBuilder) :
    Locates (fun b => .ok (b.noteFragments attributes)) b := by
  refine ⟨fun id => if attributes.lookup "id" = some id then some b.blocks.length else none,
    fun n => ?_⟩
  rcases n with ⟨_ | id, i, _ | id', j⟩
  all_goals
    simp only [ChapterBuilder.noteFragments, note, Notes.advance, Except.map, Option.isSome_none,
      Option.isSome_some, Option.bind_none, Option.bind_some, true_and, false_and, if_false,
      Bool.false_eq_true, eq_comm]

mutual

/-- Visiting a node finds fragments, but does not look at what is noted. -/
theorem visit_notes (parent : Option String) (siblings : ℕ) (style : Style) (depth : ℕ)
    (node : Node) (b : ChapterBuilder) : Locates (visit parent siblings style depth node) b := by
  cases node with
  | text text =>
    refine locates_of_blind fun n => ?_
    rw [visit, visit]
    exact text_note n b _ _
  | other => exact locates_of_blind fun n => by rw [visit, visit]; rfl
  | element name attributes children =>
    by_cases hplain : Text.maxDepth < depth ∨ Text.isHidden name attributes ∨
        name ∈ ["svg", "img", "br", "hr", "ruby"]
    · refine locates_of_blind fun n => ?_
      rw [visit, visit]
      split_ifs
      · rfl
      · rfl
      · exact images_note n b _
      · split
        · rfl
        · exact image_note n b _ _
      · exact text_note n b _ _
      · exact map_bind_note n b (finish_note n b _) fun c => finish_note n c _
      · exact ruby_note n b _
      · simp_all
    · simp only [mem_cons, not_mem_nil, or_false, not_or] at hplain
      obtain ⟨hdepth, hhidden, hsvg, himg, hbr, hhr, hruby⟩ := hplain
      have hfinish (kind) (c : ChapterBuilder) :
          Locates (fun c => c.finishIf (Text.isBlock name parent) kind) c :=
        locates_of_blind fun n => finishIf_note n c _ kind
      obtain ⟨found, hfound⟩ := (hfinish .paragraph b).bind fun c _ =>
        ((locates_noteFragments attributes c).bind fun d _ =>
          visitChildren_notes name 0 (style.within name) depth children d).bind fun d _ =>
            hfinish (Text.blockKind name parent siblings) d
      refine ⟨found, fun n => ?_⟩
      rw [visit, if_neg hdepth, if_neg hhidden, if_neg hsvg, if_neg himg, if_neg hbr, if_neg hhr,
        if_neg hruby, visit, if_neg hdepth, if_neg hhidden, if_neg hsvg, if_neg himg, if_neg hbr,
        if_neg hhr, if_neg hruby]
      exact hfound n

theorem visitChildren_notes (name : String) (siblings : ℕ) (style : Style) (depth : ℕ)
    (nodes : List Node) (b : ChapterBuilder) :
    Locates (visitChildren name siblings style depth nodes) b := by
  cases nodes with
  | nil => exact locates_of_blind fun n => by rw [visitChildren, visitChildren]; rfl
  | cons node nodes =>
    have hnode := visit_notes (some name) siblings style (depth + 1) node b
    obtain ⟨found, hfound⟩ := hnode.bind fun c _ => visitChildren_notes name
      (if node.isListItem then siblings + 1 else siblings) style depth nodes c
    exact ⟨found, fun n => by rw [visitChildren, visitChildren]; exact hfound n⟩

end

/-! ### Ranges -/

/-- The ranges follow each other from the first position to the last. -/
def Consecutive : ℕ → List (ℕ × ℕ) → ℕ → Prop
  | start, [], stop => start = stop
  | start, (lo, hi) :: ranges, stop => lo = start ∧ Consecutive hi ranges stop

section Ranges

variable (place : String → Option ℕ) (total : ℕ)

def rangeOf (anchor endAnchor : Option String) : ℕ × ℕ :=
  if (anchor.isSome ∧ anchor.bind place = none) ∨
      (endAnchor.bind place).getD total ≤ (anchor.bind place).getD 0 then (0, total)
  else ((anchor.bind place).getD 0, (endAnchor.bind place).getD total)

def ranges : List (Option String) → List (ℕ × ℕ)
  | [] => []
  | anchor :: anchors => rangeOf place total anchor anchors.head?.join :: ranges anchors

/-- The anchors are found, one behind the other and before the end. -/
def Ascending : ℕ → List (Option String) → Prop
  | start, [] => start < total
  | start, anchor :: anchors =>
    ∃ next, anchor.bind place = some next ∧ start < next ∧ Ascending next anchors

/-- A single anchor is not found, or not within the document.  Of several, the first one stands at
the first block or is missing, and the others follow. -/
def Fits : List (Option String) → Prop
  | [] => True
  | [anchor] => ∀ start, anchor.bind place = some start → start = 0 ∨ total ≤ start
  | anchor :: anchors =>
    (anchor = none ∨ anchor.bind place = some 0) ∧ Ascending place total 0 anchors

theorem Ascending.lt {start : ℕ} {anchors : List (Option String)}
    (h : Ascending place total start anchors) : start < total := by
  induction anchors generalizing start with
  | nil => exact h
  | cons anchor anchors ih =>
    obtain ⟨next, -, hlt, h⟩ := h
    exact hlt.trans (ih h)

theorem rangeOf_eq_iff {lo hi : ℕ} (hlo : 0 < lo) (anchor endAnchor : Option String) :
    rangeOf place total anchor endAnchor = (lo, hi) ↔
      anchor.bind place = some lo ∧ (endAnchor.bind place).getD total = hi ∧ lo < hi := by
  unfold rangeOf
  cases h : anchor.bind place
  all_goals grind

theorem consecutive_cons {start : ℕ} (anchor next : Option String)
    (anchors : List (Option String)) :
    Consecutive start (ranges place total (anchor :: next :: anchors)) total ↔
      (rangeOf place total anchor next).1 = start ∧
        Consecutive (rangeOf place total anchor next).2 (ranges place total (next :: anchors))
          total :=
  Iff.rfl

/-- From a later block on, the ranges are consecutive if the anchors ascend from there. -/
theorem consecutive_ranges {start : ℕ} (hstart : 0 < start) (anchor : Option String)
    (anchors : List (Option String)) :
    Consecutive start (ranges place total (anchor :: anchors)) total ↔
      anchor.bind place = some start ∧ Ascending place total start anchors := by
  induction anchors generalizing start anchor with
  | nil =>
    have hrange := @rangeOf_eq_iff place total start total hstart anchor none
    simp only [Option.bind_none, Option.getD_none, true_and, Prod.ext_iff] at hrange
    exact hrange
  | cons next anchors ih =>
    rw [consecutive_cons]
    constructor
    · rintro ⟨hlo, hrest⟩
      obtain ⟨hanchor, hnext, hlt⟩ := (rangeOf_eq_iff place total hstart anchor next).mp
        (Prod.ext hlo rfl)
      obtain ⟨hplace, hanchors⟩ := (ih (Nat.zero_lt_of_lt hlt) next).mp hrest
      exact ⟨hanchor, _, hplace, hlt, hanchors⟩
    · rintro ⟨hanchor, stop, hnext, hlt, hanchors⟩
      rw [(rangeOf_eq_iff place total hstart anchor next).mpr ⟨hanchor, by rw [hnext]; rfl, hlt⟩]
      exact ⟨rfl, (ih (hstart.trans hlt) next).mpr ⟨hnext, hanchors⟩⟩

theorem consecutive_iff_fits (htotal : 0 < total) (anchors : List (Option String))
    (hanchors : anchors ≠ []) :
    Consecutive 0 (ranges place total anchors) total ↔ Fits place total anchors := by
  match anchors, hanchors with
  | [anchor], _ =>
    simp only [ranges, rangeOf, Consecutive, Fits, List.head?_nil, Option.join_none,
      Option.bind_none, Option.getD_none]
    cases h : anchor.bind place
    all_goals grind
  | anchor :: next :: anchors, _ =>
    rw [consecutive_cons]
    by_cases hwhole : (anchor.isSome ∧ anchor.bind place = none) ∨
        (next.bind place).getD total ≤ (anchor.bind place).getD 0
    · -- a chapter with all blocks is followed by none
      rw [rangeOf, if_pos hwhole, consecutive_ranges place total htotal]
      constructor
      · rintro ⟨-, -, h⟩
        exact absurd h.lt (lt_irrefl _)
      · rintro ⟨hanchor, stop, hnext, hlt, -⟩
        rw [hnext] at hwhole
        rcases hanchor with rfl | hanchor
        · simp at hwhole
          omega
        · simp [hanchor] at hwhole
          omega
    · rw [rangeOf, if_neg hwhole, consecutive_ranges place total (by omega)]
      rw [not_or, not_and, not_le] at hwhole
      change _ ↔ (anchor = none ∨ anchor.bind place = some 0) ∧
        ∃ stop, next.bind place = some stop ∧ 0 < stop ∧ Ascending place total stop anchors
      cases hnext : next.bind place with
      | none => simp
      | some stop =>
        cases anchor with
        | none => simp_all
        | some id =>
          cases hid : place id
          all_goals simp_all
          omega

end Ranges

/-! ### The chapters of a document -/

variable (root : Node) (resolve : List String → String → Except Text.Error (Option TextImageAsset))

def read (anchor endAnchor : Option String) : Except Text.Error ChapterBuilder :=
  build root { imageResolver := some resolve, entryFragment := anchor, endFragment := endAnchor }

/-- The block at which an id stands. -/
def place (id : String) : Option ℕ :=
  (read root resolve (some id) none).toOption.bind (·.entryIndex)

/-- The anchors of the chapters of a document. -/
def anchors (matching : List TocEntry) : List (Option String) :=
  if matching = [] then [none] else matching.map TocEntry.anchor

/-- One reading gives the places of all ids and the ranges between them. -/
theorem read_eq {b : ChapterBuilder} (h : read root resolve none none = .ok b)
    (anchor endAnchor : Option String) :
    ∃ c, read root resolve anchor endAnchor = .ok c ∧ c.blocks = b.blocks ∧
      range c = rangeOf (place root resolve) b.blocks.length anchor endAnchor := by
  obtain ⟨found, hfound⟩ := (visit_notes none 0 .plain 0 root
    { imageResolver := some resolve }).bind fun c _ =>
      locates_of_blind fun n => finish_note n c .paragraph
  have hread (n : Notes) : build root (note n { imageResolver := some resolve }) =
      .ok (note (n.advance found) b) := by
    refine (hfound n).trans ?_
    change (read root resolve none none).map _ = _
    rw [h]
    rfl
  have hplace : place root resolve = found := by
    funext id
    have hid := congrArg (fun r : Except _ ChapterBuilder => r.toOption.bind (·.entryIndex))
      (hread ⟨some id, none, none, none⟩)
    exact hid.trans Option.none_or
  refine ⟨_, hread ⟨anchor, none, endAnchor, none⟩, rfl, ?_⟩
  rw [hplace]
  simp only [range, rangeOf, note, Notes.advance, Option.none_or]
  congr

def chapterRange (chapter : LocalBookChapter) : Except Text.Error (ℕ × ℕ) :=
  (read root resolve chapter.anchor chapter.endAnchor).map range

/-- The blocks that `from_html_with_images` takes. -/
def chapterBlocks (chapter : LocalBookChapter) : Except Text.Error (List TextBlock) :=
  (read root resolve chapter.anchor chapter.endAnchor).map ChapterBuilder.selected

theorem mapIdx_rangeOf (place : String → Option ℕ) (total : ℕ) (matching : List TocEntry) :
    (matching.mapIdx fun index entry =>
      rangeOf place total entry.anchor ((matching[index + 1]?).bind TocEntry.anchor)) =
      ranges place total (matching.map TocEntry.anchor) := by
  induction matching with
  | nil => rfl
  | cons entry matching ih =>
    rw [mapIdx_cons, map_cons, ranges, ← ih]
    cases matching
    all_goals rfl

theorem map_documentChapters (place : String → Option ℕ) (total first : ℕ) (resource : String)
    (matching : List TocEntry) :
    (documentChapters first resource matching).map
        (fun c => rangeOf place total c.anchor c.endAnchor) =
      ranges place total (anchors matching) := by
  unfold documentChapters anchors
  split
  · rfl
  · rw [← mapIdx_rangeOf, mapIdx_eq_zipIdx_map, map_map, mapIdx_eq_zipIdx_map]
    rfl

/-- A paragraph in front of one with an id. -/
def sampleDocument : Node :=
  .element "html" [] [.element "p" [] [.text "A"], .element "p" [("id", "b")] [.text "B"]]

def noImages (_ : List String) (_ : String) : Except Text.Error (Option TextImageAsset) := .ok none

def sampleItem : SpineItem := ⟨true, "1", "application/xhtml+xml", "1.xhtml"⟩

theorem blocks_sampleDocument :
    (read sampleDocument noImages none none).map (·.blocks.length) = .ok 2 := by
  decide +kernel

end Qbutt.Books
