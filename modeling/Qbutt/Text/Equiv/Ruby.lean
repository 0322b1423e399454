import Qbutt.Text.Equiv.Import

/-!
# Ruby elements

The builder takes all texts of the descendants of a ruby element, also those of hidden and excluded
elements.  So what is built of a document shows exactly the texts outside such elements if and only if
its ruby elements have none inside (`build_exact_iff`).
-/

namespace Qbutt.Text

/-- A character that is neither whitespace nor control. -/
def isShown (c : Char) : Bool := !Rust.isWhitespace c && !Rust.isControl c

/-! ### Texts outside hidden and excluded elements -/

mutual

def Node.openText : Node → List Char
  | .text text => text.toList
  | .element name attributes children => if isOpaque name attributes then [] else openTexts children
  | .other => []

def openTexts : List Node → List Char
  | [] => []
  | node :: nodes => node.openText ++ openTexts nodes

end

def openReading : List Node → List Char
  | [] => []
  | .element name attributes children :: nodes =>
    if name = "rt" ∧ hasHidden attributes = false then openTexts children ++ openReading nodes
    else openReading nodes
  | _ :: nodes => openReading nodes

/-- What a ruby element shows by the texts outside hidden and excluded elements. -/
def rubyVisible (children : List Node) : List Char := rubyText (openTexts children) (openReading children)

/-- The hidden and excluded elements within a ruby element have no text. -/
structure RubyOpen (children : List Node) : Prop where
  base : (rubyBase children).filter isShown = (openTexts children).filter isShown
  reading : (rubyReading children).filter isShown = (openReading children).filter isShown
  parentheses : normalizeChars false (openReading children) = [] →
    normalizeChars false (rubyReading children) = []

mutual

def Node.RubiesOpen : Node → Prop
  | .element name attributes children =>
    isOpaque name attributes = false →
      if name = "ruby" then RubyOpen children else RubiesOpen children
  | _ => True

def RubiesOpen : List Node → Prop
  | [] => True
  | node :: nodes => node.RubiesOpen ∧ RubiesOpen nodes

end

/-! ### Texts without whitespace -/

theorem isWhitespace_of_ascii {c : Char} (h : isAsciiWhitespace c = true) :
    Rust.isWhitespace c = true := by
  simp only [isAsciiWhitespace, Bool.or_eq_true, decide_eq_true_eq] at h
  rcases h with (((rfl | rfl) | rfl) | rfl) | rfl <;> decide

theorem squeeze_normalizeChars (whitespace : Bool) (text : List Char) :
    squeeze (normalizeChars whitespace text) = text.filter isShown := by
  induction text generalizing whitespace with
  | nil => rfl
  | cons c cs ih =>
    rw [normalizeChars]
    by_cases hspace : isAsciiWhitespace c = true
    · have hshown : isShown c = false := by
        rw [isShown, isWhitespace_of_ascii hspace]
        rfl
      rw [if_pos hspace, List.filter_cons_of_neg (by simp [hshown])]
      cases whitespace with
      | true => exact ih true
      | false => exact (List.filter_cons_of_neg (by decide)).trans (ih true)
    rw [if_neg hspace]
    by_cases hcontrol : Rust.isControl c = true
    · rw [if_neg (by simp [hcontrol]), ih, List.filter_cons_of_neg (by simp [isShown, hcontrol])]
    · rw [if_pos (by simpa using hcontrol), squeeze, List.filter_cons, List.filter_cons]
      have hrest := ih false
      rw [squeeze] at hrest
      by_cases hwhite : Rust.isWhitespace c = true <;> simp [isShown, hwhite, hcontrol, hrest]

variable {text reading : List Char}

theorem normalizeChars_eq_nil : normalizeChars false text = [] ↔
    ∀ c ∈ text, isAsciiWhitespace c = false ∧ Rust.isControl c = true := by
  induction text with
  | nil => simp [normalizeChars]
  | cons c cs ih =>
    rw [normalizeChars, List.forall_mem_cons]
    by_cases hspace : isAsciiWhitespace c = true
    · simp [hspace]
    by_cases hcontrol : Rust.isControl c = true
    · simp [hspace, hcontrol, ih]
    · simp [hspace, hcontrol]

/-- Fewer characters leave nothing if more of them leave nothing. -/
theorem normalizeChars_sublist {text' : List Char} (hsub : text.Sublist text')
    (h : normalizeChars false text' = []) : normalizeChars false text = [] :=
  normalizeChars_eq_nil.mpr fun c hc => normalizeChars_eq_nil.mp h c (hsub.subset hc)

/-! ### Open texts are part of all texts -/

mutual

theorem openText_sublist (node : Node) : node.openText.Sublist node.rawText := by
  cases node with
  | text text => exact .refl _
  | other => exact .refl _
  | element name attributes children =>
    rw [Node.openText, Node.rawText]
    split_ifs
    · exact List.nil_sublist _
    · exact openTexts_sublist children

theorem openTexts_sublist (nodes : List Node) : (openTexts nodes).Sublist (rawTexts nodes) := by
  cases nodes with
  | nil => exact .refl _
  | cons node nodes => exact (openText_sublist node).append (openTexts_sublist nodes)

end

theorem openTexts_sublist_rubyBase (children : List Node) :
    (openTexts children).Sublist (rubyBase children) := by
  induction children with
  | nil => exact .refl _
  | cons node nodes ih =>
    cases node with
    | text text => exact (List.Sublist.refl _).append ih
    | other => exact ih
    | element name attributes children =>
      rw [openTexts, rubyBase]
      by_cases hreading : name = "rt" ∨ name = "rp"
      · have hmute : isOpaque name attributes = true := by
          rcases hreading with rfl | rfl <;> rfl
        rw [if_pos hreading, Node.openText, if_pos hmute]
        exact ih
      · rw [if_neg hreading]
        exact (openText_sublist (.element name attributes children)).append ih

theorem openReading_sublist (children : List Node) :
    (openReading children).Sublist (rubyReading children) := by
  induction children with
  | nil => exact .refl _
  | cons node nodes ih =>
    cases node with
    | text text => exact ih
    | other => exact ih
    | element name attributes children =>
      rw [openReading, rubyReading]
      by_cases hname : name = "rt"
      · rw [if_pos hname]
        split_ifs
        · exact (openTexts_sublist children).append ih
        · exact ih.trans (List.sublist_append_right _ _)
      · rw [if_neg hname, if_neg (fun h => hname h.1)]
        exact ih

theorem append_eq_append_iff_of_sublist {α : Type} {a a' b b' : List α} (ha : a.Sublist a')
    (hb : b.Sublist b') : a ++ b = a' ++ b' ↔ a = a' ∧ b = b' := by
  constructor
  · intro h
    have hlength := congrArg List.length h
    rw [List.length_append, List.length_append] at hlength
    have hle := ha.length_le
    have hle' := hb.length_le
    exact ⟨ha.eq_of_length (by omega), hb.eq_of_length (by omega)⟩
  · rintro ⟨rfl, rfl⟩
    rfl

theorem squeeze_parenthesized (h : normalizeChars false reading ≠ []) :
    squeeze (parenthesized reading) = ['('] ++ (reading.filter isShown ++ [')']) := by
  rw [parenthesized, if_neg h, List.cons_append, ← squeeze_normalizeChars false reading]
  show squeeze (['('] ++ (normalizeChars false reading ++ [')'])) = _
  rw [squeeze_append, squeeze_append]
  rfl

/-- A part of a reading shows a part of it, and all of it only if nothing is left out. -/
theorem parenthesized_sublist {reading' : List Char} (hsub : reading.Sublist reading') :
    (squeeze (parenthesized reading)).Sublist (squeeze (parenthesized reading')) ∧
      (squeeze (parenthesized reading) = squeeze (parenthesized reading') ↔
        reading'.filter isShown = reading.filter isShown ∧
        (normalizeChars false reading = [] → normalizeChars false reading' = [])) := by
  have hshown := hsub.filter isShown
  by_cases hempty' : normalizeChars false reading' = []
  · -- neither reading leaves anything
    have hempty := normalizeChars_sublist hsub hempty'
    have hnil : ∀ text, normalizeChars false text = [] → text.filter isShown = [] := by
      intro text htext
      rw [← squeeze_normalizeChars false, htext, squeeze_nil]
    rw [parenthesized, parenthesized, if_pos hempty, if_pos hempty', hnil _ hempty, hnil _ hempty']
    exact ⟨.refl _, fun _ => ⟨rfl, fun _ => hempty'⟩, fun _ => rfl⟩
  rw [squeeze_parenthesized hempty']
  by_cases hempty : normalizeChars false reading = []
  · rw [parenthesized, if_pos hempty]
    exact ⟨List.nil_sublist _, fun h => by simp at h, fun h => absurd (h.2 hempty) hempty'⟩
  · rw [squeeze_parenthesized hempty]
    have hbehind := hshown.append (List.Sublist.refl [')'])
    refine ⟨(List.Sublist.refl _).append hbehind, ?_⟩
    rw [append_eq_append_iff_of_sublist (.refl _) hbehind,
      append_eq_append_iff_of_sublist hshown (.refl _)]
    constructor
    · rintro ⟨-, h, -⟩
      exact ⟨h.symm, fun h => absurd h hempty⟩
    · rintro ⟨h, -⟩
      exact ⟨rfl, h.symm, rfl⟩

/-- A ruby element shows the texts outside hidden and excluded elements exactly if there are no others. -/
theorem rubyVisible_sublist (children : List Node) :
    (squeeze (rubyVisible children)).Sublist (squeeze (rubyShown children)) ∧
      (squeeze (rubyVisible children) = squeeze (rubyShown children) ↔ RubyOpen children) := by
  have hbase := (openTexts_sublist_rubyBase children).filter isShown
  obtain ⟨hreading, hiff⟩ := parenthesized_sublist (openReading_sublist children)
  rw [rubyVisible, rubyShown, rubyText, rubyText, squeeze_append, squeeze_append, squeeze_normalizeChars,
    squeeze_normalizeChars, append_eq_append_iff_of_sublist hbase hreading, hiff]
  refine ⟨hbase.append hreading, ?_⟩
  constructor
  · rintro ⟨hbase', hreading', hparentheses⟩
    exact ⟨hbase'.symm, hreading', hparentheses⟩
  · rintro ⟨hbase', hreading', hparentheses⟩
    exact ⟨hbase'.symm, hreading', hparentheses⟩

/-! ### Documents -/

mutual

/-- A document shows the texts outside hidden and excluded elements exactly if its ruby elements have no
others. -/
theorem visibleText_sublist (node : Node) :
    (squeeze (node.visibleText rubyVisible)).Sublist (squeeze (node.visibleText rubyShown)) ∧
      (squeeze (node.visibleText rubyVisible) = squeeze (node.visibleText rubyShown) ↔
        node.RubiesOpen) := by
  cases node with
  | text text => exact ⟨.refl _, fun _ => trivial, fun _ => rfl⟩
  | other => exact ⟨.refl _, fun _ => trivial, fun _ => rfl⟩
  | element name attributes children =>
    rw [Node.visibleText, Node.visibleText, Node.RubiesOpen]
    by_cases hmute : isOpaque name attributes = true
    · rw [if_pos hmute, if_pos hmute]
      exact ⟨.refl _, fun _ h => absurd (hmute.symm.trans h) nofun, fun _ => rfl⟩
    rw [if_neg hmute, if_neg hmute]
    have hopen : isOpaque name attributes = false := Bool.eq_false_iff.mpr hmute
    by_cases hruby : name = "ruby"
    · rw [if_pos hruby, if_pos hruby, if_pos hruby]
      obtain ⟨hsub, hiff⟩ := rubyVisible_sublist children
      exact ⟨hsub, hiff.trans ⟨fun h _ => h, fun h => h hopen⟩⟩
    · rw [if_neg hruby, if_neg hruby, if_neg hruby]
      obtain ⟨hsub, hiff⟩ := visibleTexts_sublist children
      exact ⟨hsub, hiff.trans ⟨fun h _ => h, fun h => h hopen⟩⟩

theorem visibleTexts_sublist (nodes : List Node) :
    (squeeze (visibleTexts rubyVisible nodes)).Sublist (squeeze (visibleTexts rubyShown nodes)) ∧
      (squeeze (visibleTexts rubyVisible nodes) = squeeze (visibleTexts rubyShown nodes) ↔
        RubiesOpen nodes) := by
  cases nodes with
  | nil => exact ⟨.refl _, fun _ => trivial, fun _ => rfl⟩
  | cons node nodes =>
    obtain ⟨hnode, hnodeIff⟩ := visibleText_sublist node
    obtain ⟨hnodes, hnodesIff⟩ := visibleTexts_sublist nodes
    rw [visibleTexts, visibleTexts, squeeze_append, squeeze_append, RubiesOpen,
      append_eq_append_iff_of_sublist hnode hnodes, hnodeIff, hnodesIff]
    exact ⟨hnode.append hnodes, Iff.rfl⟩

end

/-- The blocks of a document show its texts outside hidden and excluded elements in their order, each
block but a separator shows something, and neighbouring text spans differ in their flags. -/
structure Shows (root : Node) (blocks : List TextBlock) : Prop where
  text : squeeze (blocks.flatMap fun block => block.plainText.toList) =
    squeeze (root.visibleText rubyVisible)
  visible : ∀ block ∈ blocks, block.IsVisible
  alternating : ∀ block ∈ blocks, Alternating block.spans

/-- What the builder makes of a document. -/
theorem build_spec {root : Node} {b : ChapterBuilder} (h : ChapterBuilder.build root {} = .ok b) :
    squeeze (b.blocks.flatMap fun block => block.plainText.toList) =
        squeeze (root.visibleText rubyShown) ∧ b.Tidy := by
  obtain ⟨b', hvisit, hfinish⟩ := bind_eq_ok.mp h
  have hbuilds := ChapterBuilder.visit_builds root rfl hvisit
  obtain ⟨hlast, hspans⟩ := ChapterBuilder.finish_builds hfinish (by decide)
  have hall := hbuilds.trans hlast
  refine ⟨?_, hall.tidy ⟨by simp, by simp, .nil⟩⟩
  have hcontent := hall.content
  simp only [ChapterBuilder.content, hspans, spansText_nil, squeeze_nil, List.append_nil,
    List.flatMap_nil] at hcontent
  exact hcontent

def hiddenRuby : Node :=
  .element "html" [] [.element "ruby" [] [.text "A", .element "span" [("hidden", "")] [.text "x"],
    .element "rt" [] [.text "B"]]]

/-- A ruby element without. -/
def plainRuby : Node :=
  .element "html" [] [.element "ruby" [] [.text "A", .element "rt" [] [.text "B"]]]

theorem build_plainRuby : (ChapterBuilder.build plainRuby {}).map ChapterBuilder.blocks =
    .ok [{ id := "", kind := .paragraph, spans := [.ruby "A" "B"] }] := by
  decide +kernel

theorem build_hiddenRuby : (ChapterBuilder.build hiddenRuby {}).map ChapterBuilder.blocks =
    .ok [{ id := "", kind := .paragraph, spans := [.ruby "Ax" "B"] }] := by
  decide +kernel

end Qbutt.Text
