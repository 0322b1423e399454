import Mathlib.Data.List.Chain
import Qbutt.Text.Import

/-!
# What an import shows

Whitespace aside, the blocks that are built of a document show the texts of its nodes in their order,
but for those of hidden and excluded elements; a ruby element shows its base text and behind it its
reading in parentheses (`visit_builds`).  The blocks are tidy: what is no separator shows something, and
neighbouring text spans differ in their flags.
-/

namespace Qbutt.Text

open List

/-- A text without its whitespace. -/
def squeeze (text : List Char) : List Char := text.filter fun c => !Rust.isWhitespace c

@[simp] theorem squeeze_nil : squeeze [] = [] := rfl

@[simp] theorem squeeze_append (text text' : List Char) :
    squeeze (text ++ text') = squeeze text ++ squeeze text' := filter_append ..

theorem squeeze_eq_nil {text : List Char} : squeeze text = [] ↔ text.all Rust.isWhitespace = true := by
  simp [squeeze, filter_eq_nil_iff]

def parenthesized (reading : List Char) : List Char :=
  if normalizeChars false reading = [] then [] else '(' :: normalizeChars false reading ++ [')']

def rubyText (base reading : List Char) : List Char := normalizeChars false base ++ parenthesized reading

/-- The element shows no text of its descendants. -/
def isOpaque (name : String) (attributes : List (String × String)) : Bool :=
  isHidden name attributes || ["svg", "img", "br", "hr"].contains name

mutual

/-- The normalised texts of a node in document order, with the text that its ruby elements show. -/
def Node.visibleText (ruby : List Node → List Char) : Node → List Char
  | .text text => normalizeChars false text.toList
  | .element name attributes children =>
    if isOpaque name attributes then []
    else if name = "ruby" then ruby children
    else visibleTexts ruby children
  | .other => []

def visibleTexts (ruby : List Node → List Char) : List Node → List Char
  | [] => []
  | node :: nodes => node.visibleText ruby ++ visibleTexts ruby nodes

end

/-- What the builder shows of a ruby element: all texts of its descendants. -/
def rubyShown (children : List Node) : List Char := rubyText (rubyBase children) (rubyReading children)

/-! ### The state of the builder -/

def spansText (spans : List TextSpan) : List Char := spans.flatMap fun span => span.plainText.toList

@[simp] theorem spansText_nil : spansText [] = [] := rfl

@[simp] theorem spansText_append (spans spans' : List TextSpan) :
    spansText (spans ++ spans') = spansText spans ++ spansText spans' := flatMap_append ..

@[simp] theorem spansText_singleton (span : TextSpan) :
    spansText [span] = span.plainText.toList := flatMap_singleton ..

theorem toList_plainText (block : TextBlock) : block.plainText.toList = spansText block.spans := by
  have hfold : ∀ (spans : List TextSpan) (output : String),
      (spans.foldl (fun output span => output ++ span.plainText) output).toList =
        output.toList ++ spansText spans := by
    intro spans
    induction spans with
    | nil => simp [spansText]
    | cons span spans ih =>
      intro output
      rw [foldl_cons, ih, String.toList_append, append_assoc]
      rfl
  rw [TextBlock.plainText, hfold]
  rfl

theorem toList_plainText_ruby (base reading : List Char) :
    (TextSpan.ruby (normalizeText base) (normalizeText reading)).plainText.toList =
      rubyText base reading := by
  have hempty : normalizeText reading = "" ↔ normalizeChars false reading = [] := by
    rw [normalizeText, ← String.toList_inj, String.toList_ofList]
    rfl
  unfold TextSpan.plainText rubyText parenthesized
  simp only [hempty]
  split_ifs <;> simp [normalizeText]

def Alternating (spans : List TextSpan) : Prop :=
  (spans.map TextSpan.style?).IsChain fun style style' => style = none ∨ style ≠ style'

theorem spansText_pushText (text : String) (style : Style) (spans : List TextSpan) :
    spansText (ChapterBuilder.pushText text style spans) = spansText spans ++ text.toList := by
  unfold ChapterBuilder.pushText
  split
  · next previous bold italic underline hlast =>
    split_ifs
    · obtain ⟨init, rfl⟩ := List.getLast?_eq_some_iff.mp hlast
      simp [TextSpan.plainText]
    · simp [TextSpan.plainText]
  · simp [TextSpan.plainText]

/-- A span behind others keeps the flags alternating if the last one has other flags. -/
theorem Alternating.append {spans : List TextSpan} {span : TextSpan} (h : Alternating spans)
    (hlast : ∀ last ∈ spans.getLast?, last.style? = none ∨ last.style? ≠ span.style?) :
    Alternating (spans ++ [span]) := by
  unfold Alternating
  rw [map_append]
  refine List.IsChain.append h (.singleton _) fun style hstyle style' hstyle' => ?_
  rw [List.getLast?_map, Option.mem_map] at hstyle
  obtain ⟨last, hlast', rfl⟩ := hstyle
  obtain rfl : span.style? = style' := by simpa using hstyle'
  exact hlast last hlast'

variable {style : Style}

theorem alternating_pushText {text : String} {spans : List TextSpan} (h : Alternating spans) :
    Alternating (ChapterBuilder.pushText text style spans) := by
  unfold ChapterBuilder.pushText
  split
  · next previous bold italic underline hlast =>
    by_cases hstyle : style = ⟨bold, italic, underline⟩
    · -- the flags of the last span stay as they are
      rw [if_pos hstyle]
      obtain ⟨init, rfl⟩ := List.getLast?_eq_some_iff.mp hlast
      rw [dropLast_concat]
      unfold Alternating at h ⊢
      rw [map_append] at h ⊢
      exact h
    · rw [if_neg hstyle]
      refine h.append fun last hmem => .inr ?_
      rw [Option.mem_def, hlast] at hmem
      rw [← Option.some.inj hmem]
      intro heq
      exact hstyle (Option.some.inj heq).symm
  · next hlast =>
    refine h.append fun last hmem => .inl ?_
    cases last with
    | text previous bold italic underline => exact absurd hmem (hlast previous bold italic underline)
    | ruby => rfl
    | image => rfl

/-- A block that is no separator shows something. -/
def TextBlock.IsVisible (block : TextBlock) : Prop :=
  block.kind ≠ .separator → ∃ c ∈ block.plainText.toList, Rust.isWhitespace c = false

namespace ChapterBuilder

/-- What a builder has got so far, without whitespace. -/
def content (b : ChapterBuilder) : List Char :=
  squeeze (b.blocks.flatMap fun block => block.plainText.toList) ++ squeeze (spansText b.spans)

structure Tidy (b : ChapterBuilder) : Prop where
  visible : ∀ block ∈ b.blocks, block.IsVisible
  alternating : ∀ block ∈ b.blocks, Alternating block.spans
  spans : Alternating b.spans

/-- A step of a builder adds a text, and keeps it tidy. -/
structure Builds (added : List Char) (b b' : ChapterBuilder) : Prop where
  resolver : b'.imageResolver = b.imageResolver
  content : b'.content = b.content ++ squeeze added
  tidy : b.Tidy → b'.Tidy

theorem Builds.refl (b : ChapterBuilder) : Builds [] b b :=
  ⟨rfl, by rw [squeeze_nil, append_nil], id⟩

variable {b b' : ChapterBuilder} {added added' : List Char}

theorem Builds.trans {b'' : ChapterBuilder} (h : Builds added b b') (h' : Builds added' b' b'') :
    Builds (added ++ added') b b'' where
  resolver := h'.resolver.trans h.resolver
  content := by rw [h'.content, h.content, squeeze_append, append_assoc]
  tidy htidy := h'.tidy (h.tidy htidy)

theorem Builds.congr (h : Builds added b b') (hadded : squeeze added = squeeze added') :
    Builds added' b b' :=
  ⟨h.resolver, by rw [h.content, hadded], h.tidy⟩

theorem finish_builds {kind : TextBlockKind} (h : b.finish kind = .ok b') (hkind : kind ≠ .image) :
    Builds [] b b' ∧ b'.spans = [] := by
  unfold finish at h
  by_cases hempty : b.spans = [] ∧ kind ≠ .separator
  · rw [if_pos hempty] at h
    cases h
    exact ⟨.refl b, hempty.1⟩
  rw [if_neg hempty] at h
  simp only at h
  have htext := toList_plainText { id := "", kind := kind, spans := b.spans }
  by_cases hblank : Rust.isBlank (TextBlock.plainText { id := "", kind := kind, spans := b.spans }) ∧
      kind ≠ .separator ∧ kind ≠ .image
  · -- a blank block has nothing to show
    rw [if_pos hblank] at h
    cases h
    have hnil : squeeze (spansText b.spans) = [] := by
      rw [← htext, squeeze_eq_nil]
      exact hblank.1
    exact ⟨⟨rfl, by simp [content, hnil], fun htidy =>
      ⟨htidy.visible, htidy.alternating, .nil⟩⟩, rfl⟩
  rw [if_neg hblank] at h
  split_ifs at h with hfull
  cases h
  refine ⟨⟨rfl, ?_, fun htidy => ⟨?_, ?_, .nil⟩⟩, rfl⟩
  · simp [content, htext]
  · intro block hmem
    rcases mem_append.mp hmem with hmem | hmem
    · exact htidy.visible block hmem
    · rw [mem_singleton.mp hmem]
      intro hseparator
      by_contra hnone
      refine hblank ⟨?_, hseparator, hkind⟩
      refine all_eq_true.mpr fun c hc => ?_
      by_contra hspace
      exact hnone ⟨c, hc, Bool.eq_false_iff.mpr hspace⟩
  · intro block hmem
    rcases mem_append.mp hmem with hmem | hmem
    · exact htidy.alternating block hmem
    · rw [mem_singleton.mp hmem]
      exact htidy.spans

theorem finishIf_builds {condition : Bool} {kind : TextBlockKind}
    (h : b.finishIf condition kind = .ok b') (hkind : kind ≠ .image) : Builds [] b b' := by
  unfold finishIf at h
  split_ifs at h
  · exact (finish_builds h hkind).1
  · cases h
    exact .refl b

theorem account_eq_ok {bytes : ℕ} (h : b.account bytes = .ok b') :
    b' = { b with textBytes := b.textBytes + bytes, spanCount := b.spanCount + 1 } := by
  unfold account at h
  simp only at h
  split_ifs at h
  exact (Except.ok.inj h).symm

theorem text_builds {text : String} (h : b.text text style = .ok b') : Builds text.toList b b' := by
  unfold ChapterBuilder.text at h
  by_cases hempty : text = ""
  · rw [if_pos hempty] at h
    cases h
    rw [hempty]
    exact .refl b
  rw [if_neg hempty] at h
  obtain ⟨b'', haccount, h⟩ := bind_eq_ok.mp h
  obtain rfl := account_eq_ok haccount
  cases h
  exact
    { resolver := rfl
      content := by simp [content, spansText_pushText]
      tidy := fun htidy => ⟨htidy.visible, htidy.alternating, alternating_pushText htidy.spans⟩ }

theorem ruby_builds {children : List Node} (h : b.ruby children = .ok b') :
    Builds (rubyShown children) b b' := by
  unfold ChapterBuilder.ruby at h
  obtain ⟨b'', haccount, h⟩ := bind_eq_ok.mp h
  obtain rfl := account_eq_ok haccount
  cases h
  exact
    { resolver := rfl
      content := by simp [content, toList_plainText_ruby, rubyShown]
      tidy := fun htidy => ⟨htidy.visible, htidy.alternating,
        htidy.spans.append fun last hlast => by
          cases last with
          | text => exact .inr nofun
          | ruby => exact .inl rfl
          | image => exact .inl rfl⟩ }

theorem noteFragments_builds (attributes : List (String × String)) (b : ChapterBuilder) :
    Builds [] b (b.noteFragments attributes) where
  resolver := rfl
  content := by rw [squeeze_nil, append_nil]; rfl
  tidy htidy := { htidy with }

theorem image_eq (hresolver : b.imageResolver = none) (source alt : String) :
    b.image source alt = .ok b := by
  rw [image, hresolver]

theorem foldlM_image_eq (hresolver : b.imageResolver = none) (images : List (String × String)) :
    images.foldlM (fun b source => b.image source.1 source.2) b = .ok b := by
  induction images with
  | nil => rfl
  | cons source images ih =>
    rw [foldlM_cons, image_eq hresolver]
    exact ih

theorem Builds.none (h : Builds added b b') (hresolver : b.imageResolver = none) :
    b'.imageResolver = none :=
  h.resolver.trans hresolver

theorem blockKind_ne_image (name : String) (parent : Option String) (siblings : ℕ) :
    blockKind name parent siblings ≠ .image := by
  unfold blockKind
  split_ifs <;> nofun

/-- An element that shows no text of its descendants adds none. -/
theorem visit_opaque {parent : Option String} {siblings : ℕ} {depth : ℕ} {name : String}
    {attributes : List (String × String)} {children : List Node}
    (hresolver : b.imageResolver = none) (hmute : isOpaque name attributes = true)
    (h : visit parent siblings style depth (.element name attributes children) b = .ok b') :
    Builds [] b b' := by
  unfold visit at h
  by_cases hdepth : maxDepth < depth
  · rw [if_pos hdepth] at h
    cases h
  rw [if_neg hdepth] at h
  by_cases hhidden : isHidden name attributes = true
  · rw [if_pos hhidden] at h
    cases h
    exact .refl b
  rw [if_neg hhidden] at h
  by_cases hsvg : name = "svg"
  · rw [if_pos hsvg, foldlM_image_eq hresolver] at h
    cases h
    exact .refl b
  rw [if_neg hsvg] at h
  by_cases himg : name = "img"
  · rw [if_pos himg] at h
    cases hsource : attributes.lookup "src" with
    | none =>
      rw [hsource] at h
      cases h
      exact .refl b
    | some source =>
      rw [hsource] at h
      cases (image_eq hresolver source _).symm.trans h
      exact .refl b
  rw [if_neg himg] at h
  by_cases hbr : name = "br"
  · rw [if_pos hbr] at h
    exact (text_builds h).congr (by decide +kernel)
  rw [if_neg hbr] at h
  have hhr : name = "hr" := by simpa [isOpaque, hhidden, hsvg, himg, hbr] using hmute
  rw [if_pos hhr] at h
  obtain ⟨b'', hparagraph, hseparator⟩ := bind_eq_ok.mp h
  exact (finish_builds hparagraph (by decide)).1.trans (finish_builds hseparator (by decide)).1

mutual

theorem visit_builds {parent : Option String} {siblings : ℕ} {style : Style} {depth : ℕ}
    (node : Node) {b b' : ChapterBuilder} (hresolver : b.imageResolver = none)
    (h : visit parent siblings style depth node b = .ok b') :
    Builds (node.visibleText rubyShown) b b' := by
  cases node with
  | text text =>
    rw [visit] at h
    have hadded := text_builds h
    rwa [normalizeText, String.toList_ofList] at hadded
  | other =>
    rw [visit] at h
    cases h
    exact .refl b
  | element name attributes children =>
    rw [Node.visibleText]
    by_cases hmute : isOpaque name attributes = true
    · rw [if_pos hmute]
      exact visit_opaque hresolver hmute h
    rw [if_neg hmute]
    obtain ⟨hhidden, hsvg, himg, hbr, hhr⟩ := by simpa [isOpaque, not_or] using hmute
    rw [visit] at h
    by_cases hdepth : maxDepth < depth
    · rw [if_pos hdepth] at h
      cases h
    rw [if_neg hdepth, if_neg (by rw [hhidden]; nofun), if_neg hsvg, if_neg himg, if_neg hbr,
      if_neg hhr] at h
    by_cases hruby : name = "ruby"
    · rw [if_pos hruby] at h ⊢
      exact ruby_builds h
    rw [if_neg hruby] at h ⊢
    obtain ⟨b₁, hbefore, h⟩ := bind_eq_ok.mp h
    obtain ⟨b₂, hchildren, hafter⟩ := bind_eq_ok.mp h
    have hstart := (finishIf_builds hbefore nofun).trans (noteFragments_builds attributes b₁)
    have hmiddle := visitChildren_builds children (hstart.none hresolver) hchildren
    have hend := finishIf_builds hafter (blockKind_ne_image name parent siblings)
    have hall := hstart.trans (hmiddle.trans hend)
    rwa [append_nil, append_nil] at hall

theorem visitChildren_builds {name : String} {siblings : ℕ} {style : Style} {depth : ℕ}
    (nodes : List Node) {b b' : ChapterBuilder} (hresolver : b.imageResolver = none)
    (h : visitChildren name siblings style depth nodes b = .ok b') :
    Builds (visibleTexts rubyShown nodes) b b' := by
  cases nodes with
  | nil =>
    rw [visitChildren] at h
    cases h
    exact .refl b
  | cons node nodes =>
    rw [visitChildren] at h
    obtain ⟨b'', hnode, h⟩ := bind_eq_ok.mp h
    have hfirst := visit_builds node hresolver hnode
    exact hfirst.trans (visitChildren_builds nodes (hfirst.none hresolver) h)

end

end ChapterBuilder

end Qbutt.Text
