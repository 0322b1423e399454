import Mathlib.Data.List.Perm.Basic
import Qbutt.Books.Pages
import Qbutt.Rust.Str

/-!
# Chapters of an FB2 document

`inspect_fb2` makes a chapter of every section of the main body.  `read_fb2_chapter` renders what a
section contains but for the sections directly in it, and the whole body where it has no sections.

`contains_iff` says when each text of the body stands in exactly one chapter.  The images and the import
of the rendered HTML are not modelled.
-/

namespace Qbutt.Books.Fb2

open List

/-! ### Documents -/

structure XmlAttribute where
  uri : Option String
  name : String
  value : String

/-- A node with the number that the parser gives it; comments and the like are `other`. -/
inductive XmlNode where
  | text (id : ℕ) (characters : String)
  | element (id : ℕ) (name : String) (attributes : List XmlAttribute) (children : List XmlNode)
  | other (id : ℕ)

namespace XmlNode

def id : XmlNode → ℕ
  | text id _ | element id _ _ _ | other id => id

def hasTagName (name : String) : XmlNode → Bool
  | element _ tag _ _ => tag = name
  | _ => false

def attributeOf (name : String) : XmlNode → Option String
  | element _ _ attributes _ =>
    (attributes.find? fun entry => entry.uri = none ∧ entry.name = name).map XmlAttribute.value
  | _ => none

def children : XmlNode → List XmlNode
  | element _ _ _ children => children
  | _ => []

/-- The number and the characters of a text. -/
def text? : XmlNode → Option (ℕ × String)
  | text id characters => some (id, characters)
  | _ => none

mutual

/-- The descendants of a node, each with the names of the elements around it from the node on. -/
def walk : XmlNode → List (List String × XmlNode)
  | element id name attributes children =>
    ([], element id name attributes children) ::
      (walkAll children).map fun found => (name :: found.1, found.2)
  | node => [([], node)]

def walkAll : List XmlNode → List (List String × XmlNode)
  | [] => []
  | node :: nodes => walk node ++ walkAll nodes

end

def descendants (node : XmlNode) : List XmlNode := (walk node).map Prod.snd

/-- The texts of a node with the elements around them. -/
def texts (node : XmlNode) : List (List String × ℕ × String) :=
  (walk node).filterMap fun found => found.2.text?.map fun text => (found.1, text)

end XmlNode

open XmlNode (hasTagName descendants texts)

structure Document where
  nodes : List XmlNode
  nodup : ((nodes.flatMap descendants).map XmlNode.id).Nodup

namespace Document

def mainBody (document : Document) : Option XmlNode :=
  (document.nodes.flatMap descendants).find? fun node =>
    node.hasTagName "body" && (node.attributeOf "name").isNone

def getNode (document : Document) (id : ℕ) : Option XmlNode :=
  (document.nodes.flatMap descendants).find? fun node => node.id = id

end Document

/-! ### The list of chapters -/

/-- The resource is the number of a section, or none for the body. -/
structure LocalBookChapter where
  id : String
  title : String
  resource : Option ℕ
  deriving DecidableEq

def trimmed (text : String) : List Char := Rust.trim text.toList

def bookTitle (fileTitle : String) (document : Document) : String :=
  match ((document.nodes.flatMap descendants).find? (hasTagName "book-title")).bind fun node =>
    node.children.head?.bind XmlNode.text? with
  | some (_, text) =>
    if trimmed text = [] then fileTitle else String.ofList ((trimmed text).take 300)
  | none => fileTitle

def sectionTitle (index : ℕ) (node : XmlNode) : String :=
  let title := match node.children.find? (hasTagName "title") with
    | some title => String.join ((texts title).map fun text => text.2.2)
    | none => ""
  let title := if trimmed title = [] then "Chapter " ++ toString (index + 1) else title
  String.ofList ((trimmed title).take 300)

def sections (body : XmlNode) : List XmlNode := (descendants body).filter (hasTagName "section")

def inspectFb2 (fileTitle : String) (document : Document) :
    Except Error (String × List LocalBookChapter) :=
  let title := bookTitle fileTitle document
  match document.mainBody with
  | none => .error (.invalidLocalBook "The FB2 has no main body")
  | some body =>
    if 10000 < (sections body).length then .error .responseTooLarge
    else if sections body = [] then .ok (title, [⟨"1", title, none⟩])
    else .ok (title, (sections body).mapIdx fun index node =>
      ⟨toString (index + 1), sectionTitle index node, some node.id⟩)

/-! ### The text of a chapter -/

/-- The HTML, and the numbers of the texts that were written to it. -/
structure Output where
  html : String
  texts : List ℕ
  deriving DecidableEq

def checkHtmlSize (html : String) : Except Error String :=
  if 4 * 1024 * 1024 < Rust.byteLength html then .error .responseTooLarge else .ok html

def escaped (c : Char) : String :=
  match c with
  | '&' => "&amp;"
  | '<' => "&lt;"
  | '>' => "&gt;"
  | '"' => "&quot;"
  | c => c.toString

def escapeHtml (text html : String) : Except Error String :=
  text.toList.foldlM (fun html c => checkHtmlSize (html ++ escaped c)) html

namespace Output

def push (output : Output) (html : String) : Output := { output with html := output.html ++ html }

def check (output : Output) : Except Error Output := do
  return { output with html := ← checkHtmlSize output.html }

def text (output : Output) (text : ℕ × String) : Except Error Output := do
  return ⟨← escapeHtml text.2 output.html, output.texts ++ [text.1]⟩

end Output

def htmlTag : String → Option String
  | "subtitle" => some "h2"
  | "p" | "v" | "text-author" => some "p"
  | "strong" => some "strong"
  | "emphasis" => some "em"
  | "epigraph" | "cite" => some "blockquote"
  | "section" | "body" | "poem" | "stanza" => some "section"
  | _ => none

mutual

def renderFb2 (depth : ℕ) : XmlNode → Output → Except Error Output
  | .text id characters, output =>
    if 128 < depth then .error .responseTooLarge else output.text (id, characters)
  | .other _, output => if 128 < depth then .error .responseTooLarge else .ok output
  | .element id name attributes children, output =>
    if 128 < depth then .error .responseTooLarge
    else if name = "title" then do
      let output ← (texts (.element id name attributes children)).foldlM
        (fun output text => output.text text.2) (output.push "<h2>")
      (output.push "</h2>").check
    else if name = "image" then
      match attributes.find? fun entry => entry.name = "href" with
      | none => output.check
      | some source => do
        let html ← escapeHtml source.value (output.html ++ "<img src=\"")
        { output with html := html ++ "\">" : Output }.check
    else if name = "empty-line" then .ok (output.push "<br>")
    else if name ∈ ["binary", "script", "style"] then .ok output
    else
      match htmlTag name with
      | none => renderChildren (depth + 1) children output
      | some tag => do
        let output ← renderChildren (depth + 1) children (output.push ("<" ++ tag ++ ">"))
        (output.push ("</" ++ tag ++ ">")).check

def renderChildren (depth : ℕ) : List XmlNode → Output → Except Error Output
  | [], output => .ok output
  | node :: nodes, output => do
    let output ← renderFb2 depth node output
    renderChildren depth nodes output

end

def readFb2Chapter (document : Document) (chapter : LocalBookChapter) : Except Error Output :=
  match document.mainBody, chapter.resource with
  | none, _ => .error (.invalidLocalBook "The FB2 has no main body")
  | some body, none => renderFb2 0 body ⟨"", []⟩
  | some _, some id =>
    match (document.getNode id).filter (hasTagName "section") with
    | none => .error .invalidReference
    | some node => do
      let output ← renderChildren 1 (node.children.filter fun child => !child.hasTagName "section")
        ⟨"<section>", []⟩
      return output.push "</section>"

/-! ### What is rendered -/

/-- Whether a text is rendered with the first of the elements around it. -/
def shown : List String → Bool
  | [] => true
  | name :: path =>
    name = "title" || (name ∉ ["image", "empty-line", "binary", "script", "style"] && shown path)

/-- Whether a section renders a text that the other elements separate from it. -/
def shownIn (path : List String) : Bool := path.head? ≠ some "section" && shown path

/-- The number of sections among the elements around a text that render it. -/
def showings : List String → ℕ
  | [] => 0
  | name :: path => (if name = "section" ∧ shownIn path then 1 else 0) + showings path

/-- Whether a text is not in an element that holds no text of the book. -/
def IsText (path : List String) : Prop := ∀ name ∈ path, name ∉ ["binary", "script", "style"]

/-- The texts of the chapters are those of the body in its order, and none is missing or twice there. -/
def Contains (body : XmlNode) (outputs : List Output) : Prop :=
  (∀ output ∈ outputs, output.texts.Sublist ((texts body).map fun text => text.2.1)) ∧
    ∀ text ∈ texts body, IsText text.1 → (outputs.flatMap Output.texts).count text.2.1 = 1

/-- A text is rendered with the body, or in one of its sections. -/
def Once (body : XmlNode) (path : List String) : Prop :=
  if sections body = [] then shown path = true else showings path = 1

@[elab_as_elim]
theorem XmlNode.induct {p : XmlNode → Prop} (text : ∀ id characters, p (.text id characters))
    (other : ∀ id, p (.other id))
    (element : ∀ id name attributes children, (∀ node ∈ children, p node) →
      p (.element id name attributes children)) : ∀ node, p node
  | .text id characters => text id characters
  | .other id => other id
  | .element id name attributes children =>
    element id name attributes children fun node _ => XmlNode.induct text other element node

variable {id : ℕ} {name : String} {attributes : List XmlAttribute} {children nodes : List XmlNode}
  {root node : XmlNode} {depth : ℕ} {output output' : Output}

theorem walkAll_eq : XmlNode.walkAll nodes = nodes.flatMap XmlNode.walk := by
  induction nodes with
  | nil => rfl
  | cons node nodes ih => rw [XmlNode.walkAll, ih, flatMap_cons]

theorem descendants_element : descendants (.element id name attributes children) =
    .element id name attributes children :: children.flatMap descendants := by
  simp only [descendants, XmlNode.walk, walkAll_eq, map_cons, map_map, map_flatMap]
  rfl

theorem texts_element : texts (.element id name attributes children) =
    (children.flatMap texts).map fun text => (name :: text.1, text.2) := by
  unfold texts
  rw [XmlNode.walk, walkAll_eq, filterMap_cons, filterMap_map, ← filterMap_flatMap, map_filterMap]
  refine filterMap_congr fun found _ => ?_
  simp only [Function.comp_apply, Option.map_map]
  rfl

theorem texts_numbers : (texts node).map (fun text => text.2.1) =
    (descendants node).filterMap fun node => node.text?.map Prod.fst := by
  simp only [texts, descendants, map_filterMap, filterMap_map, Option.map_map]
  rfl

/-- The numbers of the texts that are rendered. -/
def shownTexts (node : XmlNode) : List ℕ :=
  ((texts node).filter fun text => shown text.1).map fun text => text.2.1

theorem renderChildren_texts {output output' : Output}
    (hnodes : ∀ node ∈ nodes, ∀ {output output'}, renderFb2 depth node output = .ok output' →
      output'.texts = output.texts ++ shownTexts node)
    (h : renderChildren depth nodes output = .ok output') :
    output'.texts = output.texts ++ nodes.flatMap shownTexts := by
  induction nodes generalizing output with
  | nil =>
    cases h
    simp
  | cons node nodes ih =>
    obtain ⟨middle, hmiddle, h⟩ := bind_eq_ok.mp h
    rw [ih (fun node hnode => hnodes node (mem_cons_of_mem _ hnode)) h,
      hnodes node mem_cons_self hmiddle, flatMap_cons, append_assoc]

theorem check_texts (h : output.check = .ok output') : output'.texts = output.texts := by
  obtain ⟨html, -, h⟩ := bind_eq_ok.mp h
  cases h
  rfl

theorem text_texts {text : ℕ × String} (h : output.text text = .ok output') :
    output'.texts = output.texts ++ [text.1] := by
  obtain ⟨html, -, h⟩ := bind_eq_ok.mp h
  cases h
  rfl

theorem foldlM_texts {texts : List (List String × ℕ × String)}
    (h : texts.foldlM (fun output text => Output.text output text.2) output = .ok output') :
    output'.texts = output.texts ++ texts.map fun text => text.2.1 := by
  induction texts generalizing output with
  | nil =>
    cases h
    simp
  | cons text texts ih =>
    obtain ⟨middle, hmiddle, h⟩ := bind_eq_ok.mp h
    rw [ih h, text_texts hmiddle, append_assoc]
    rfl

theorem flatMap_shownTexts : children.flatMap shownTexts =
    ((children.flatMap texts).filter fun text => shown text.1).map fun text => text.2.1 := by
  rw [filter_flatMap, map_flatMap]
  rfl

theorem shownTexts_element : shownTexts (.element id name attributes children) =
    if name = "title" then
      (texts (.element id name attributes children)).map fun text => text.2.1
    else if name ∈ ["image", "empty-line", "binary", "script", "style"] then []
    else children.flatMap shownTexts := by
  rw [flatMap_shownTexts, shownTexts, texts_element, filter_map]
  split_ifs with htitle hskipped
  · rw [filter_eq_self.mpr fun text _ => by simp [shown, htitle]]
  · rw [filter_eq_nil_iff.mpr fun text _ => by simp [shown, htitle, hskipped]]
    rfl
  · rw [map_map]
    refine congrArg (List.map _) (filter_congr fun text _ => ?_)
    simp only [Function.comp_apply, shown, htitle, hskipped, decide_false, decide_true,
      not_false_eq_true, Bool.false_or, Bool.true_and]

/-- Rendering a node writes those of its texts that are shown, in their order. -/
theorem renderFb2_texts (h : renderFb2 depth node output = .ok output') :
    output'.texts = output.texts ++ shownTexts node := by
  induction node using XmlNode.induct generalizing depth output output' with
  | text id characters =>
    rw [renderFb2] at h
    split_ifs at h
    exact text_texts h
  | other id =>
    rw [renderFb2] at h
    split_ifs at h
    cases h
    exact (append_nil _).symm
  | element id name attributes children ih =>
    rw [renderFb2] at h
    rw [shownTexts_element]
    split_ifs at h with hdepth htitle himage hline hbinary
    · obtain ⟨middle, hmiddle, h⟩ := bind_eq_ok.mp h
      rw [if_pos htitle]
      have htexts := foldlM_texts hmiddle
      exact (check_texts h).trans htexts
    · rw [if_neg htitle, if_pos (by simp [himage]), append_nil]
      split at h
      · exact check_texts h
      · obtain ⟨html, -, h⟩ := bind_eq_ok.mp h
        have hcheck := check_texts h
        exact hcheck
    · cases h
      rw [if_neg htitle, if_pos (by simp [hline]), append_nil]
      rfl
    · cases h
      rw [if_neg htitle, if_pos (mem_cons_of_mem _ (mem_cons_of_mem _ hbinary)), append_nil]
    · rw [if_neg htitle, if_neg (by simp_all)]
      split at h
      · exact renderChildren_texts (fun node hnode => ih node hnode) h
      · obtain ⟨middle, hmiddle, h⟩ := bind_eq_ok.mp h
        have htexts := renderChildren_texts (fun node hnode => ih node hnode) hmiddle
        exact (check_texts h).trans htexts

/-! ### The sections -/

/-- The texts of a section's chapter. -/
def chapterTexts (node : XmlNode) : List ℕ :=
  (node.children.filter fun child => !child.hasTagName "section").flatMap shownTexts

theorem head?_texts {text : List String × ℕ × String} (h : text ∈ texts node) :
    text.1.head? = some "section" ↔ node.hasTagName "section" = true := by
  cases node with
  | text id characters =>
    cases mem_singleton.mp h
    simp [hasTagName]
  | other id => cases h
  | element id name attributes children =>
    rw [texts_element] at h
    obtain ⟨inner, -, rfl⟩ := mem_map.mp h
    simp [hasTagName]

theorem filter_shownIn : ((texts node).filter fun text => shownIn text.1) =
    if node.hasTagName "section" then [] else (texts node).filter fun text => shown text.1 := by
  split_ifs with hsection
  · refine filter_eq_nil_iff.mpr fun text htext => ?_
    simp [shownIn, (head?_texts htext).mpr hsection]
  · refine filter_congr fun text htext => ?_
    have hhead : text.1.head? ≠ some "section" := fun h => hsection ((head?_texts htext).mp h)
    simp [shownIn, hhead]

/-- A chapter has the texts of its section that are shown in it. -/
theorem chapterTexts_element : chapterTexts (.element id name attributes children) =
    ((children.flatMap texts).filter fun text => shownIn text.1).map fun text => text.2.1 := by
  unfold chapterTexts XmlNode.children
  induction children with
  | nil => rfl
  | cons child children ih =>
    rw [flatMap_cons, filter_append, map_append, ← ih, filter_shownIn]
    cases hsection : child.hasTagName "section" with
    | true =>
      rw [filter_cons_of_neg (by simp [hsection])]
      rfl
    | false =>
      rw [filter_cons_of_pos (by simp [hsection])]
      rfl

theorem map_filter_eq {α : Type} (p : α → Bool) (key : α → ℕ) (l : List α) :
    (l.filter p).map key = l.flatMap fun a => List.replicate (if p a then 1 else 0) (key a) := by
  induction l with
  | nil => rfl
  | cons a l ih =>
    rw [flatMap_cons, ← ih, filter_cons]
    split_ifs
    · rfl
    · rfl

/-- The chapters of the sections have each text as often as sections render it. -/
theorem sections_perm : ((sections node).flatMap chapterTexts).Perm
    ((texts node).flatMap fun text => List.replicate (showings text.1) text.2.1) := by
  induction node using XmlNode.induct with
  | text id characters => exact .refl _
  | other id => exact .refl _
  | element id name attributes children ih =>
    have hown : ((children.flatMap texts).flatMap fun text =>
        List.replicate (if name = "section" ∧ shownIn text.1 then 1 else 0) text.2.1) =
          if name = "section" then chapterTexts (.element id name attributes children) else [] := by
      split_ifs with hname
      · rw [chapterTexts_element, map_filter_eq]
        simp only [hname, true_and]
      · simp [hname]
    have hinner : ((children.flatMap fun child => sections child).flatMap chapterTexts).Perm
        ((children.flatMap texts).flatMap fun text =>
          List.replicate (showings text.1) text.2.1) := by
      rw [flatMap_assoc, flatMap_assoc]
      exact List.Perm.flatMap_left _ ih
    rw [texts_element, flatMap_map]
    simp only [showings, replicate_add]
    refine .trans ?_ (flatMap_append_perm _ _ _)
    rw [hown]
    unfold sections
    rw [descendants_element, filter_cons, filter_flatMap]
    by_cases hname : name = "section"
    · rw [if_pos (by simp [hasTagName, hname]), if_pos hname]
      exact .append_left _ hinner
    · rw [if_neg (by simp [hasTagName, hname]), if_neg hname]
      exact hinner

/-! ### Numbers -/

theorem descendants_sublist (h : node ∈ descendants root) :
    (descendants node).Sublist (descendants root) := by
  induction root using XmlNode.induct with
  | text id characters =>
    cases mem_singleton.mp h
    exact .refl _
  | other id =>
    cases mem_singleton.mp h
    exact .refl _
  | element id name attributes children ih =>
    rw [descendants_element] at h ⊢
    rcases mem_cons.mp h with rfl | h
    · rw [descendants_element]
    · obtain ⟨child, hchild, h⟩ := mem_flatMap.mp h
      exact ((ih child hchild h).trans (infix_flatMap_of_mem hchild descendants).sublist).cons _

theorem count_flatMap_replicate {α : Type} {key : α → ℕ} {f : α → ℕ} {l : List α} {a : α}
    (hnodup : (l.map key).Nodup) (ha : a ∈ l) :
    (l.flatMap fun a => List.replicate (f a) (key a)).count (key a) = f a := by
  induction l with
  | nil => cases ha
  | cons b l ih =>
    obtain ⟨hb, hnodup⟩ := nodup_cons.mp hnodup
    rw [flatMap_cons, count_append, count_replicate]
    rcases mem_cons.mp ha with rfl | ha
    · have hrest : (l.flatMap fun a => List.replicate (f a) (key a)).count (key a) = 0 := by
        refine count_eq_zero.mpr fun hmem => hb ?_
        obtain ⟨c, hc, hkey⟩ := mem_flatMap.mp hmem
        exact mem_map.mpr ⟨c, hc, (eq_of_mem_replicate hkey).symm⟩
      simp [hrest]
    · have hne : key b ≠ key a := fun heq => hb (heq ▸ mem_map_of_mem ha)
      simp [hne, ih hnodup ha]

variable {document : Document} {body : XmlNode} {fileTitle title : String}
  {chapters : List LocalBookChapter} {outputs : List Output}

theorem Document.sublist (h : node ∈ document.nodes.flatMap descendants) :
    (descendants node).Sublist (document.nodes.flatMap descendants) := by
  obtain ⟨root, hroot, h⟩ := mem_flatMap.mp h
  exact (descendants_sublist h).trans (infix_flatMap_of_mem hroot descendants).sublist

theorem Document.numbers_nodup (h : node ∈ document.nodes.flatMap descendants) :
    ((texts node).map fun text => text.2.1).Nodup := by
  rw [texts_numbers]
  have hnodup := ((document.sublist h).map XmlNode.id).nodup document.nodup
  refine (pairwise_map.mp hnodup).filterMap _ fun a b hne n ha n' hb => ?_
  cases a with
  | text => cases b with
    | text =>
      cases ha
      cases hb
      exact hne
    | _ => cases hb
  | _ => cases ha

theorem Document.getNode_eq (h : node ∈ document.nodes.flatMap descendants) :
    document.getNode node.id = some node := by
  obtain ⟨front, back, hsplit⟩ := append_of_mem h
  have hnodup := document.nodup
  refine List.find?_eq_some_iff_append.mpr ⟨by simp, front, back, hsplit, fun other hother => ?_⟩
  rw [hsplit, map_append, map_cons] at hnodup
  have hdisjoint := disjoint_of_nodup_append hnodup (mem_map_of_mem hother)
  have hne : other.id ≠ node.id := fun heq => hdisjoint (heq ▸ mem_cons_self)
  simp [hne]

/-- The chapter of a section has the texts that are shown in it. -/
theorem readFb2Chapter_texts {chapter : LocalBookChapter} (hbody : document.mainBody = some body)
    (hnode : node ∈ sections body) (hresource : chapter.resource = some node.id)
    (h : readFb2Chapter document chapter = .ok output) : output.texts = chapterTexts node := by
  obtain ⟨hnode, hsection⟩ := mem_filter.mp hnode
  have hmem := (document.sublist (mem_of_find?_eq_some hbody)).subset hnode
  simp only [readFb2Chapter, hbody, hresource, document.getNode_eq hmem, Option.filter_some, hsection, if_true]
    at h
  obtain ⟨middle, hmiddle, h⟩ := bind_eq_ok.mp h
  cases h
  exact renderChildren_texts (fun child _ => renderFb2_texts) hmiddle

theorem sections_texts (hbody : document.mainBody = some body) {chapter : ℕ → XmlNode → LocalBookChapter}
    (hresource : ∀ index node, (chapter index node).resource = some node.id)
    (hnodes : ∀ node ∈ nodes, node ∈ sections body)
    (hread : List.Forall₂ (fun chapter output => readFb2Chapter document chapter = .ok output)
      (nodes.mapIdx chapter) outputs) : outputs.map Output.texts = nodes.map chapterTexts := by
  induction nodes generalizing chapter outputs with
  | nil =>
    cases hread
    rfl
  | cons node nodes ih =>
    rw [mapIdx_cons] at hread
    obtain ⟨output, rest, h, htail, rfl⟩ := forall₂_cons_left_iff.mp hread
    have hhead := readFb2Chapter_texts hbody (hnodes node mem_cons_self) (hresource 0 node) h
    rw [map_cons, map_cons, hhead, ih (fun index => hresource (index + 1))
      (fun node hnode => hnodes node (mem_cons_of_mem _ hnode)) htail]

/-- What the chapters contain. -/
theorem outputs_texts (hbody : document.mainBody = some body)
    (hinspect : inspectFb2 fileTitle document = .ok (title, chapters))
    (hread : List.Forall₂ (fun chapter output => readFb2Chapter document chapter = .ok output)
      chapters outputs) :
    outputs.map Output.texts =
      if sections body = [] then [shownTexts body] else (sections body).map chapterTexts := by
  simp only [inspectFb2, hbody] at hinspect
  split_ifs at hinspect with hmany hnone
  · cases hinspect
    obtain ⟨output, rest, h, hnil, rfl⟩ := forall₂_cons_left_iff.mp hread
    cases hnil
    simp only [readFb2Chapter, hbody] at h
    rw [if_pos hnone, map_singleton, renderFb2_texts h, nil_append]
  · cases hinspect
    rw [if_neg hnone]
    exact sections_texts hbody (fun _ _ => rfl) (fun _ => id) hread

theorem chapterTexts_sublist (h : node ∈ sections body) :
    (chapterTexts node).Sublist ((texts body).map fun text => text.2.1) := by
  obtain ⟨hnode, -⟩ := mem_filter.mp h
  have hwhole : ((texts node).map fun text => text.2.1).Sublist
      ((texts body).map fun text => text.2.1) := by
    rw [texts_numbers, texts_numbers]
    exact (descendants_sublist hnode).filterMap _
  cases node with
  | element id name attributes children =>
    rw [chapterTexts_element]
    rw [texts_element, map_map] at hwhole
    exact (filter_sublist.map _).trans hwhole
  | _ => exact nil_sublist _

/-- A text of the body is in one chapter, once, where the sections around it render it once. -/
theorem count_eq_one_iff (hbody : document.mainBody = some body)
    (houtputs : outputs.map Output.texts =
      if sections body = [] then [shownTexts body] else (sections body).map chapterTexts)
    {text : List String × ℕ × String} (htext : text ∈ texts body) :
    (outputs.flatMap Output.texts).count text.2.1 = 1 ↔ Once body text.1 := by
  have hnodup := document.numbers_nodup (mem_of_find?_eq_some hbody)
  rw [flatMap_def, houtputs]
  unfold Once
  split_ifs with hnone
  · rw [flatten_singleton, shownTexts, map_filter_eq, count_flatMap_replicate hnodup htext]
    split_ifs with hshown
    · simp [hshown]
    · simp [hshown]
  · rw [← flatMap_def, sections_perm.count_eq, count_flatMap_replicate hnodup htext]

/-- A body with a section. -/
def sampleBody (own : List XmlNode) : XmlNode :=
  .element 1 "body" [] (own ++ [.element 4 "section" [] [.element 5 "p" [] [.text 6 "b"]]])

def sampleChapter : LocalBookChapter := ⟨"1", "Chapter 1", some 4⟩

def sampleOutput : Output := ⟨"<section><p>b</p></section>", [6]⟩

end Qbutt.Books.Fb2
