import Mathlib.Data.FinEnum
import Qbutt.Qt.Split
import Qbutt.Server.RequestParser

/-!
# Multipart forms

A form as RFC 2046 encodes it (`encodeForm`), and what the parser makes of it.  The body is split at
the lines that end with the delimiter, so a content type that ends with it, or a boundary of dashes
only, is cut in the wrong place; and a name in quotes is cut at its semicolons.
`parsePostMessage_encodeForm_iff` says that these are the forms that are not read as they were
written.
-/

namespace Qbutt.Server

open QByteArray RequestParser List

/-! ### Forms -/

/-- A part of a form; its texts are in Latin-1.  The part of a file may have a name as well. -/
inductive FormPart where
  | post (name payload : Bytes)
  | file (name : Option Bytes) (filename type payload : Bytes)

def dashes : Bytes := [45, 45]

/-- The texts of the headers, around the names. -/
def dispositionText : Bytes := ofText "Content-Disposition: form-data"

def nameText : Bytes := ofText " name=\""

def filenameText : Bytes := ofText " filename=\""

def typeText : Bytes := ofText "Content-Type: "

namespace FormPart

def payload : FormPart → Bytes
  | post _ payload => payload
  | file _ _ _ payload => payload

def fieldText : Option Bytes → Bytes
  | none => dispositionText
  | some name => dispositionText ++ 59 :: (nameText ++ (name ++ [34]))

def headerLines : FormPart → List Bytes
  | post name _ => [dispositionText ++ 59 :: (nameText ++ (name ++ [34]))]
  | file name filename type _ =>
    [fieldText name ++ 59 :: (filenameText ++ (filename ++ [34])), typeText ++ type]

/-- What is behind the delimiter of a part. -/
def text (part : FormPart) : Bytes :=
  part.headerLines.flatMap (fun line => line ++ CRLF) ++ (CRLF ++ (part.payload ++ CRLF))

/-- What the parser should make of a part with some payload. -/
def addPayload (qt : QtText) (request : Request) (payload : Bytes) : FormPart → Request
  | post name _ =>
    { request with posts := AList.insert (fromLatin1 name) (qt.fromUtf8 payload) request.posts }
  | file _ filename type _ =>
    { request with files := request.files ++ [⟨fromLatin1 filename, fromLatin1 type, payload⟩] }

/-- What the parser should make of a part. -/
def add (qt : QtText) (request : Request) (part : FormPart) : Request :=
  part.addPayload qt request part.payload

/-- A text that may stand in quotes. -/
def IsName (name : Bytes) : Prop := 13 ∉ name ∧ 10 ∉ name ∧ 34 ∉ name

/-- A part that can be encoded: names have neither line ends nor quotes, and a content type has
neither line ends nor blanks around it. -/
def IsValid : FormPart → Prop
  | post name _ => IsName name
  | file name filename type _ => (∀ n, name = some n → IsName n) ∧ IsName filename ∧
    13 ∉ type ∧ 10 ∉ type ∧ trimmed type = type

/-- A part that is cut nowhere: the name that counts has no semicolon, and the content type does not
end with the delimiter. -/
def IsWhole (boundary : Bytes) : FormPart → Prop
  | post name _ => 59 ∉ name
  | file _ filename type _ => 59 ∉ filename ∧ ¬ dashes ++ boundary <:+ type

end FormPart

/-- The bytes of a boundary: the printable ones but the quote. -/
def isBoundaryByte (b : UInt8) : Bool := 32 ≤ b && b ≤ 126 && b != 34

/-- A boundary of any length; those of RFC 2046 are among them. -/
def IsBoundary (boundary : Bytes) : Prop :=
  boundary ≠ [] ∧ boundary.all isBoundaryByte = true

/-- A form: its parts behind delimiters, and the closing delimiter. -/
def encodeForm (boundary : Bytes) (parts : List FormPart) : Bytes :=
  parts.flatMap (fun part => dashes ++ boundary ++ CRLF ++ part.text) ++
    (dashes ++ boundary ++ dashes ++ CRLF)

def formContentType (boundary : Bytes) (quoted : Bool) : String :=
  String.ofList ("multipart/form-data; boundary=".toList ++
    (fromLatin1 (if quoted then 34 :: (boundary ++ [34]) else boundary)).toList)

/-! ### Boundaries -/

variable {b : UInt8} {data line xs payload directive : Bytes}

section Boundary

variable {boundary : Bytes}

theorem not_mem_boundary (hboundary : IsBoundary boundary) (hb : isBoundaryByte b = false) :
    b ∉ boundary := by
  intro hmem
  exact absurd (all_eq_true.mp hboundary.2 b hmem) (by rw [hb]; nofun)

/-- A delimiter before its line end. -/
def delimiter (boundary : Bytes) : Bytes := dashes ++ boundary

theorem not_mem_delimiter (hboundary : IsBoundary boundary) (hb : isBoundaryByte b = false)
    (hdash : b ≠ 45) : b ∉ delimiter boundary := by
  rw [delimiter, mem_append, not_or]
  refine ⟨?_, not_mem_boundary hboundary hb⟩
  simpa [dashes] using hdash

theorem lf_not_mem (hboundary : IsBoundary boundary) :
    (10 : UInt8) ∉ delimiter boundary ++ [13] := by
  rw [mem_append, not_or]
  exact ⟨not_mem_delimiter hboundary (by decide) (by decide), by decide⟩

/-- A delimiter that is at the end of a text and of a text behind it is at the end of the latter, if
it does not reach into the former. -/
theorem suffix_of_suffix_append {front back : Bytes} (h : xs <:+ front ++ back)
    (hfront : ∀ ys, ys ≠ [] → ys <:+ front → ¬ ys <+: xs) : xs <:+ back := by
  obtain ⟨lead, hlead⟩ := h
  obtain ⟨more, rfl, hmore⟩ | ⟨more, rfl, hmore⟩ := append_eq_append_iff.mp hlead
  · -- the delimiter starts in the front
    by_cases hempty : more = []
    · rw [hempty, nil_append] at hmore
      rw [hmore]
    · exact absurd ⟨back, hmore.symm⟩ (hfront more hempty ⟨lead, rfl⟩)
  · exact ⟨more, hmore.symm⟩

theorem dashes_append_delimiter (hall : ∀ b ∈ boundary, b = 45) :
    dashes ++ delimiter boundary = delimiter boundary ++ dashes := by
  have hrepeat := eq_replicate_of_mem hall
  rw [delimiter, hrepeat, show dashes = List.replicate 2 45 from rfl]
  simp only [replicate_append_replicate]
  congr 1
  omega

theorem delimiter_suffix_closing_iff (boundary : Bytes) :
    delimiter boundary <:+ delimiter boundary ++ dashes ↔ ∀ b ∈ boundary, b = 45 := by
  constructor
  · rintro ⟨lead, hlead⟩
    have hlength := congrArg List.length hlead
    simp only [delimiter, dashes, length_append, length_cons, length_nil] at hlength
    have hrotate : boundary ++ dashes = dashes ++ boundary := by
      have hdrop := congrArg (List.drop 2) hlead
      rw [drop_left' (by omega)] at hdrop
      exact hdrop.symm
    have hall : ∀ (i : ℕ) (b : UInt8), boundary[i]? = some b → b = 45 := by
      intro i
      induction i using Nat.strong_induction_on with
      | _ i ih =>
        intro b hb
        have hi : i < boundary.length := (List.getElem?_eq_some_iff.mp hb).1
        have hget := congrArg (fun xs : Bytes => xs[i]?) hrotate
        rw [List.getElem?_append_left hi, hb] at hget
        by_cases htwo : i < 2
        · rw [List.getElem?_append_left htwo] at hget
          obtain rfl | rfl : i = 0 ∨ i = 1 := by omega
          · exact Option.some.inj hget
          · exact Option.some.inj hget
        · rw [List.getElem?_append_right (by exact Nat.not_lt.mp htwo)] at hget
          exact ih (i - 2) (by omega) b hget.symm
    intro b hb
    obtain ⟨i, hi, rfl⟩ := getElem_of_mem hb
    exact hall i _ (List.getElem?_eq_getElem hi)
  · exact fun hall => ⟨dashes, dashes_append_delimiter hall⟩

end Boundary

/-! ### Lines of a part -/

variable {part : FormPart} {request request' : Request}

namespace FormPart

def payloadLines (payload : Bytes) : List Bytes :=
  (payload.splitOn 10).dropLast ++ [((payload.splitOn 10).getLast?.getD []) ++ [13]]

def lines (part : FormPart) : List Bytes :=
  part.headerLines.map (fun line => line ++ [13]) ++ [13] :: payloadLines part.payload

theorem payloadLines_eq {pieces : List Bytes} {last : Bytes}
    (hpieces : ∀ l ∈ pieces, (10 : UInt8) ∉ l) (hlast : (10 : UInt8) ∉ last) :
    payloadLines (unlines 10 pieces ++ last) = pieces ++ [last ++ [13]] := by
  rw [payloadLines, splitOn_unlines hpieces hlast, dropLast_concat, List.getLast?_concat,
    Option.getD_some]

theorem unlines_payloadLines (payload : Bytes) :
    unlines 10 (payloadLines payload) = payload ++ CRLF := by
  obtain ⟨pieces, last, rfl, hpieces, hlast⟩ := exists_unlines 10 payload
  rw [payloadLines_eq hpieces hlast, unlines_append]
  simp [unlines, CRLF]

theorem unlines_map_cr (lines : List Bytes) :
    unlines 10 (lines.map fun line => line ++ [13]) = lines.flatMap fun line => line ++ CRLF := by
  rw [unlines, flatMap_map]
  simp [CRLF]

theorem unlines_lines (part : FormPart) : unlines 10 part.lines = part.text := by
  rw [lines, unlines_append, unlines_cons, unlines_payloadLines, unlines_map_cr, text]
  simp [CRLF]

variable {boundary : Bytes} {ys type next : Bytes}

theorem append_suffix_iff (b : UInt8) : xs ++ [b] <:+ ys ++ [b] ↔ xs <:+ ys := by
  rw [suffix_concat_iff]
  constructor
  · rintro (h | ⟨zs, hzs, hsuffix⟩)
    · simp at h
    · rwa [append_cancel_right hzs]
  · exact fun h => .inr ⟨xs, rfl, h⟩

/-- What ends a text that ends with a byte ends with it. -/
theorem mem_of_suffix_concat (hne : xs ≠ []) (h : xs <:+ ys ++ [b]) : b ∈ xs := by
  rcases suffix_concat_iff.mp h with h | ⟨zs, rfl, _⟩
  · exact absurd h hne
  · exact mem_append_right _ (mem_singleton_self b)

theorem delimiter_ne_nil (boundary : Bytes) : delimiter boundary ≠ [] := by
  simp [delimiter, dashes]

theorem payloadLines_cases (hpayload : ¬ delimiter boundary <:+: payload) :
    ∀ line ∈ payloadLines payload, (10 : UInt8) ∉ line ∧ ¬ delimiter boundary ++ [13] <:+ line := by
  obtain ⟨pieces, last, rfl, hpieces, hlast⟩ := exists_unlines 10 payload
  rw [payloadLines_eq hpieces hlast]
  intro line hline
  rcases mem_append.mp hline with hline | hline
  · refine ⟨hpieces line hline, fun hsuffix => hpayload ?_⟩
    have hinside : line <:+: unlines 10 pieces := by
      obtain ⟨before, after, rfl⟩ := append_of_mem hline
      rw [unlines_append, unlines_cons]
      exact ⟨unlines 10 before, 10 :: unlines 10 after, by simp⟩
    exact ((prefix_append _ [13]).isInfix.trans hsuffix.isInfix).trans
      (hinside.trans (prefix_append _ last).isInfix)
  · obtain rfl := mem_singleton.mp hline
    refine ⟨?_, fun hsuffix => hpayload ?_⟩
    · rw [mem_append, not_or]
      exact ⟨hlast, by decide⟩
    · rw [append_suffix_iff] at hsuffix
      exact hsuffix.isInfix.trans (suffix_append _ _).isInfix

theorem headerLines_cases (hvalid : part.IsValid) :
    ∀ line ∈ part.headerLines, (13 : UInt8) ∉ line ∧ (10 : UInt8) ∉ line := by
  have hdisposition : (13 : UInt8) ∉ dispositionText ∧ (10 : UInt8) ∉ dispositionText := by
    decide
  have hname : (13 : UInt8) ∉ nameText ∧ (10 : UInt8) ∉ nameText := by decide
  have hfilename : (13 : UInt8) ∉ filenameText ∧ (10 : UInt8) ∉ filenameText := by decide
  have htype : (13 : UInt8) ∉ typeText ∧ (10 : UInt8) ∉ typeText := by decide
  cases part with
  | post name payload =>
    obtain ⟨hcr, hlf, _⟩ := hvalid
    intro line hline
    obtain rfl := mem_singleton.mp hline
    simp [hdisposition, hname, hcr, hlf]
  | file name filename type payload =>
    obtain ⟨hfield, ⟨hcr, hlf, _⟩, hcr', hlf', _⟩ := hvalid
    have hfieldText : (13 : UInt8) ∉ fieldText name ∧ (10 : UInt8) ∉ fieldText name := by
      cases name with
      | none => exact hdisposition
      | some name =>
        obtain ⟨hcr, hlf, _⟩ := hfield name rfl
        simp [fieldText, hdisposition, hname, hcr, hlf]
    intro line hline
    rcases mem_cons.mp hline with rfl | hline
    · simp [hfieldText, hfilename, hcr, hlf]
    · obtain rfl := mem_singleton.mp hline
      simp [htype, hcr', hlf']

/-- A header line that ends with a quote does not end with the delimiter. -/
theorem not_suffix_quoted (hboundary : IsBoundary boundary) (front : Bytes) :
    ¬ delimiter boundary ++ [13] <:+ front ++ [34] ++ [13] := by
  rw [append_suffix_iff]
  intro h
  exact not_mem_delimiter hboundary (by decide) (by decide)
    (mem_of_suffix_concat (delimiter_ne_nil boundary) h)

/-- A content type line ends with the delimiter if the content type does. -/
theorem suffix_typeText_iff (boundary type : Bytes) :
    delimiter boundary <:+ typeText ++ type ↔ delimiter boundary <:+ type := by
  constructor
  · intro h
    refine suffix_of_suffix_append h fun ys hne hsuffix hprefix => ?_
    -- the text before the content type ends with a blank, and has one dash only
    have hlast : ∃ zs, ys = zs ++ [32] ∧ zs <:+ ofText "Content-Type:" := by
      have htext : typeText = ofText "Content-Type:" ++ [32] := by decide
      rw [htext] at hsuffix
      rcases suffix_concat_iff.mp hsuffix with h | ⟨zs, rfl, hzs⟩
      · exact absurd h hne
      · exact ⟨zs, rfl, hzs⟩
    obtain ⟨zs, rfl, hzs⟩ := hlast
    rw [delimiter, dashes] at hprefix
    match zs, hzs, hprefix with
    | [], _, hprefix => exact absurd (cons_prefix_cons.mp hprefix).1 (by decide)
    | [z], hzs, hprefix =>
      have hnot : ¬ [45] <:+ ofText "Content-Type:" := by decide
      exact hnot ((cons_prefix_cons.mp hprefix).1 ▸ hzs)
    | y :: z :: zs, hzs, hprefix =>
      obtain ⟨hy, hrest⟩ := cons_prefix_cons.mp hprefix
      rw [hy, (cons_prefix_cons.mp hrest).1] at hzs
      have hnot : ¬ [45, 45] <:+: ofText "Content-Type:" := by decide
      exact hnot ((prefix_append [45, 45] zs).isInfix.trans hzs.isInfix)
  · exact fun h => h.trans (suffix_append _ _)

def TypeWhole (boundary : Bytes) : FormPart → Prop
  | post .. => True
  | file _ _ type _ => ¬ delimiter boundary <:+ type

theorem isBlock_lines (hboundary : IsBoundary boundary) (hvalid : part.IsValid)
    (hpayload : ¬ delimiter boundary <:+: part.payload) (htype : part.TypeWhole boundary) :
    IsBlock 10 (delimiter boundary ++ [13]) part.lines := by
  refine ⟨by simp [lines], fun line hline => ?_⟩
  rw [lines, mem_append, mem_map, mem_cons] at hline
  obtain ⟨header, hheader, rfl⟩ | rfl | hline := hline
  · refine ⟨?_, ?_⟩
    · rw [mem_append, not_or]
      exact ⟨(headerLines_cases hvalid header hheader).2, by decide⟩
    · cases part with
      | post name payload =>
        obtain rfl := mem_singleton.mp hheader
        have hquoted := not_suffix_quoted hboundary (dispositionText ++ 59 :: (nameText ++ name))
        simpa using hquoted
      | file name filename type payload =>
        rcases mem_cons.mp hheader with rfl | hheader
        · have hquoted := not_suffix_quoted hboundary
            (fieldText name ++ 59 :: (filenameText ++ filename))
          simpa using hquoted
        · obtain rfl := mem_singleton.mp hheader
          rw [append_suffix_iff, suffix_typeText_iff]
          exact htype
  · refine ⟨by decide, fun hsuffix => ?_⟩
    have hlength := hsuffix.length_le
    simp [delimiter, dashes] at hlength
  · exact payloadLines_cases hpayload line hline

/-! ### Headers of a part -/

section Headers

variable {qt : QtText}

def LowersAscii (qt : QtText) : Prop :=
  ∀ text : String, (∀ c ∈ text.toList, c.toNat < 128) →
    qt.toLower text = String.ofList (text.toList.map Char.toLower)

theorem LowersAscii.text (h : LowersAscii qt) (text : String)
    (hascii : (text.toList.all fun c => decide (c.toNat < 128)) = true) :
    qt.toLower text = String.ofList (text.toList.map Char.toLower) :=
  h text (by simpa [all_eq_true] using hascii)

theorem parseHeaderLine_disposition (hlower : LowersAscii qt) (back : Bytes) :
    ∃ value, parseHeaderLine qt (dispositionText ++ back) =
      some (HEADER_CONTENT_DISPOSITION, value) := by
  have hindex : indexOf (ofText ":") dispositionText = some 19 := by decide
  have hname : fromLatin1 (trimmed (dispositionText.take 19)) = "Content-Disposition" := by
    decide
  have hlength : 19 ≤ dispositionText.length := by decide
  refine ⟨fromLatin1 (trimmed ((dispositionText ++ back).drop (19 + 1))), ?_⟩
  rw [parseHeaderLine, indexOf_append hindex back]
  dsimp only
  rw [if_neg (by decide), take_append_of_le_length hlength, hname, hlower.text _ (by decide)]
  congr 2

theorem parseHeaderLine_type (hlower : LowersAscii qt) (htype : trimmed type = type) :
    parseHeaderLine qt (typeText ++ type) = some (HEADER_CONTENT_TYPE, fromLatin1 type) := by
  have hindex : indexOf (ofText ":") typeText = some 12 := by decide
  have hname : fromLatin1 (trimmed (typeText.take 12)) = "Content-Type" := by decide
  have hlength : 13 ≤ typeText.length := by decide
  have hdrop : typeText.drop (12 + 1) = [32] := by decide
  have hblank : trimmed ([32] ++ type) = trimmed type := rfl
  rw [parseHeaderLine, indexOf_append hindex type]
  dsimp only
  rw [if_neg (by decide), take_append_of_le_length (by omega), hname,
    drop_append_of_le_length hlength, hdrop, hblank, htype, hlower.text _ (by decide)]
  congr 2

theorem parseDirective_quoted {keyText : Bytes} {key : String} {i : ℕ}
    (hindex : indexOf (ofText "=") keyText = some i) (hdrop : keyText.drop (i + 1) = [34])
    (hkey : qt.toLower (fromLatin1 (trimmed (keyText.take i))) = key)
    (headers : Table String String) (name : Bytes) :
    parseDirective qt headers (keyText ++ (name ++ [34])) =
      AList.insert key (fromLatin1 name) headers := by
  have hlength : i + 1 ≤ keyText.length := indexOf_le hindex
  have hquoted : unquote 34 (trimmed ([34] ++ (name ++ [34]))) = name := by
    have htrim : trimmed ([34] ++ (name ++ [34])) = 34 :: (name ++ [34]) := by
      rw [trimmed, singleton_append, dropWhile_cons_of_neg (by decide),
        ← cons_append, rdropWhile_concat_neg _ _ _ (by decide)]
    rw [htrim, unquote, if_neg (by simp), if_pos ⟨rfl, by simp [List.getLast?_cons]⟩]
    simp
  rw [parseDirective, indexOf_append hindex]
  dsimp only
  rw [take_append_of_le_length (by omega), hkey, drop_append_of_le_length hlength, hdrop, hquoted]

theorem parseDirective_name (hlower : LowersAscii qt) (headers : Table String String)
    (name : Bytes) :
    parseDirective qt headers (nameText ++ (name ++ [34])) =
      AList.insert "name" (fromLatin1 name) headers := by
  refine parseDirective_quoted (i := 5) (by decide) (by decide) ?_ headers name
  have hkey : fromLatin1 (trimmed (nameText.take 5)) = "name" := by decide
  rw [hkey, hlower.text _ (by decide)]
  decide

theorem parseDirective_filename (hlower : LowersAscii qt) (headers : Table String String)
    (filename : Bytes) :
    parseDirective qt headers (filenameText ++ (filename ++ [34])) =
      AList.insert "filename" (fromLatin1 filename) headers := by
  refine parseDirective_quoted (i := 9) (by decide) (by decide) ?_ headers filename
  have hkey : fromLatin1 (trimmed (filenameText.take 9)) = "filename" := by decide
  rw [hkey, hlower.text _ (by decide)]
  decide

def directives (qt : QtText) (headers : Table String String) (line : Bytes) : Table String String :=
  (splitToViews line (ofText ";")).foldl (parseDirective qt) headers

theorem directives_append (headers : Table String String) (front back : Bytes) :
    directives qt headers (front ++ 59 :: back) =
      directives qt (directives qt headers front) back := by
  have hsep : ofText ";" = [59] := by decide
  rw [directives, hsep, splitToViews_append, foldl_append]
  simp only [directives, hsep]

theorem directives_one (headers : Table String String) (hne : directive ≠ [])
    (h : (59 : UInt8) ∉ directive) :
    directives qt headers directive = parseDirective qt headers directive := by
  have hsep : ofText ";" = [59] := by decide
  rw [directives, hsep, splitToViews_of_not_mem h, if_neg hne, foldl_cons, foldl_nil]

theorem directives_disposition (headers : Table String String) :
    directives qt headers dispositionText = headers := by
  have hindex : indexOf (ofText "=") dispositionText = none := by decide
  rw [directives_one headers (by decide) (by decide), parseDirective, hindex]

theorem parsePartHeaders_post (hlower : LowersAscii qt) (name payload : Bytes) :
    parsePartHeaders qt (headerLines (.post name payload)) =
      some (directives qt ∅ (nameText ++ (name ++ [34]))) := by
  obtain ⟨value, hline⟩ := parseHeaderLine_disposition hlower (59 :: (nameText ++ (name ++ [34])))
  rw [parsePartHeaders, headerLines, foldlM_cons, hline]
  simp only [Option.bind_eq_bind, Option.bind_some, if_true, foldlM_nil]
  rw [← directives, directives_append, directives_disposition]
  rfl

theorem parsePartHeaders_file (hlower : LowersAscii qt) (name : Option Bytes)
    (filename payload : Bytes) (htype : trimmed type = type) :
    parsePartHeaders qt (headerLines (.file name filename type payload)) =
      some (AList.insert HEADER_CONTENT_TYPE (fromLatin1 type) (directives qt
        (directives qt ∅ (fieldText name)) (filenameText ++ (filename ++ [34])))) := by
  have hfield : ∃ back, fieldText name ++ 59 :: (filenameText ++ (filename ++ [34])) =
      dispositionText ++ back := by
    cases name with
    | none => exact ⟨_, rfl⟩
    | some name =>
      refine ⟨59 :: (nameText ++ (name ++ [34])) ++ 59 :: (filenameText ++ (filename ++ [34])), ?_⟩
      simp [fieldText]
  obtain ⟨back, hback⟩ := hfield
  obtain ⟨value, hline⟩ := parseHeaderLine_disposition hlower back
  rw [parsePartHeaders, headerLines, foldlM_cons, hback, hline]
  simp only [Option.bind_eq_bind, Option.bind_some, if_true, foldlM_cons,
    Option.pure_def, parseHeaderLine_type hlower htype, foldlM_nil]
  have hne : HEADER_CONTENT_TYPE ≠ HEADER_CONTENT_DISPOSITION := by decide
  rw [if_neg hne, Option.bind_some, ← hback, ← directives, directives_append]

def fromHeaders (qt : QtText) (request : Request) (payload : Bytes)
    (headers : Table String String) : Option Request :=
  match headers.lookup "filename" with
  | some filename =>
    let type := (headers.lookup HEADER_CONTENT_TYPE).getD ""
    some { request with files := request.files ++ [⟨filename, type, payload⟩] }
  | none => (headers.lookup "name").map fun name =>
    { request with posts := AList.insert name (qt.fromUtf8 payload) request.posts }

theorem parseFormData_of_index (request : Request) (head rest : Bytes) {lines : List Bytes}
    (hdata : data = head ++ (EOH ++ rest)) (hindex : indexOf EOH data = some head.length)
    (hsplit : splitToViews head CRLF = lines) :
    parseFormData qt request data = (parsePartHeaders qt lines).bind
      (fromHeaders qt request (viewWithoutEndingWith rest CRLF)) := by
  have htake : data.take head.length = head := by rw [hdata, take_left]
  have hdrop : data.drop (head.length + EOH.length) = rest := by
    rw [hdata, ← append_assoc, ← length_append, drop_left]
  unfold parseFormData
  rw [hindex]
  simp only [Option.bind_eq_bind, Option.bind_some, htake, hdrop, hsplit]
  congr 1
  funext headers
  unfold fromHeaders
  cases headers.lookup "filename" with
  | none => cases headers.lookup "name" <;> rfl
  | some filename => rfl

theorem indexOf_EOH (rest : Bytes) : indexOf EOH (EOH ++ rest) = some 0 :=
  indexOf_eq_zero (prefix_append EOH rest)

theorem splitToViews_line (hcr : 13 ∉ line) (hne : line ≠ []) : splitToViews line CRLF = [line] :=
  splitFrom_of_none false (Nat.succ_pos _) hne (indexOf_of_not_mem (mem_cons_self) hcr)

theorem indexOf_EOH_one (hcr : 13 ∉ line) (rest : Bytes) :
    indexOf EOH (line ++ (EOH ++ rest)) = some line.length := by
  rw [show indexOf EOH = indexOf (13 :: [10, 13, 10]) from rfl, indexOf_skip hcr,
    show indexOf (13 :: [10, 13, 10]) (EOH ++ rest) = some 0 from indexOf_EOH rest,
    Option.map_some, Nat.zero_add]

theorem indexOf_EOH_two (hcr : 13 ∉ line) (hcr' : 13 ∉ b :: next) (rest : Bytes) :
    indexOf EOH (line ++ (CRLF ++ b :: next) ++ (EOH ++ rest)) =
      some (line ++ (CRLF ++ b :: next)).length := by
  have hnext : 13 ∉ 10 :: b :: next := by
    rw [mem_cons, not_or]
    exact ⟨by decide, hcr'⟩
  have hnot : ¬ EOH <+: 13 :: (10 :: b :: next ++ (EOH ++ rest)) := by
    intro h
    have hsecond := (cons_prefix_cons.mp h).2
    have hthird := cons_prefix_cons.mp (cons_prefix_cons.mp hsecond).2
    exact hcr' (hthird.1 ▸ mem_cons_self)
  have hone := indexOf_EOH_one hnext rest
  have htext : line ++ (CRLF ++ b :: next) ++ (EOH ++ rest) =
      line ++ 13 :: (10 :: b :: next ++ (EOH ++ rest)) := by simp [CRLF]
  rw [htext, show indexOf EOH = indexOf (13 :: [10, 13, 10]) from rfl, indexOf_skip hcr,
    show indexOf (13 :: [10, 13, 10]) = indexOf EOH from rfl, indexOf_cons_skip hnot, hone,
    Option.map_some, Option.map_some]
  simp only [CRLF, length_append, length_cons, length_nil]
  congr 1
  omega

theorem splitToViews_two (hcr : 13 ∉ line) (hne : line ≠ []) (hcr' : 13 ∉ next) (hne' : next ≠ []) :
    splitToViews (line ++ (CRLF ++ next)) CRLF = [line, next] := by
  have hindex : indexOf CRLF (line ++ (CRLF ++ next)) = some line.length := by
    have hzero : indexOf (13 :: [10]) (CRLF ++ next) = some 0 :=
      indexOf_eq_zero (prefix_append CRLF next)
    rw [show indexOf CRLF = indexOf (13 :: [10]) from rfl, indexOf_skip hcr, hzero, Option.map_some,
      Nat.zero_add]
  have hlength : 0 < (line ++ (CRLF ++ next)).length := by
    rw [length_append]
    have := length_pos_iff.mpr hne
    omega
  have hnone : indexOf CRLF next = none :=
    indexOf_of_not_mem (mem_cons_self : (13 : UInt8) ∈ CRLF) hcr'
  rw [splitToViews, splitFrom_of_some false hne hindex, splitFrom_of_none false hlength hne' hnone]

/-- The parser finds the headers of a part, and its payload up to the line end before the next
delimiter. -/
theorem parseFormData_text (hvalid : part.IsValid) (request : Request) (extra : Bytes) :
    parseFormData qt request (part.text ++ extra) = (parsePartHeaders qt part.headerLines).bind
      (fromHeaders qt request (viewWithoutEndingWith (part.payload ++ (CRLF ++ extra)) CRLF)) := by
  have hlines := headerLines_cases hvalid
  cases part with
  | post name payload =>
    obtain ⟨hcr, _⟩ := hlines _ (mem_singleton_self _)
    have htext : text (.post name payload) ++ extra =
        dispositionText ++ 59 :: (nameText ++ (name ++ [34])) ++
          (EOH ++ (payload ++ (CRLF ++ extra))) := by
      simp [text, headerLines, EOH, CRLF, FormPart.payload]
    refine parseFormData_of_index request _ _ htext ?_ (splitToViews_line hcr (by simp))
    rw [htext]
    exact indexOf_EOH_one hcr _
  | file name filename type payload =>
    obtain ⟨hcr, _⟩ := hlines _ mem_cons_self
    obtain ⟨hcr', _⟩ := hlines _ (mem_cons_of_mem _ mem_cons_self)
    obtain ⟨b, next, hnext⟩ : ∃ b next, typeText ++ type = b :: next :=
      exists_cons_of_ne_nil (by
        rw [ne_eq, append_eq_nil_iff, not_and]
        exact fun h => absurd h (by decide))
    have htext : text (.file name filename type payload) ++ extra =
        fieldText name ++ 59 :: (filenameText ++ (filename ++ [34])) ++
          (CRLF ++ (typeText ++ type)) ++ (EOH ++ (payload ++ (CRLF ++ extra))) := by
      simp [text, headerLines, EOH, CRLF, FormPart.payload]
    rw [hnext] at hcr'
    have hsplit := splitToViews_two hcr (by simp) hcr' (cons_ne_nil b next)
    have hindex := indexOf_EOH_two hcr hcr' (payload ++ (CRLF ++ extra))
    rw [← hnext] at hsplit hindex
    refine parseFormData_of_index request _ _ htext ?_ hsplit
    rw [htext]
    exact hindex

/-! ### Whole parts -/

theorem fromHeaders_whole (hlower : LowersAscii qt) (hvalid : part.IsValid)
    (hwhole : part.IsWhole boundary) (request : Request) (payload : Bytes) :
    (parsePartHeaders qt part.headerLines).bind (fromHeaders qt request payload) =
      some (part.addPayload qt request payload) := by
  cases part with
  | post name _ =>
    have hnot : (59 : UInt8) ∉ nameText ++ (name ++ [34]) := by
      simp only [mem_append, mem_singleton, not_or]
      exact ⟨by decide, hwhole, by decide⟩
    rw [parsePartHeaders_post hlower, directives_one _ (by simp) hnot, parseDirective_name hlower,
      Option.bind_some, fromHeaders, AList.lookup_insert_ne (by decide), AList.lookup_empty,
      AList.lookup_insert]
    rfl
  | file name filename type _ =>
    have hnot : (59 : UInt8) ∉ filenameText ++ (filename ++ [34]) := by
      simp only [mem_append, mem_singleton, not_or]
      exact ⟨by decide, hwhole.1, by decide⟩
    rw [parsePartHeaders_file hlower _ _ _ hvalid.2.2.2.2, directives_one _ (by simp) hnot,
      parseDirective_filename hlower, Option.bind_some, fromHeaders,
      AList.lookup_insert_ne (by decide), AList.lookup_insert, AList.lookup_insert]
    rfl

theorem viewWithoutEndingWith_append (data str : Bytes) :
    viewWithoutEndingWith (data ++ str) str = data := by
  rw [viewWithoutEndingWith, if_pos (isSuffixOf_iff_suffix.mpr (suffix_append _ _)),
    length_append, Nat.add_sub_cancel, take_left]

theorem viewWithoutEndingWith_of_last (data str : Bytes) {c : UInt8} (hne : b ≠ c) :
    viewWithoutEndingWith (data ++ [b]) (str ++ [c]) = data ++ [b] := by
  rw [viewWithoutEndingWith, if_neg]
  rw [isSuffixOf_iff_suffix, suffix_concat_iff]
  rintro (h | ⟨zs, hzs, _⟩)
  · simp at h
  · exact hne (append_inj_right' hzs rfl |> singleton_inj.mp).symm

/-! ### Semicolons -/

/-- No value has a semicolon. -/
def Plain (headers : Table String String) : Prop :=
  ∀ key value, headers.lookup key = some value → ';' ∉ value.toList

theorem plain_empty : Plain ∅ := by
  intro key value h
  rw [AList.lookup_empty] at h
  cases h

theorem toNat_ofNat_byte (b : UInt8) : (Char.ofNat b.toNat).toNat = b.toNat := by
  have hvalid : b.toNat.isValidChar := Or.inl (by have := b.toNat_lt; omega)
  rw [Char.ofNat, dif_pos hvalid]
  rfl

theorem semicolon_not_mem_fromLatin1 (h : (59 : UInt8) ∉ data) :
    ';' ∉ (fromLatin1 data).toList := by
  rw [fromLatin1, String.toList_ofList, mem_map]
  rintro ⟨b, hb, hchar⟩
  have hnat := congrArg Char.toNat hchar
  rw [toNat_ofNat_byte] at hnat
  obtain rfl : b = 59 := UInt8.toNat_inj.mp hnat
  exact h hb

theorem mem_fromLatin1 (h : (59 : UInt8) ∈ data) : ';' ∈ (fromLatin1 data).toList := by
  rw [fromLatin1, String.toList_ofList, mem_map]
  exact ⟨59, h, by decide⟩

theorem mem_of_mem_value {i : ℕ} (h : b ∈ unquote 34 (trimmed (directive.drop i))) :
    b ∈ directive := by
  have htrim : b ∈ trimmed (directive.drop i) := by
    unfold unquote at h
    split_ifs at h
    · exact h
    · exact mem_of_mem_drop (mem_of_mem_take h)
    · exact h
  exact mem_of_mem_drop ((dropWhile_sublist _).subset
    (( rdropWhile_prefix _ _).subset htrim))

variable {headers : Table String String}

theorem plain_parseDirective (hplain : Plain headers) (h : (59 : UInt8) ∉ directive) :
    Plain (parseDirective qt headers directive) := by
  unfold parseDirective
  split
  · exact hplain
  · intro key value hlookup
    rw [Table.lookup_insert_eq] at hlookup
    split_ifs at hlookup
    · cases hlookup
      exact semicolon_not_mem_fromLatin1 fun hmem => h (mem_of_mem_value hmem)
    · exact hplain key value hlookup

theorem plain_directives (hplain : Plain headers) (line : Bytes) :
    Plain (directives qt headers line) := by
  have hsep : ofText ";" = [59] := by decide
  have hparts := not_mem_splitToViews 59 line
  rw [directives, hsep]
  generalize splitToViews line [59] = parts at hparts
  induction parts generalizing headers with
  | nil => exact hplain
  | cons part parts ih =>
    rw [foldl_cons]
    exact ih (plain_parseDirective hplain (hparts part mem_cons_self))
      fun p hp => hparts p (mem_cons_of_mem _ hp)

def NoSemicolon (request : Request) : Prop :=
  (∀ key text, request.posts.lookup key = some text → ';' ∉ key.toList) ∧
    ∀ file ∈ request.files, ';' ∉ file.filename.toList

theorem noSemicolon_fromHeaders (h : NoSemicolon request)
    (hheaders : ∀ key ∈ ["filename", "name"], ∀ value, headers.lookup key = some value →
      ';' ∉ value.toList) (hadd : fromHeaders qt request payload headers = some request') :
    NoSemicolon request' := by
  unfold fromHeaders at hadd
  cases hfilename : headers.lookup "filename" with
  | some filename =>
    rw [hfilename] at hadd
    cases hadd
    refine ⟨h.1, fun file hfile => ?_⟩
    rcases mem_append.mp hfile with hfile | hfile
    · exact h.2 file hfile
    · rw [mem_singleton.mp hfile]
      exact hheaders "filename" mem_cons_self filename hfilename
  | none =>
    rw [hfilename] at hadd
    obtain ⟨name, hname, rfl⟩ := Option.map_eq_some_iff.mp hadd
    refine ⟨fun key text hlookup => ?_, h.2⟩
    dsimp only at hlookup
    rw [Table.lookup_insert_eq] at hlookup
    split_ifs at hlookup with hkey
    · rw [hkey]
      exact hheaders "name" (mem_cons_of_mem _ mem_cons_self) name hname
    · exact h.1 key text hlookup

/-- Whatever the names of a part are, the names that the parser finds have no semicolon. -/
theorem noSemicolon_part (hlower : LowersAscii qt) (hvalid : part.IsValid) (h : NoSemicolon request)
    (hadd : (parsePartHeaders qt part.headerLines).bind (fromHeaders qt request payload) =
      some request') : NoSemicolon request' := by
  cases part with
  | post name _ =>
    rw [parsePartHeaders_post hlower, Option.bind_some] at hadd
    exact noSemicolon_fromHeaders h (fun key _ => plain_directives plain_empty _ key) hadd
  | file name filename type _ =>
    rw [parsePartHeaders_file hlower _ _ _ hvalid.2.2.2.2, Option.bind_some] at hadd
    refine noSemicolon_fromHeaders h (fun key hkey value hlookup => ?_) hadd
    have hne : key ≠ HEADER_CONTENT_TYPE := by
      rintro rfl
      exact absurd hkey (by decide)
    rw [AList.lookup_insert_ne hne] at hlookup
    exact plain_directives (plain_directives plain_empty _) _ key value hlookup

end Headers

end FormPart

/-! ### The body -/

section Form

variable {qt : QtText} {boundary : Bytes} {quoted : Bool}

theorem toLatin1_fromLatin1 (data : Bytes) : toLatin1 (fromLatin1 data) = data := by
  rw [toLatin1, fromLatin1, String.toList_ofList, map_map]
  refine (map_congr_left fun b _ => ?_).trans (map_id data)
  rw [Function.comp_apply, FormPart.toNat_ofNat_byte, if_pos b.toNat_lt, UInt8.ofNat_toNat]
  rfl

/-- A boundary consists of ASCII characters. -/
theorem lt_of_isBoundaryByte (h : isBoundaryByte b = true) : b.toNat < 128 := by
  simp only [isBoundaryByte, Bool.and_eq_true, decide_eq_true_eq, UInt8.le_iff_toNat_le,
    UInt8.toNat_ofNat] at h
  omega

theorem ascii_fromLatin1 (hdata : ∀ b ∈ data, b.toNat < 128) :
    ∀ c ∈ (fromLatin1 data).toList, c.toNat < 128 := by
  intro c hc
  rw [fromLatin1, String.toList_ofList, mem_map] at hc
  obtain ⟨b, hb, rfl⟩ := hc
  rw [FormPart.toNat_ofNat_byte]
  exact hdata b hb

theorem toList_formContentType (boundary : Bytes) (quoted : Bool) :
    (formContentType boundary quoted).toList = "multipart/form-data; boundary=".toList ++
      (fromLatin1 (if quoted then 34 :: (boundary ++ [34]) else boundary)).toList :=
  String.toList_ofList

theorem ascii_formContentType (hboundary : IsBoundary boundary) (quoted : Bool) :
    ∀ c ∈ (formContentType boundary quoted).toList, c.toNat < 128 := by
  have hascii : ∀ b ∈ boundary, b.toNat < 128 := fun b hb =>
    lt_of_isBoundaryByte (all_eq_true.mp hboundary.2 b hb)
  have hquote : ∀ b ∈ [(34 : UInt8)], b.toNat < 128 := forall_mem_singleton.mpr (by decide)
  have hfront : ("multipart/form-data; boundary=".toList.all fun c =>
      decide (c.toNat < 128)) = true := by decide
  rw [all_eq_true] at hfront
  have htext : ∀ b ∈ (if quoted then 34 :: (boundary ++ [34]) else boundary), b.toNat < 128 := by
    cases quoted with
    | true =>
      rw [if_pos rfl, ← singleton_append, forall_mem_append, forall_mem_append]
      exact ⟨hquote, hascii, hquote⟩
    | false => exact hascii
  rw [toList_formContentType]
  exact forall_mem_append.mpr
    ⟨fun c hc => of_decide_eq_true (hfront c hc), ascii_fromLatin1 htext⟩

/-- The boundary that the parser finds in the content type. -/
theorem unquote_boundary (hboundary : IsBoundary boundary) (quoted : Bool) :
    unquote '"' (fromLatin1 (if quoted then 34 :: (boundary ++ [34]) else boundary)).toList =
      (fromLatin1 boundary).toList := by
  have hquote : Char.ofNat (34 : UInt8).toNat = '"' := by decide
  cases quoted with
  | true =>
    have htext : (fromLatin1 (34 :: (boundary ++ [34]))).toList =
        '"' :: ((fromLatin1 boundary).toList ++ ['"']) := by
      simp only [fromLatin1, String.toList_ofList, map_cons, map_append, map_nil, hquote]
    rw [if_pos rfl, htext, unquote, if_neg (by simp), if_pos ⟨rfl, by simp [List.getLast?_cons]⟩]
    simp
  | false =>
    rw [if_neg (by decide), unquote]
    have hhead : (fromLatin1 boundary).toList.head? ≠ some '"' := by
      rw [fromLatin1, String.toList_ofList, List.head?_map]
      intro h
      obtain ⟨b, hb, hchar⟩ := Option.map_eq_some_iff.mp h
      have hnat := congrArg Char.toNat hchar
      rw [FormPart.toNat_ofNat_byte] at hnat
      obtain rfl : b = 34 := UInt8.toNat_inj.mp hnat
      exact not_mem_boundary hboundary (by decide) (mem_of_mem_head? hb)
    split_ifs with hshort hquotes
    · rfl
    · exact absurd hquotes.1 hhead
    · rfl

/-- A form is split at its delimiters, and its closing delimiter is removed. -/
theorem parsePostMessage_form (hlower : FormPart.LowersAscii qt) (hboundary : IsBoundary boundary)
    (hcontent : request.headers.lookup HEADER_CONTENT_TYPE =
      some (formContentType boundary quoted)) (data : Bytes) :
    parsePostMessage qt request data =
      (splitToViews data (delimiter boundary ++ [13] ++ [10])).getLast?.bind fun last =>
        ((splitToViews data (delimiter boundary ++ [13] ++ [10])).dropLast ++
          [viewWithoutEndingWith last (delimiter boundary ++ dashes ++ CRLF)]).foldlM
            (parseFormData qt) request := by
  have hdashes : ofText "--" = dashes := by decide
  have hfront : "multipart/form-data; boundary=".toList =
      'm' :: "ultipart/form-data; boundary=".toList := by decide
  have hencoded : CONTENT_TYPE_FORM_ENCODED.toList =
      'a' :: "pplication/x-www-form-urlencoded".toList := by decide
  have hkept : "multipart/form-data; boundary=".toList.map Char.toLower =
      "multipart/form-data; boundary=".toList := by decide
  have hform : CONTENT_TYPE_FORM_DATA.toList <+: "multipart/form-data; boundary=".toList := by
    rw [← isPrefixOf_iff_prefix]
    decide
  have hindex : indexOf "boundary=".toList "multipart/form-data; boundary=".toList = some 21 := by
    decide
  have hlength : "multipart/form-data; boundary=".toList.length = 21 + 9 := by decide
  have hlowered : (qt.toLower (formContentType boundary quoted)).toList =
      "multipart/form-data; boundary=".toList ++ ((fromLatin1
        (if quoted then 34 :: (boundary ++ [34]) else boundary)).toList.map Char.toLower) := by
    rw [hlower _ (ascii_formContentType hboundary quoted), String.toList_ofList,
      toList_formContentType, map_append, hkept]
  unfold parsePostMessage
  simp only [hcontent, Option.getD_some, String.ofList_toList, hlowered]
  rw [if_neg, if_pos]
  · rw [toList_formContentType, indexOf_append hindex]
    simp only [Option.bind_eq_bind, Option.bind_some]
    rw [drop_left' hlength, unquote_boundary hboundary, String.ofList_toList,
      toLatin1_fromLatin1, if_neg (by simpa using hboundary.1), hdashes]
    simp [delimiter, CRLF]
  · rw [ isPrefixOf_iff_prefix]
    exact hform.trans (prefix_append _ _)
  · rw [ isPrefixOf_iff_prefix, hencoded, hfront, cons_append, cons_prefix_cons]
    exact fun h => absurd h.1 (by decide)

theorem encodeForm_append (boundary : Bytes) (pre post : List FormPart) (part : FormPart) :
    encodeForm boundary (pre ++ part :: post) = blocksText 10 (delimiter boundary ++ [13])
      (part.text ++ encodeForm boundary post) (pre.map FormPart.lines) := by
  rw [encodeForm, blocksText, flatMap_map]
  simp [FormPart.unlines_lines, encodeForm, delimiter, CRLF]

/-- The closing delimiter as a line. -/
theorem encodeForm_nil (boundary : Bytes) :
    encodeForm boundary [] = unlines 10 [delimiter boundary ++ dashes ++ [13]] := by
  simp [encodeForm, unlines, delimiter, CRLF]

/-! ### Whole forms -/

/-- What the headers of the parts make of their payloads. -/
def readPart (qt : QtText) (request : Request) (part : FormPart) : Option Request :=
  (parsePartHeaders qt part.headerLines).bind (FormPart.fromHeaders qt request part.payload)

theorem unlines_map_lines (parts : List FormPart) :
    (parts.map FormPart.lines).map (unlines 10) = parts.map FormPart.text := by
  rw [map_map]
  exact map_congr_left fun part _ => part.unlines_lines

theorem parseFormData_whole (hvalid : part.IsValid) (request : Request) :
    parseFormData qt request part.text = readPart qt request part := by
  have hparse : parseFormData qt request (part.text ++ []) = _ :=
    FormPart.parseFormData_text hvalid request []
  rw [append_nil, append_nil, FormPart.viewWithoutEndingWith_append] at hparse
  exact hparse

variable {parts : List FormPart}

theorem foldlM_texts (hvalid : ∀ part ∈ parts, part.IsValid) (request : Request) :
    (parts.map FormPart.text).foldlM (parseFormData qt) request =
      parts.foldlM (readPart qt) request := by
  induction parts generalizing request with
  | nil => rfl
  | cons part parts ih =>
    rw [map_cons, foldlM_cons, foldlM_cons, parseFormData_whole (hvalid part mem_cons_self)]
    congr 1
    funext next
    exact ih (fun p hp => hvalid p (mem_cons_of_mem _ hp)) next

/-- Parts without semicolons are read as they were written. -/
theorem foldlM_whole (hlower : FormPart.LowersAscii qt) (hvalid : ∀ part ∈ parts, part.IsValid)
    (hwhole : ∀ part ∈ parts, part.IsWhole boundary) (request : Request) :
    parts.foldlM (readPart qt) request = some (parts.foldl (FormPart.add qt) request) := by
  induction parts generalizing request with
  | nil => rfl
  | cons part parts ih =>
    rw [foldlM_cons, foldl_cons, readPart,
      FormPart.fromHeaders_whole hlower (hvalid part mem_cons_self)
        (hwhole part mem_cons_self)]
    exact ih (fun p hp => hvalid p (mem_cons_of_mem _ hp))
      (fun p hp => hwhole p (mem_cons_of_mem _ hp)) _

/-- What is left of a form behind its first parts: the last part, with the dashes of the closing
delimiter if the boundary does not tell it from a delimiter. -/
theorem splitToViews_form (hboundary : IsBoundary boundary) {pre : List FormPart} {last : FormPart}
    (hvalid : ∀ part ∈ pre ++ [last], part.IsValid)
    (hpayload : ∀ part ∈ pre ++ [last], ¬ delimiter boundary <:+: part.payload)
    (htype : ∀ part ∈ pre ++ [last], part.TypeWhole boundary) :
    splitToViews (encodeForm boundary (pre ++ [last])) (delimiter boundary ++ [13] ++ [10]) =
      pre.map FormPart.text ++ [last.text ++ if ∀ b ∈ boundary, b = 45 then dashes
        else encodeForm boundary []] := by
  have hblock : ∀ part ∈ pre ++ [last], IsBlock 10 (delimiter boundary ++ [13]) part.lines :=
    fun part hpart => part.isBlock_lines hboundary (hvalid part hpart) (hpayload part hpart)
      (htype part hpart)
  have hlast := hblock last (mem_append_right _ (mem_singleton_self _))
  have hlf := lf_not_mem hboundary
  have hleft : ∀ fuel, 2 ≤ fuel → splitFrom (delimiter boundary ++ [13] ++ [10]) false fuel
      (last.text ++ encodeForm boundary []) = [last.text ++ if ∀ b ∈ boundary, b = 45 then dashes
        else encodeForm boundary []] := by
    intro fuel hfuel
    by_cases hdashes : ∀ b ∈ boundary, b = 45
    · obtain ⟨n, rfl⟩ : ∃ n, fuel = n + 2 := ⟨fuel - 2, by omega⟩
      have htext : encodeForm boundary [] = dashes ++ (delimiter boundary ++ [13]) ++ 10 :: [] := by
        rw [← append_assoc, dashes_append_delimiter hdashes, encodeForm_nil]
        simp [unlines]
      rw [if_pos hdashes, ← last.unlines_lines, htext, splitFrom_cut hlf hlast (by decide)]
      rfl
    · rw [if_neg hdashes, ← last.unlines_lines, encodeForm_nil, ← unlines_append]
      refine splitFrom_last hlf ⟨by simp, fun line hline => ?_⟩ (by omega)
      obtain hline | hline := mem_append.mp hline
      · exact hlast.2 line hline
      · obtain rfl := mem_singleton.mp hline
        refine ⟨?_, ?_⟩
        · rw [append_assoc, mem_append, not_or]
          exact ⟨not_mem_delimiter hboundary (by decide) (by decide), by decide⟩
        · rw [FormPart.append_suffix_iff, delimiter_suffix_closing_iff]
          exact hdashes
  have hfirst : ∀ block ∈ pre.map FormPart.lines,
      IsBlock 10 (delimiter boundary ++ [13]) block := by
    intro block hmem
    obtain ⟨part, hpart, rfl⟩ := mem_map.mp hmem
    exact hblock part (mem_append_left _ hpart)
  obtain ⟨parts, hsplit, rfl⟩ := splitToViews_blocks (Q := fun parts => parts = _) hlf (by simp)
    (Nat.le_add_left 2 _) hleft hfirst
  rw [encodeForm_append, hsplit, unlines_map_lines]

theorem viewWithoutEndingWith_front (data str : Bytes) :
    viewWithoutEndingWith data str <+: data := by
  rw [viewWithoutEndingWith]
  split_ifs
  · exact take_prefix _ _
  · exact prefix_rfl

theorem parseFormData_none (h : ¬ EOH <:+: data) : parseFormData qt request data = none := by
  cases hindex : indexOf EOH data with
  | none =>
    rw [parseFormData, hindex]
    rfl
  | some i => exact absurd (infix_of_indexOf hindex) h

theorem foldlM_none {f : Request → Bytes → Option Request} {parts : List Bytes}
    (h : ∃ part ∈ parts, ∀ request, f request part = none) (request : Request) :
    parts.foldlM f request = none := by
  obtain ⟨part, hpart, hnone⟩ := h
  induction parts generalizing request with
  | nil => cases hpart
  | cons next parts ih =>
    rw [foldlM_cons]
    rcases mem_cons.mp hpart with rfl | hpart
    · rw [hnone]
      rfl
    · cases f request next with
      | none => rfl
      | some next => exact ih next hpart

/-- A content type that ends with the delimiter is cut there, and the end of the headers is not in
what is before it. -/
theorem not_typeWhole_cut (hboundary : IsBoundary boundary) (hvalid : part.IsValid)
    (htype : ¬ part.TypeWhole boundary) (back : Bytes) (fuel : ℕ) (hfuel : 1 ≤ fuel) :
    ∃ piece ∈ splitFrom (delimiter boundary ++ [13] ++ [10]) false fuel (part.text ++ back),
      ¬ EOH <:+: piece := by
  obtain ⟨n, rfl⟩ : ∃ n, fuel = n + 1 := ⟨fuel - 1, by omega⟩
  cases part with
  | post name payload => exact absurd trivial htype
  | file name filename type payload =>
    obtain ⟨front, rfl⟩ := not_not.mp htype
    obtain ⟨hcr, hlf⟩ := FormPart.headerLines_cases hvalid _ mem_cons_self
    obtain ⟨hcr', hlf'⟩ := FormPart.headerLines_cases hvalid _
      (mem_cons_of_mem _ mem_cons_self)
    rw [← append_assoc, mem_append, not_or] at hcr' hlf'
    set line := FormPart.fieldText name ++ 59 :: (filenameText ++ (filename ++ [34])) with hline
    have hblock : IsBlock 10 (delimiter boundary ++ [13]) [line ++ [13]] := by
      refine ⟨cons_ne_nil _ _, fun l hl => ?_⟩
      obtain rfl := mem_singleton.mp hl
      refine ⟨?_, ?_⟩
      · rw [mem_append, not_or]
        exact ⟨hlf, by decide⟩
      · have hquoted := FormPart.not_suffix_quoted hboundary
          (FormPart.fieldText name ++ 59 :: (filenameText ++ filename))
        simpa [hline] using hquoted
    have htext : FormPart.text (.file name filename (front ++ delimiter boundary) payload) ++ back =
        unlines 10 [line ++ [13]] ++ (typeText ++ front ++ (delimiter boundary ++ [13]) ++
          10 :: (CRLF ++ (payload ++ CRLF ++ back))) := by
      simp [FormPart.text, FormPart.headerLines, hline, unlines, CRLF, FormPart.payload]
    rw [htext, splitFrom_cut (lf_not_mem hboundary) hblock hlf'.1]
    refine ⟨_, mem_cons_self, fun hinside => ?_⟩
    -- the end of the headers has two carriage returns
    have hcount := hinside.sublist.count_le 13
    have hone : (unlines 10 [line ++ [13]] ++ (typeText ++ front)).count 13 = 1 := by
      rw [count_append, count_eq_zero.mpr hcr'.1]
      simp [unlines, count_eq_zero.mpr hcr]
    rw [hone] at hcount
    exact absurd hcount (by decide)

theorem exists_first {α : Type} {P : α → Prop} {xs : List α} (h : ∃ x ∈ xs, ¬ P x) :
    ∃ pre x post, xs = pre ++ x :: post ∧ (∀ y ∈ pre, P y) ∧ ¬ P x := by
  induction xs with
  | nil =>
    obtain ⟨x, hx, _⟩ := h
    cases hx
  | cons y ys ih =>
    by_cases hy : P y
    · obtain ⟨x, hx, hnot⟩ := h
      rcases mem_cons.mp hx with rfl | hx
      · exact absurd hy hnot
      · obtain ⟨pre, z, post, rfl, hpre, hz⟩ := ih ⟨x, hx, hnot⟩
        exact ⟨y :: pre, z, post, rfl, forall_mem_cons.mpr ⟨hy, hpre⟩, hz⟩
    · exact ⟨[], y, ys, rfl, forall_mem_nil _, hy⟩

theorem parsePostMessage_typeCut (hlower : FormPart.LowersAscii qt)
    (hboundary : IsBoundary boundary) (hvalid : ∀ part ∈ parts, part.IsValid)
    (hpayload : ∀ part ∈ parts, ¬ delimiter boundary <:+: part.payload)
    (htype : ∃ part ∈ parts, ¬ part.TypeWhole boundary)
    (hcontent : request.headers.lookup HEADER_CONTENT_TYPE =
      some (formContentType boundary quoted)) :
    parsePostMessage qt request (encodeForm boundary parts) = none := by
  obtain ⟨pre, part, post, rfl, hpre, hcut⟩ := exists_first htype
  have hblocks : ∀ block ∈ pre.map FormPart.lines,
      IsBlock 10 (delimiter boundary ++ [13]) block := by
    intro block hmem
    obtain ⟨p, hp, rfl⟩ := mem_map.mp hmem
    exact p.isBlock_lines hboundary (hvalid p (mem_append_left _ hp))
      (hpayload p (mem_append_left _ hp)) (hpre p hp)
  obtain ⟨pieces, hsplit, piece, hpiece, hEOH⟩ :=
    splitToViews_blocks (Q := fun pieces => ∃ piece ∈ pieces, ¬ EOH <:+: piece)
      (lf_not_mem hboundary) (by simp) (Nat.le_add_left 1 _)
      (not_typeWhole_cut hboundary (hvalid part (mem_append_right _ mem_cons_self)) hcut
        _) hblocks
  rw [parsePostMessage_form hlower hboundary hcontent, encodeForm_append, hsplit]
  generalize (pre.map FormPart.lines).map (unlines 10) = front
  cases hlast : (front ++ pieces).getLast? with
  | none => rfl
  | some last =>
    have hwhole := dropLast_append_getLast? last hlast
    rw [Option.bind_some]
    refine foldlM_none ?_ request
    have hmem : piece ∈ front ++ pieces := mem_append_right _ hpiece
    rw [← hwhole, mem_append, mem_singleton] at hmem
    rcases hmem with hmem | rfl
    · exact ⟨piece, mem_append_left _ hmem, fun _ => parseFormData_none hEOH⟩
    · refine ⟨_, mem_append_right _ (mem_singleton_self _), fun _ => ?_⟩
      exact parseFormData_none fun h => hEOH (h.trans (viewWithoutEndingWith_front _ _).isInfix)

/-- A form without such content types is read part by part, and the last part may end with dashes.
-/
theorem parsePostMessage_typeWhole (hlower : FormPart.LowersAscii qt)
    (hboundary : IsBoundary boundary) {pre : List FormPart} {last : FormPart}
    (hvalid : ∀ part ∈ pre ++ [last], part.IsValid)
    (hpayload : ∀ part ∈ pre ++ [last], ¬ delimiter boundary <:+: part.payload)
    (htype : ∀ part ∈ pre ++ [last], part.TypeWhole boundary)
    (hcontent : request.headers.lookup HEADER_CONTENT_TYPE =
      some (formContentType boundary quoted)) :
    parsePostMessage qt request (encodeForm boundary (pre ++ [last])) =
      (pre.foldlM (readPart qt) request).bind fun request =>
        (parsePartHeaders qt last.headerLines).bind (FormPart.fromHeaders qt request
          (if ∀ b ∈ boundary, b = 45 then last.payload ++ CRLF ++ dashes else last.payload)) := by
  have hvalid' := hvalid last (mem_append_right _ (mem_singleton_self _))
  rw [parsePostMessage_form hlower hboundary hcontent,
    splitToViews_form hboundary hvalid hpayload htype, List.getLast?_concat, dropLast_concat,
    Option.bind_some, foldlM_append, foldlM_texts (fun p hp => hvalid p (mem_append_left _ hp))]
  congr 1
  funext next
  rw [foldlM_cons]
  simp only [foldlM_nil, bind_pure]
  by_cases hdashes : ∀ b ∈ boundary, b = 45
  · -- the dashes of the closing delimiter are left, and hide the line end of the payload
    have hclosing : viewWithoutEndingWith (last.text ++ dashes)
        (delimiter boundary ++ dashes ++ CRLF) = last.text ++ dashes := by
      have hend := FormPart.viewWithoutEndingWith_of_last (last.text ++ [45])
        (delimiter boundary ++ dashes ++ [13]) (by decide : (45 : UInt8) ≠ 10)
      simpa [dashes, CRLF] using hend
    have hline : viewWithoutEndingWith (last.payload ++ (CRLF ++ dashes)) CRLF =
        last.payload ++ (CRLF ++ dashes) := by
      have hend := FormPart.viewWithoutEndingWith_of_last (last.payload ++ CRLF ++ [45]) [13]
        (by decide : (45 : UInt8) ≠ 10)
      simpa [dashes, CRLF] using hend
    rw [if_pos hdashes, if_pos hdashes, hclosing, FormPart.parseFormData_text hvalid', hline,
      append_assoc]
  · have hclosing : encodeForm boundary [] = delimiter boundary ++ dashes ++ CRLF := by
      simp [encodeForm, delimiter]
    rw [if_neg hdashes, if_neg hdashes, hclosing, FormPart.viewWithoutEndingWith_append,
      parseFormData_whole hvalid', readPart]

/-! ### Names with semicolons -/

theorem noSemicolon_foldlM (hlower : FormPart.LowersAscii qt)
    (hvalid : ∀ part ∈ parts, part.IsValid) (h : FormPart.NoSemicolon request)
    (hread : parts.foldlM (readPart qt) request = some request') :
    FormPart.NoSemicolon request' := by
  induction parts generalizing request with
  | nil =>
    cases hread
    exact h
  | cons part parts ih =>
    rw [foldlM_cons] at hread
    obtain ⟨next, hnext, hrest⟩ := Option.bind_eq_some_iff.mp hread
    exact ih (fun p hp => hvalid p (mem_cons_of_mem _ hp))
      (FormPart.noSemicolon_part hlower (hvalid part mem_cons_self) h hnext) hrest

namespace FormPart

def IsNamed (request : Request) : FormPart → Prop
  | post name _ => ∃ text, request.posts.lookup (fromLatin1 name) = some text
  | file _ filename _ _ => ∃ file ∈ request.files, file.filename = fromLatin1 filename

theorem isNamed_add (request : Request) (part : FormPart) : part.IsNamed (part.add qt request) := by
  cases part with
  | post name payload => exact ⟨_, AList.lookup_insert _⟩
  | file name filename type payload =>
    exact ⟨_, mem_append_right _ (mem_singleton_self _), rfl⟩

theorem IsNamed.add (h : part.IsNamed request) (next : FormPart) :
    part.IsNamed (next.add qt request) := by
  cases part with
  | post name payload =>
    obtain ⟨text, htext⟩ := h
    cases next with
    | post other payload' =>
      show ∃ text, (AList.insert (fromLatin1 other) (qt.fromUtf8 payload') request.posts).lookup
        (fromLatin1 name) = some text
      rw [Table.lookup_insert_eq]
      split_ifs
      · exact ⟨_, rfl⟩
      · exact ⟨text, htext⟩
    | file _ filename type payload' => exact ⟨text, htext⟩
  | file name filename type payload =>
    obtain ⟨file, hfile, hname⟩ := h
    cases next with
    | post other payload' => exact ⟨file, hfile, hname⟩
    | file _ other type' payload' => exact ⟨file, mem_append_left _ hfile, hname⟩

theorem isNamed_foldl (request : Request) (h : part ∈ parts ∨ part.IsNamed request) :
    part.IsNamed (parts.foldl (FormPart.add qt) request) := by
  induction parts generalizing request with
  | nil => exact h.resolve_left not_mem_nil
  | cons next parts ih =>
    rw [foldl_cons]
    refine ih _ ?_
    rcases h with hmem | hnamed
    · rcases mem_cons.mp hmem with rfl | hmem
      · exact .inr (isNamed_add request part)
      · exact .inl hmem
    · exact .inr (hnamed.add next)

theorem isWhole_of_noSemicolon (hnamed : part.IsNamed request) (h : NoSemicolon request)
    (htype : part.TypeWhole boundary) : part.IsWhole boundary := by
  cases part with
  | post name payload =>
    obtain ⟨text, htext⟩ := hnamed
    exact fun hmem => h.1 _ text htext (mem_fromLatin1 hmem)
  | file name filename type payload =>
    obtain ⟨file, hfile, hname⟩ := hnamed
    exact ⟨fun hmem => h.2 file hfile (hname ▸ mem_fromLatin1 hmem), htype⟩

theorem IsWhole.type (h : part.IsWhole boundary) : part.TypeWhole boundary := by
  cases part with
  | post name payload => trivial
  | file name filename type payload => exact h.2

theorem addPayload_ne (hutf8 : ∀ data, qt.fromUtf8 (data ++ CRLF ++ dashes) ≠ qt.fromUtf8 data)
    (request : Request) (part : FormPart) :
    part.addPayload qt request (part.payload ++ CRLF ++ dashes) ≠ part.add qt request := by
  intro heq
  cases part with
  | post name payload =>
    have hlookup := congrArg (fun request : Request => request.posts.lookup (fromLatin1 name)) heq
    dsimp only [addPayload, add] at hlookup
    rw [AList.lookup_insert, AList.lookup_insert] at hlookup
    exact hutf8 payload (Option.some.inj hlookup)
  | file name filename type payload =>
    have hfiles := congrArg Request.files heq
    dsimp only [addPayload, add] at hfiles
    have hlast := singleton_inj.mp (append_cancel_left hfiles)
    have hlength := congrArg List.length (congrArg UploadedFile.data hlast)
    simp [FormPart.payload, CRLF, dashes] at hlength

end FormPart

/-- A form is read as it was written exactly if no name that counts has a semicolon, no content type
ends with the delimiter and the boundary does not consist of dashes. -/
theorem parsePostMessage_encodeForm_iff (hlower : FormPart.LowersAscii qt)
    (hutf8 : ∀ data, qt.fromUtf8 (data ++ CRLF ++ dashes) ≠ qt.fromUtf8 data)
    (hboundary : IsBoundary boundary) {parts : List FormPart} (hne : parts ≠ [])
    (hvalid : ∀ part ∈ parts, part.IsValid)
    (hpayload : ∀ part ∈ parts, ¬ dashes ++ boundary <:+: part.payload) {request : Request}
    {quoted : Bool}
    (hcontent : request.headers.lookup HEADER_CONTENT_TYPE =
      some (formContentType boundary quoted)) (hposts : request.posts = ∅)
    (hfiles : request.files = []) :
    parsePostMessage qt request (encodeForm boundary parts) =
        some (parts.foldl (FormPart.add qt) request) ↔
      (∀ part ∈ parts, part.IsWhole boundary) ∧ ∃ b ∈ boundary, b ≠ 45 := by
  obtain ⟨pre, last, rfl⟩ : ∃ pre last, parts = pre ++ [last] :=
    ⟨_, _, (dropLast_append_getLast hne).symm⟩
  have hsplit : ∀ {P : FormPart → Prop}, (∀ part ∈ pre ++ [last], P part) →
      (∀ part ∈ pre, P part) ∧ P last := fun h =>
    ⟨fun p hp => h p (mem_append_left _ hp),
      h last (mem_append_right _ (mem_singleton_self _))⟩
  obtain ⟨hvalid', hvalidLast⟩ := hsplit hvalid
  have hread : ∀ (htype : ∀ part ∈ pre ++ [last], part.TypeWhole boundary), _ := fun htype =>
    parsePostMessage_typeWhole hlower hboundary hvalid hpayload htype hcontent
  constructor
  · intro hresult
    have htype : ∀ part ∈ pre ++ [last], part.TypeWhole boundary := by
      by_contra hcut
      rw [parsePostMessage_typeCut hlower hboundary hvalid hpayload (by simpa using hcut) hcontent]
        at hresult
      cases hresult
    rw [hread htype] at hresult
    have hclean : FormPart.NoSemicolon request := by
      refine ⟨fun key text hlookup => ?_, fun file hfile => ?_⟩
      · rw [hposts, AList.lookup_empty] at hlookup
        cases hlookup
      · rw [hfiles] at hfile
        cases hfile
    obtain ⟨next, hnext, hadd⟩ := Option.bind_eq_some_iff.mp hresult
    have hresultClean := FormPart.noSemicolon_part hlower hvalidLast
      (noSemicolon_foldlM hlower hvalid' hclean hnext) hadd
    have hwhole : ∀ part ∈ pre ++ [last], part.IsWhole boundary := fun part hpart =>
      FormPart.isWhole_of_noSemicolon (FormPart.isNamed_foldl request (.inl hpart)) hresultClean
        (htype part hpart)
    refine ⟨hwhole, ?_⟩
    by_contra hall
    have hdashes : ∀ b ∈ boundary, b = 45 := by simpa using hall
    obtain ⟨hwhole', hwholeLast⟩ := hsplit hwhole
    rw [foldlM_whole hlower hvalid' hwhole', Option.bind_some, if_pos hdashes,
      FormPart.fromHeaders_whole hlower hvalidLast hwholeLast, foldl_append] at hresult
    exact FormPart.addPayload_ne hutf8 _ last (Option.some.inj hresult)
  · rintro ⟨hwhole, b, hb, hne⟩
    obtain ⟨hwhole', hwholeLast⟩ := hsplit hwhole
    rw [hread fun part hpart => (hwhole part hpart).type, foldlM_whole hlower hvalid' hwhole',
      Option.bind_some, if_neg (fun hall => hne (hall b hb)),
      FormPart.fromHeaders_whole hlower hvalidLast hwholeLast, foldl_append]
    rfl

def latin1Text : QtText where
  fromUtf8 := fromLatin1
  fromPercentEncoding data := data
  toLower text := String.ofList (text.toList.map Char.toLower)
  toInt _ := none
  queryItems _ := []

def formRequest : Request :=
  { headers := AList.insert HEADER_CONTENT_TYPE (formContentType (ofText "x") false) ∅ }

theorem isBoundary_x : IsBoundary (ofText "x") :=
  ⟨by decide, by decide⟩

theorem parsePostMessage_encodeForm_two :
    parsePostMessage latin1Text formRequest (encodeForm (ofText "x")
        [.post (ofText "a") (ofText "1-"), .file none (ofText "b") (ofText "text/plain") []]) =
      some ([.post (ofText "a") (ofText "1-"),
        .file none (ofText "b") (ofText "text/plain") []].foldl (FormPart.add latin1Text)
          formRequest) := by
  have hcontent : formRequest.headers.lookup HEADER_CONTENT_TYPE =
      some (formContentType (ofText "x") false) := AList.lookup_insert _
  refine (parsePostMessage_encodeForm_iff (fun _ _ => rfl) (fun data h => ?_) isBoundary_x
    (by decide) ?_ ?_ hcontent rfl rfl).mpr ⟨?_, 120, ?_, by decide⟩
  · have hlength := congrArg (fun text : String => text.toList.length) h
    simp [latin1Text, fromLatin1, CRLF, dashes] at hlength
  · rw [forall_mem_cons, forall_mem_singleton]
    exact ⟨⟨by decide, by decide, by decide⟩,
      ⟨fun _ h => (nomatch h), ⟨by decide, by decide, by decide⟩, by decide, by decide, by decide⟩⟩
  · rw [forall_mem_cons, forall_mem_singleton]
    decide
  · rw [forall_mem_cons, forall_mem_singleton]
    refine ⟨?_, ?_, ?_⟩
    · show (59 : UInt8) ∉ ofText "a"
      decide
    · decide
    · decide
  · decide

theorem name_cut_at_semicolon :
    IsBoundary (ofText "x") ∧ FormPart.IsValid (.post (ofText "a;b") (ofText "1")) ∧
      ¬ dashes ++ ofText "x" <:+: ofText "1" ∧
      parsePostMessage latin1Text formRequest
          (encodeForm (ofText "x") [.post (ofText "a;b") (ofText "1")]) ≠
        some ([FormPart.post (ofText "a;b") (ofText "1")].foldl (FormPart.add latin1Text)
          formRequest) := by
  refine ⟨isBoundary_x, ⟨?_, ?_, ?_⟩, ?_, fun h => ?_⟩
  · decide
  · decide
  · decide
  · decide
  · have hposts := congrArg (Option.map fun request : Request =>
      (request.posts.lookup "a;b").isSome) h
    revert hposts
    decide

end Form

end Qbutt.Server
