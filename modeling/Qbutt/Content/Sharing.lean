import Qbutt.Algorithm.Except
import Qbutt.Content.Work
import Qbutt.Qt.Base64
import Qbutt.Rust.Str

/-!
# Public references to works

`to_url` writes the publications of a work, and the preferred variant of one of them, into a link,
and `from_url` reads such a link.  The validators of references are any predicates; the crates for
JSON, Base64 and addresses are parameters, with what is documented of them in `Lawful`.

* `validate_iff`: what a valid work is.
* `shared_work_round_trip`: what is written is read, and only valid works of bounded size are read.
-/

namespace Qbutt.Content

/-! ### The code -/

inductive ShareError where
  | noPublications
  | tooManyPublications
  | invalidPublication
  | invalidPreference
  | tooLarge
  | invalidLink
  deriving DecidableEq

structure SharedWork where
  version : UInt8
  publications : List PublicationRef
  preferred : Option VariantRef
  deriving DecidableEq

/-- The validators of references, and what the crates provide. -/
structure Environment where
  validPublication : PublicationRef → Bool
  validVariant : VariantRef → Bool
  toVec : SharedWork → Option Bytes
  fromSlice : Bytes → Option SharedWork
  /-- `URL_SAFE_NO_PAD`. -/
  encode : Bytes → String
  decode : String → Option Bytes
  parse : String → Option Url
  queryPairs : Url → List (String × String)

def maxUrlBytes : ℕ := 24 * 1024

def maxDocumentBytes : ℕ := 16 * 1024

def maxPublications : ℕ := 32

/-- The characters of a document in a link. -/
def isUrlSafe (c : Char) : Bool := c.isAlphanum || c = '-' || c = '_'

/-- `Source::ALL`, in which local books are missing. -/
def publicSources : List Source := Source.all.erase .localBook

namespace SharedWork

section Code

variable (E : Environment)

def isPublicationShareable (publication : PublicationRef) : Bool :=
  publicSources.contains publication.source && E.validPublication publication

/-- The loop of `validate` over the publications behind those that it has seen. -/
def publicationsValid (seen : List PublicationRef) : List PublicationRef → Bool
  | [] => true
  | publication :: publications =>
    if !isPublicationShareable E publication || seen.contains publication then false
    else publicationsValid (seen ++ [publication]) publications

def validate (w : SharedWork) : Except ShareError Unit :=
  if w.version ≠ 1 then .error .invalidLink
  else if w.publications = [] then .error .noPublications
  else if maxPublications < w.publications.length then .error .tooManyPublications
  else if !publicationsValid E [] w.publications then .error .invalidPublication
  else if w.preferred.any fun preferred =>
      !E.validVariant preferred || !w.publications.contains preferred.publication then
    .error .invalidPreference
  else .ok ()

def new (publications : List PublicationRef) (preferred : Option VariantRef) :
    Except ShareError SharedWork := do
  let document : SharedWork := ⟨1, publications, preferred⟩
  document.validate E
  return document

def toUrl (w : SharedWork) : Except ShareError String := do
  w.validate E
  match E.toVec w with
  | none => .error .invalidLink
  | some bytes =>
    if maxDocumentBytes < bytes.length then .error .tooLarge
    else
      let url := "qbutt://open?d=" ++ E.encode bytes
      if maxUrlBytes < Rust.byteLength url then .error .tooLarge else .ok url

/-- `from_url` behind the query. -/
def fromValue (value : String) : Except ShareError SharedWork :=
  match E.decode value with
  | none => .error .invalidLink
  | some bytes =>
    if maxDocumentBytes < bytes.length then .error .tooLarge
    else
      match E.fromSlice bytes with
      | none => .error .invalidLink
      | some document => do
        document.validate E
        return document

def fromUrl (input : String) : Except ShareError SharedWork :=
  if maxUrlBytes < Rust.byteLength input then .error .tooLarge
  else
    match E.parse input with
    | none => .error .invalidLink
    | some url =>
      if url.scheme ≠ "qbutt" ∨ url.host ≠ some "open" ∨ url.username ≠ "" ∨ url.password ≠ none ∨
          url.port ≠ none ∨ url.path ≠ "" ∨ url.fragment ≠ none then .error .invalidLink
      else
        match E.queryPairs url with
        | [(key, value)] =>
          if key ≠ "d" ∨ value = "" ∨ !value.toList.all isUrlSafe then .error .invalidLink
          else fromValue E value
        | _ => .error .invalidLink

end Code

/-! ### Valid works -/

variable {E : Environment}

theorem publicationsValid_iff {seen publications : List PublicationRef} :
    publicationsValid E seen publications = true ↔
      (∀ publication ∈ publications, isPublicationShareable E publication = true) ∧
      publications.Nodup ∧ ∀ publication ∈ publications, publication ∉ seen := by
  induction publications generalizing seen with
  | nil => simp [publicationsValid]
  | cons publication publications ih =>
    rw [publicationsValid]
    by_cases h : !isPublicationShareable E publication || seen.contains publication
    · rw [if_pos h]
      simp only [Bool.or_eq_true, Bool.not_eq_true', List.contains_iff_mem] at h
      grind
    · rw [if_neg h, ih]
      simp only [Bool.or_eq_true, Bool.not_eq_true', List.contains_iff_mem] at h
      grind

/-- What `validate` accepts. -/
structure Valid (E : Environment) (w : SharedWork) : Prop where
  version : w.version = 1
  length_pos : 1 ≤ w.publications.length
  length_le : w.publications.length ≤ 32
  nodup : w.publications.Nodup
  shareable : ∀ publication ∈ w.publications,
    publication.source ∈ publicSources ∧ E.validPublication publication = true
  preferred : ∀ preferred ∈ w.preferred,
    E.validVariant preferred = true ∧ preferred.publication ∈ w.publications

variable {w : SharedWork}

theorem validate_iff : w.validate E = .ok () ↔ Valid E w := by
  constructor
  · intro h
    unfold validate at h
    split_ifs at h with hversion hempty hmany hpublications hpreferred
    obtain ⟨hshareable, hnodup, -⟩ := publicationsValid_iff.mp (by simpa using hpublications)
    refine ⟨not_not.mp hversion, List.length_pos_of_ne_nil hempty, Nat.not_lt.mp hmany, hnodup,
      fun publication hmem => by simpa [isPublicationShareable] using hshareable publication hmem,
      fun preferred hmem => ?_⟩
    rw [hmem] at hpreferred
    simpa using hpreferred
  · intro h
    have hpublications : publicationsValid E [] w.publications = true :=
      publicationsValid_iff.mpr ⟨fun publication hmem => by
        simpa [isPublicationShareable] using h.shareable publication hmem, h.nodup, by simp⟩
    have hpreferred : ¬ w.preferred.any fun preferred =>
        !E.validVariant preferred || !w.publications.contains preferred.publication := by
      cases hw : w.preferred with
      | none => simp
      | some preferred => simpa using h.preferred preferred hw
    rw [validate, if_neg (not_not.mpr h.version), if_neg (List.ne_nil_of_length_pos h.length_pos),
      if_neg (Nat.not_lt.mpr (show _ ≤ maxPublications from h.length_le)), hpublications,
      Bool.not_true, if_neg Bool.false_ne_true, if_neg hpreferred]

/-! ### Links -/

/-- The document of a work is read as it was written, Base64 writes four characters for three of its
bytes, and a link with such characters is an address with one parameter. -/
structure Lawful (E : Environment) : Prop where
  fromSlice_toVec : ∀ w bytes, E.toVec w = some bytes → E.fromSlice bytes = some w
  decode_encode : ∀ w bytes, E.toVec w = some bytes → E.decode (E.encode bytes) = some bytes
  encode_toVec : ∀ w bytes, E.toVec w = some bytes → E.encode bytes ≠ "" ∧
    (E.encode bytes).toList.all isUrlSafe = true ∧
    Rust.byteLength (E.encode bytes) ≤ 4 * ((bytes.length + 2) / 3)
  parse_link : ∀ value : String, value.toList.all isUrlSafe = true →
    ∃ url, E.parse ("qbutt://open?d=" ++ value) = some url ∧ url.scheme = "qbutt" ∧
      url.host = some "open" ∧ url.username = "" ∧ url.password = none ∧ url.port = none ∧
      url.path = "" ∧ url.fragment = none ∧ E.queryPairs url = [("d", value)]

/-- The second limit allows every document that the first one does. -/
theorem byteLength_link (h : Lawful E) {bytes : Bytes} (hbytes : E.toVec w = some bytes)
    (hlength : bytes.length ≤ maxDocumentBytes) :
    Rust.byteLength ("qbutt://open?d=" ++ E.encode bytes) ≤ maxUrlBytes := by
  have hlink : Rust.byteLength ("qbutt://open?d=" ++ E.encode bytes) =
      15 + Rust.byteLength (E.encode bytes) := String.utf8ByteSize_append
  obtain ⟨-, -, hencode⟩ := h.encode_toVec w bytes hbytes
  rw [hlink]
  unfold maxDocumentBytes at hlength
  unfold maxUrlBytes
  omega

theorem toUrl_eq_ok (h : Lawful E) {link : String} :
    w.toUrl E = .ok link ↔
      Valid E w ∧ ∃ bytes, E.toVec w = some bytes ∧
        bytes.length ≤ maxDocumentBytes ∧ link = "qbutt://open?d=" ++ E.encode bytes := by
  unfold toUrl
  constructor
  · intro hurl
    obtain ⟨⟨⟩, hvalid, hurl⟩ := bind_eq_ok.mp hurl
    cases hbytes : E.toVec w with
    | none => rw [hbytes] at hurl; cases hurl
    | some bytes =>
      rw [hbytes] at hurl
      dsimp only at hurl
      split_ifs at hurl with hlength
      exact ⟨validate_iff.mp hvalid, bytes, rfl, Nat.not_lt.mp hlength, (Except.ok.inj hurl).symm⟩
  · rintro ⟨hvalid, bytes, hbytes, hlength, rfl⟩
    refine bind_eq_ok.mpr ⟨(), validate_iff.mpr hvalid, ?_⟩
    rw [hbytes]
    exact (if_neg (Nat.not_lt.mpr hlength)).trans
      (if_neg (Nat.not_lt.mpr (byteLength_link h hbytes hlength)))

theorem fromUrl_eq_ok {input : String} (h : fromUrl E input = .ok w) :
    Valid E w ∧ Rust.byteLength input ≤ maxUrlBytes ∧
      ∃ url value bytes, E.parse input = some url ∧ E.queryPairs url = [("d", value)] ∧
        E.decode value = some bytes ∧ bytes.length ≤ maxDocumentBytes ∧
        E.fromSlice bytes = some w := by
  unfold fromUrl at h
  split_ifs at h with hlength
  split at h
  · cases h
  next url hparse =>
  split_ifs at h
  split at h
  · next key value hpairs =>
    split_ifs at h with hshape
    obtain rfl : key = "d" := not_not.mp (not_or.mp hshape).1
    unfold fromValue at h
    split at h
    · cases h
    next bytes hdecode =>
    split_ifs at h with hbytes
    split at h
    · cases h
    next document hread =>
    obtain ⟨⟨⟩, hvalid, h⟩ := bind_eq_ok.mp h
    cases h
    exact ⟨validate_iff.mp hvalid, Nat.not_lt.mp hlength, url, value, bytes, hparse, hpairs,
      hdecode, Nat.not_lt.mp hbytes, hread⟩
  · cases h

theorem fromUrl_toUrl (h : Lawful E) {link : String} (hlink : w.toUrl E = .ok link) :
    fromUrl E link = .ok w := by
  obtain ⟨hvalid, bytes, hbytes, hlength, rfl⟩ := (toUrl_eq_ok h).mp hlink
  obtain ⟨hvalue, hsafe, -⟩ := h.encode_toVec w bytes hbytes
  obtain ⟨url, hparse, hscheme, hhost, huser, hpassword, hport, hpath, hfragment, hpairs⟩ :=
    h.parse_link _ hsafe
  rw [fromUrl, if_neg (Nat.not_lt.mpr (byteLength_link h hbytes hlength)), hparse]
  dsimp only
  rw [if_neg (by simp [hscheme, hhost, huser, hpassword, hport, hpath, hfragment]), hpairs]
  dsimp only
  rw [if_neg (by simpa [hvalue] using hsafe), fromValue, h.decode_encode w bytes hbytes]
  dsimp only
  rw [if_neg (Nat.not_lt.mpr hlength), h.fromSlice_toVec w bytes hbytes]
  exact bind_eq_ok.mpr ⟨(), validate_iff.mpr hvalid, rfl⟩

/-- A link is read as the work it was written from; what is read is valid, no link or document is
read past its limit, and the limit of links refuses nothing that is written. -/
theorem shared_work_round_trip (h : Lawful E) :
    (∀ w link, toUrl E w = .ok link →
      fromUrl E link = .ok w ∧
        Rust.byteLength link ≤ maxUrlBytes) ∧
    (∀ input w, fromUrl E input = .ok w →
      Valid E w ∧
      new E w.publications w.preferred = .ok w ∧
      (∀ link, toUrl E w = .ok link →
        fromUrl E link = .ok w) ∧
      Rust.byteLength input ≤ maxUrlBytes ∧
      ∃ url value bytes, E.parse input = some url ∧ E.queryPairs url = [("d", value)] ∧
        E.decode value = some bytes ∧ bytes.length ≤ maxDocumentBytes ∧
        E.fromSlice bytes = some w) ∧
    ∀ w bytes, Valid E w → E.toVec w = some bytes →
      bytes.length ≤ maxDocumentBytes → ∃ link, toUrl E w = .ok link := by
  refine ⟨fun w link hlink => ⟨fromUrl_toUrl h hlink, ?_⟩, fun input w hread => ?_, ?_⟩
  · obtain ⟨-, bytes, hbytes, hlength, rfl⟩ := (toUrl_eq_ok h).mp hlink
    exact byteLength_link h hbytes hlength
  · obtain ⟨hvalid, hsize, hdocument⟩ := fromUrl_eq_ok hread
    refine ⟨hvalid, ?_, fun link hlink => fromUrl_toUrl h hlink, hsize, hdocument⟩
    have hw : (⟨1, w.publications, w.preferred⟩ : SharedWork) = w := by rw [← hvalid.version]
    exact bind_eq_ok.mpr ⟨(), by rw [hw]; exact validate_iff.mpr hvalid, congrArg Except.ok hw⟩
  · intro w bytes hvalid hbytes hlength
    exact ⟨_, (toUrl_eq_ok h).mpr ⟨hvalid, bytes, hbytes, hlength, rfl⟩⟩

/-! ### A link -/

def sampleWork : SharedWork := ⟨1, [⟨.aniLiberty, "1"⟩], none⟩

/-- The JSON text of the work. -/
def sampleDocument : Bytes :=
  "\x7b\"version\":1,\"publications\":[\x7b\"source\":\"ani_liberty\",\"id\":\"1\"\x7d]\x7d".toUTF8.toList

def sampleText : String :=
  "eyJ2ZXJzaW9uIjoxLCJwdWJsaWNhdGlvbnMiOlt7InNvdXJjZSI6ImFuaV9s" ++
    "aWJlcnR5IiwiaWQiOiIxIn1dfQ"

def scheme : String := "qbutt://open?d="

/-- The address of a link. -/
def sampleUrl (input : String) : Url where
  text := input
  scheme := "qbutt"
  host := some "open"
  port := none
  username := ""
  password := none
  path := ""
  query := some (String.ofList (input.toList.drop 13))
  fragment := none

def sampleEnvironment : Environment where
  validPublication _ := true
  validVariant _ := true
  toVec w := if w = sampleWork then some sampleDocument else none
  fromSlice bytes := if bytes = sampleDocument then some sampleWork else none
  encode bytes := if bytes = sampleDocument then sampleText else ""
  decode value := if value = sampleText then some sampleDocument else none
  parse input := if scheme.toList <+: input.toList then some (sampleUrl input) else none
  queryPairs url := url.query.toList.map fun query => ("d", String.ofList (query.toList.drop 2))

theorem toVec_sample {bytes : Bytes} (h : sampleEnvironment.toVec w = some bytes) :
    w = sampleWork ∧ bytes = sampleDocument := by
  simp only [sampleEnvironment] at h
  split_ifs at h with hw
  exact ⟨hw, (Option.some.inj h).symm⟩

theorem encode_sample : sampleEnvironment.encode sampleDocument = sampleText := if_pos rfl

theorem lawful_sample : Lawful sampleEnvironment where
  fromSlice_toVec w bytes h := by
    obtain ⟨rfl, rfl⟩ := toVec_sample h
    exact if_pos rfl
  decode_encode w bytes h := by
    obtain ⟨rfl, rfl⟩ := toVec_sample h
    rw [encode_sample]
    change (if sampleText = sampleText then some sampleDocument else none) = _
    rw [if_pos rfl]
  encode_toVec w bytes h := by
    obtain ⟨rfl, rfl⟩ := toVec_sample h
    rw [encode_sample]
    decide +kernel
  parse_link value _ := by
    have hlink : (scheme ++ value).toList = scheme.toList ++ value.toList := String.toList_append
    have hprefix : scheme.toList <+: (scheme ++ value).toList := hlink ▸ List.prefix_append _ _
    have hdrop : (scheme.toList ++ value.toList).drop 15 = value.toList :=
      List.drop_left' (by decide +kernel)
    refine ⟨sampleUrl (scheme ++ value), if_pos hprefix, rfl, rfl, rfl, rfl, rfl, rfl, rfl, ?_⟩
    change [("d", String.ofList
      ((String.ofList ((scheme ++ value).toList.drop 13)).toList.drop 2))] = _
    rw [hlink, String.toList_ofList, List.drop_drop, hdrop, String.ofList_toList]

theorem shared_work_sample : ∃ link,
    toUrl sampleEnvironment sampleWork = .ok link ∧
      fromUrl sampleEnvironment link = .ok sampleWork := by
  have hvalid := validate_iff.mp (show sampleWork.validate sampleEnvironment = .ok () by
    decide +kernel)
  obtain ⟨hround, -, hwritten⟩ := shared_work_round_trip lawful_sample
  obtain ⟨link, hlink⟩ := hwritten sampleWork sampleDocument hvalid rfl (by decide +kernel)
  exact ⟨link, hlink, (hround _ _ hlink).1⟩

end SharedWork

end Qbutt.Content
