import Mathlib.Data.List.DropRight
import Qbutt.Download.Equiv.FileName
import Qbutt.Rust.Bytes

/-!
# Usable file names

The name of a download has only permitted characters and ends with its extension, and its stem is cut at
a character boundary.  A device name with a superscript digit is not known as reserved, and the cut to
150 characters is no bound on bytes: `candidates_usable_iff` says which titles get a name that is no
device name and that fits on all supported systems with every candidate.
-/

namespace Qbutt.Download

open List

open Qbutt.Rust (utf8Length utf16Length sliceTo)

/-! ### Usable names -/

def deviceNames : List String :=
  ["con", "prn", "aux", "nul", "conin$", "conout$",
    "com1", "com2", "com3", "com4", "com5", "com6", "com7", "com8", "com9", "com¹", "com²", "com³",
    "lpt1", "lpt2", "lpt3", "lpt4", "lpt5", "lpt6", "lpt7", "lpt8", "lpt9", "lpt¹", "lpt²", "lpt³"]

def superscriptNames : List String := ["com¹", "com²", "com³", "lpt¹", "lpt²", "lpt³"]

/-- What comes before the first dot of a name, in lower case and without spaces at the end. -/
def beforeDot (name : List Char) : String :=
  String.ofList ((trimEndMatches [' '] (name.takeWhile (· ≠ '.'))).map toAsciiLowercase)

def Fits (name : List Char) : Prop := utf16Length name ≤ 255 ∧ utf8Length name ≤ 255

/-- The name of a title and its candidates can be used on all supported systems. -/
structure Usable (title extension : List Char) : Prop where
  permitted : ∀ c ∈ safeFileName title extension, Permitted c
  has_extension : extension <:+ (safeFileName title extension).map toAsciiLowercase
  not_device : beforeDot (safeFileName title extension) ∉ deviceNames
  fits : ∀ index, 1 ≤ index → index ≤ 10000 → Fits (candidateName title extension index)
  /-- The slice of the stem is at a character boundary, and is that of the candidates. -/
  boundary : utf8Length extension ≤ utf8Length (safeFileName title extension) ∧
    sliceTo (safeFileName title extension)
        (utf8Length (safeFileName title extension) - utf8Length extension) =
      some ((safeFileName title extension).take
        ((safeFileName title extension).length - extension.length))

/-! ### Titles -/

/-- What separates the words of a title. -/
def separates (c : Char) : Bool := isWhitespace c || isControl c || forbidden.contains c

/-- The words of a title with a space between them, up to the 150th character and without dots and
spaces at the end. -/
def titleText (title : List Char) : List Char :=
  (([' '].intercalate ((title.splitOnP separates).filter (· ≠ []))).take 150).rdropWhile
    fun c => c = '.' || c = ' '

/-- The text of a title is no device name with a superscript digit, and with the extension, unless it
ends with it, leaves room for ` (10000)` in 255 bytes; a reserved text is not used at all. -/
structure Fitting (title extension : List Char) : Prop where
  not_superscript : beforeDot (titleText title) ∉ superscriptNames
  short : isReserved (titleText title) ∨ utf8Length (titleText title) +
    (if extension.isSuffixOf ((titleText title).map toAsciiLowercase) then 0
      else utf8Length extension) ≤ 247

theorem cleanTitle_eq_titleText (title : List Char) : cleanTitle title = titleText title := by
  have hseparates : (isWhitespace ∘ fun c => if isControl c || forbidden.contains c then ' ' else c) =
      separates := by
    funext c
    show isWhitespace (if (isControl c || forbidden.contains c) = true then ' ' else c) =
      (isWhitespace c || isControl c || forbidden.contains c)
    rw [Bool.or_assoc]
    cases isControl c || forbidden.contains c with
    | true =>
      rw [if_pos rfl, Bool.or_true]
      rfl
    | false => rw [if_neg Bool.false_ne_true, Bool.or_false]
  have hwords : splitWhitespace
      (title.map fun c => if isControl c || forbidden.contains c then ' ' else c) =
      (title.splitOnP separates).filter (· ≠ []) := by
    rw [splitWhitespace, splitOnP_map, hseparates]
    refine congrArg (List.filter (· ≠ [])) ((map_congr_left fun piece hpiece => ?_).trans
      (map_id _))
    refine (map_congr_left fun c hc => ?_).trans (map_id piece)
    have hsep := not_of_mem_splitOnP hpiece hc
    unfold separates at hsep
    rw [Bool.or_assoc, Bool.or_eq_false_iff] at hsep
    rw [if_neg (by rw [hsep.2]; exact Bool.false_ne_true)]
    rfl
  unfold cleanTitle titleText trimEndMatches
  dsimp only
  rw [hwords]
  have hset : (fun c => List.contains ['.', ' '] c) =
      fun c : Char => decide (c = '.') || decide (c = ' ') := by
    funext c
    rw [contains_cons, contains_cons, contains_nil, Bool.or_false]
    rfl
  rw [hset]
  rfl

/-! ### Extensions and stems -/

theorem utf8Size_toAsciiLowercase (c : Char) : (toAsciiLowercase c).utf8Size = c.utf8Size := by
  unfold toAsciiLowercase
  split_ifs with hupper
  · obtain ⟨hlow, hhigh⟩ : 65 ≤ c.toNat ∧ c.toNat ≤ 90 := by
      simpa [Char.le_def, UInt32.le_iff_toNat_le] using hupper
    have hvalid : (c.toNat + 32).isValidChar := .inl (by omega)
    have hnat : (Char.ofNat (c.toNat + 32)).toNat = c.toNat + 32 := by
      rw [Char.ofNat, dif_pos hvalid]
      rfl
    have hone : c.utf8Size = 1 := by
      refine Char.utf8Size_eq_one_iff.mpr (UInt32.le_iff_toNat_le.mpr ?_)
      show c.toNat ≤ 127
      omega
    rw [hone]
    refine Char.utf8Size_eq_one_iff.mpr (UInt32.le_iff_toNat_le.mpr ?_)
    show (Char.ofNat (c.toNat + 32)).toNat ≤ 127
    omega
  · rfl

theorem utf8Length_map_toAsciiLowercase (text : List Char) :
    utf8Length (text.map toAsciiLowercase) = utf8Length text := by
  induction text with
  | nil => rfl
  | cons c text ih =>
    rw [map_cons, Qbutt.Rust.utf8Length_cons, Qbutt.Rust.utf8Length_cons, ih,
      utf8Size_toAsciiLowercase]

/-- Lower case does not change the extension, which begins with a dot and has one byte for each
character. -/
structure IsExtension (extension : List Char) : Prop where
  lower : extension.map toAsciiLowercase = extension
  dot : ∃ rest, extension = '.' :: rest
  permitted : ∀ c ∈ extension, Permitted c
  short : utf8Length extension = 4

theorem isExtension_extension {ρ : Type} (request : DirectDownload ρ) :
    IsExtension request.extension.toList := by
  unfold DirectDownload.extension
  split_ifs
  · exact ⟨rfl, ⟨_, rfl⟩, permitted_of_all rfl, rfl⟩
  · exact ⟨rfl, ⟨_, rfl⟩, permitted_of_all rfl, rfl⟩

variable {title extension : List Char}

theorem extension_suffix (title : List Char) (hext : IsExtension extension) :
    extension <:+ (safeFileName title extension).map toAsciiLowercase := by
  unfold safeFileName
  dsimp only
  split_ifs with h
  · exact isSuffixOf_iff_suffix.mp h
  · rw [map_append, hext.lower]
    exact suffix_append _ _

theorem exists_stem (title : List Char) (hext : IsExtension extension) : ∃ suffix,
    safeFileName title extension = (safeFileName title extension).take
        ((safeFileName title extension).length - extension.length) ++ suffix ∧
      utf8Length suffix = utf8Length extension := by
  obtain ⟨front, hfront⟩ := extension_suffix title hext
  generalize safeFileName title extension = name at hfront
  have hlength := congrArg List.length hfront
  rw [length_append, length_map] at hlength
  refine ⟨name.drop (name.length - extension.length), (take_append_drop _ _).symm, ?_⟩
  rw [← utf8Length_map_toAsciiLowercase, map_drop, ← hfront,
    show name.length - extension.length = front.length by omega, drop_left]

theorem boundary_safeFileName (hext : IsExtension extension) :
    utf8Length extension ≤ utf8Length (safeFileName title extension) ∧
      sliceTo (safeFileName title extension)
          (utf8Length (safeFileName title extension) - utf8Length extension) =
        some ((safeFileName title extension).take
          ((safeFileName title extension).length - extension.length)) := by
  obtain ⟨suffix, hname, hsuffix⟩ := exists_stem title hext
  generalize (safeFileName title extension).take
    ((safeFileName title extension).length - extension.length) = stem at hname
  rw [hname, Qbutt.Rust.utf8Length_append, hsuffix]
  refine ⟨Nat.le_add_left _ _, ?_⟩
  rw [Nat.add_sub_cancel]
  exact Qbutt.Rust.sliceTo_append stem suffix

/-! ### Lengths -/

theorem utf8Length_repr (n : ℕ) : utf8Length n.repr.toList = n.repr.length := by
  have hone : ∀ c ∈ n.repr.toList, c.utf8Size = 1 := by
    intro c hc
    rw [Nat.repr, String.toList_ofList] at hc
    have hdigit := Nat.isDigit_of_mem_toDigits (by decide : 0 < 10) (by decide : 10 ≤ 10) hc
    obtain ⟨-, hhigh⟩ : 48 ≤ c.toNat ∧ c.toNat ≤ 57 := by
      simpa [Char.isDigit, UInt32.le_iff_toNat_le] using hdigit
    refine Char.utf8Size_eq_one_iff.mpr (UInt32.le_iff_toNat_le.mpr ?_)
    show c.toNat ≤ 127
    omega
  rw [utf8Length, map_congr_left hone, map_const', sum_replicate_nat, Nat.mul_one,
    String.length_toList]

/-- A candidate is longer than the name by the digits of its index and three more bytes. -/
theorem utf8Length_candidateName (hext : IsExtension extension) {index : ℕ} (hindex : index ≠ 1) :
    utf8Length (candidateName title extension index) =
      utf8Length (safeFileName title extension) + index.repr.length + 3 := by
  obtain ⟨suffix, hname, hsuffix⟩ := exists_stem title hext
  have hstem : utf8Length (safeFileName title extension) = utf8Length
      ((safeFileName title extension).take
        ((safeFileName title extension).length - extension.length)) + utf8Length extension := by
    rw [← hsuffix, ← Qbutt.Rust.utf8Length_append, ← hname]
  have hopen : utf8Length " (".toList = 2 := rfl
  have hclose : utf8Length ")".toList = 1 := rfl
  unfold candidateName
  dsimp only
  rw [if_neg hindex]
  simp only [Qbutt.Rust.utf8Length_append, utf8Length_repr, hopen, hclose]
  omega

theorem candidates_fit_iff (title : List Char) (hext : IsExtension extension) :
    (∀ index, 1 ≤ index → index ≤ 10000 → Fits (candidateName title extension index)) ↔
      utf8Length (safeFileName title extension) ≤ 247 := by
  constructor
  · intro h
    have hlast := (h 10000 (by decide) le_rfl).2
    rw [utf8Length_candidateName hext (by decide)] at hlast
    have hfive : (10000 : ℕ).repr.length = 5 := by decide +kernel
    omega
  · intro h index hlow hhigh
    have hbytes : utf8Length (candidateName title extension index) ≤ 255 := by
      by_cases hone : index = 1
      · rw [candidateName]
        dsimp only
        rw [if_pos hone]
        omega
      · rw [utf8Length_candidateName hext hone]
        have hdigits : index.repr.length ≤ 5 := (Nat.length_repr_le_iff (by decide)).mpr (by omega)
        omega
    exact ⟨(Qbutt.Rust.utf16Length_le_utf8Length _).trans hbytes, hbytes⟩

/-! ### Device names -/

theorem takeWhile_append_dot (name rest : List Char) :
    (name ++ '.' :: rest).takeWhile (· ≠ '.') = name.takeWhile (· ≠ '.') := by
  induction name with
  | nil => rfl
  | cons c name ih =>
    rw [cons_append, takeWhile_cons, takeWhile_cons, ih]

theorem beforeDot_append (hext : IsExtension extension) (name : List Char) :
    beforeDot (name ++ extension) = beforeDot name := by
  obtain ⟨rest, rfl⟩ := hext.dot
  rw [beforeDot, takeWhile_append_dot]
  rfl

theorem beforeDot_safeFileName (title : List Char) (hext : IsExtension extension) :
    beforeDot (safeFileName title extension) = beforeDot (baseName title) := by
  unfold safeFileName
  dsimp only
  split_ifs
  · rfl
  · exact beforeDot_append hext _

theorem isReserved_iff (name : List Char) : isReserved name = true ↔ beforeDot name ∈ reservedNames :=
  contains_iff_mem

theorem mem_deviceNames (name : String) :
    name ∈ deviceNames ↔ name ∈ reservedNames ∨ name ∈ superscriptNames := by
  rw [← mem_append]
  exact (show deviceNames.Perm (reservedNames ++ superscriptNames) by decide +kernel).mem_iff

theorem utf8Length_safeFileName (title extension : List Char) :
    utf8Length (safeFileName title extension) = utf8Length (baseName title) +
      if extension.isSuffixOf ((baseName title).map toAsciiLowercase) then 0
        else utf8Length extension := by
  unfold safeFileName
  dsimp only
  split_ifs
  · rfl
  · exact Qbutt.Rust.utf8Length_append _ _

theorem fitting_of_unused (hext : IsExtension extension)
    (h : (titleText title).isEmpty || isReserved (titleText title)) : Fitting title extension := by
  rcases Bool.or_eq_true_iff.mp h with hempty | hreserved
  · have hnil : titleText title = [] := isEmpty_iff.mp hempty
    constructor
    · rw [hnil]
      decide +kernel
    · right
      rw [hnil, hext.short]
      split_ifs
      · decide
      · decide
  · refine ⟨fun hsuperscript => ?_, .inl hreserved⟩
    have hdisjoint : ∀ name ∈ reservedNames, name ∉ superscriptNames := by decide +kernel
    exact hdisjoint _ ((isReserved_iff _).mp hreserved) hsuperscript

theorem baseName_of_unused (h : (titleText title).isEmpty || isReserved (titleText title)) :
    baseName title = "Download".toList := by
  unfold baseName
  rw [cleanTitle_eq_titleText]
  exact if_pos h

theorem baseName_of_used (h : ¬ ((titleText title).isEmpty || isReserved (titleText title)) = true) :
    baseName title = titleText title := by
  unfold baseName
  rw [cleanTitle_eq_titleText]
  exact if_neg h

/-- A title gets a name that can be used, with all candidates of it, exactly if its text is fitting. -/
theorem candidates_usable_iff {ρ : Type} (request : DirectDownload ρ) :
    Usable request.title.toList request.extension.toList ↔
      Fitting request.title.toList request.extension.toList := by
  have hext := isExtension_extension request
  generalize request.title.toList = title
  generalize request.extension.toList = extension at hext
  have hlength := utf8Length_safeFileName title extension
  have hbefore := beforeDot_safeFileName title hext
  by_cases hused : ((titleText title).isEmpty || isReserved (titleText title)) = true
  · rw [baseName_of_unused hused] at hlength hbefore
    have hfits : utf8Length (safeFileName title extension) ≤ 247 := by
      rw [hlength, hext.short, show utf8Length "Download".toList = 8 from rfl]
      split_ifs
      · decide
      · decide
    have hdevice : beforeDot (safeFileName title extension) ∉ deviceNames := by
      rw [hbefore]
      decide +kernel
    exact ⟨fun _ => fitting_of_unused hext hused, fun _ =>
      ⟨safeFileName_permitted title extension hext.permitted, extension_suffix title hext, hdevice,
        (candidates_fit_iff title hext).mpr hfits, boundary_safeFileName hext⟩⟩
  · rw [baseName_of_used hused] at hlength hbefore
    have hreserved : ¬ isReserved (titleText title) = true := fun h =>
      hused (by rw [h, Bool.or_true])
    constructor
    · intro h
      refine ⟨fun hsuperscript => h.not_device ?_, .inr ?_⟩
      · rw [hbefore]
        exact (mem_deviceNames _).mpr (.inr hsuperscript)
      · rw [← hlength]
        exact (candidates_fit_iff title hext).mp h.fits
    · intro h
      refine ⟨safeFileName_permitted title extension hext.permitted, extension_suffix title hext, ?_,
        (candidates_fit_iff title hext).mpr ?_, boundary_safeFileName hext⟩
      · rw [hbefore]
        intro hdevice
        rcases (mem_deviceNames _).mp hdevice with hname | hname
        · exact hreserved ((isReserved_iff _).mpr hname)
        · exact h.not_superscript hname
      · rw [hlength]
        exact h.short.resolve_left hreserved

/-- The device name `COM¹` is kept as it is, and 150 characters of three bytes are too long. -/
theorem candidates_not_usable : ¬ Usable "COM¹".toList ".mp4".toList ∧
    ¬ Usable (List.replicate 150 '漢') ".mp4".toList := by
  have hdevice : beforeDot (safeFileName "COM¹".toList ".mp4".toList) ∈ deviceNames := by
    decide +kernel
  have hlong : ¬ Fits (candidateName (List.replicate 150 '漢') ".mp4".toList 1) := by
    unfold Fits
    decide +kernel
  exact ⟨fun h => h.not_device hdevice, fun h => hlong (h.fits 1 le_rfl (by decide))⟩

end Qbutt.Download
