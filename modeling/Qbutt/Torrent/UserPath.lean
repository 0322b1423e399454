import Qbutt.Streaming.Torrent
import Qbutt.Utils.Path

/-!
# Names of a torrent's files on the disk

`makeActualPath` appends an extension to a file that is not complete and puts one that is not wanted
in a folder of its own, as the options, its size, its state and its priority say.  `userFilePath`
takes both off wherever it finds them.  A name comes back if nothing of the kind was there before
(`userFilePath_makeActualPath_iff`).

User paths are relative and consist of proper names: `Path` has cleaned them.
-/

namespace Qbutt.Torrent

open List

open Utils (lastIndexOf parentText)
open Streaming (DownloadPriority)

def QB_EXT : List Char := ['.', '!', 'q', 'B']

def UNWANTED_FOLDER_NAME : List Char := ['.', 'u', 'n', 'w', 'a', 'n', 't', 'e', 'd']

/-! ### Paths -/

/-- The name of a file or folder. -/
def Proper (name : List Char) : Prop :=
  name ≠ [] ∧ '/' ∉ name ∧ name ≠ ['.'] ∧ name ≠ ['.', '.']

/-- The text of a path: a name in folders, the innermost first. -/
def pathText : List (List Char) → List Char → List Char
  | [], name => name
  | folder :: folders, name => pathText folders folder ++ '/' :: name

def folderText : List (List Char) → List Char
  | [] => []
  | folder :: folders => pathText folders folder

/-- `QDir::cleanPath`: separators and dots that say nothing are removed. -/
structure DirCleaning where
  cleanPath : List Char → List Char
  tidy : ∀ folders name, (∀ folder ∈ folders, Proper folder) → Proper name →
    cleanPath (pathText folders name) = pathText folders name
  length_le : ∀ path, (cleanPath path).length ≤ path.length

def DirCleaning.clean (D : DirCleaning) (path : List Char) : List Char :=
  if '/' ∈ path ∨ '\\' ∈ path then D.cleanPath path else path

def filename (pathStr : List Char) : List Char :=
  match lastIndexOf '/' pathStr with
  | none => pathStr
  | some slashIndex => pathStr.drop (slashIndex + 1)

/-- `hasExtension`, which does not look at the case of letters. -/
def hasExtension (pathStr ext : List Char) : Bool :=
  (ext.map Char.toLower).isSuffixOf (pathStr.map Char.toLower)

def removedExtension (pathStr ext : List Char) : List Char :=
  if hasExtension pathStr ext then pathStr.take (pathStr.length - ext.length) else pathStr

/-- `operator/`. -/
def join (D : DirCleaning) (lhs rhs : List Char) : List Char :=
  if rhs = [] then lhs else if lhs = [] then rhs else D.clean (lhs ++ '/' :: rhs)

/-- The relative path of a file. -/
structure UserPath where
  folders : List (List Char)
  name : List Char
  proper_folders : ∀ folder ∈ folders, Proper folder
  proper_name : Proper name

def UserPath.text (p : UserPath) : List Char := pathText p.folders p.name

/-! ### The torrent -/

/-- What a torrent knows of a file. -/
structure FileState where
  size : ℕ
  completed : Bool
  priority : DownloadPriority

/-- The options of the session and the files. -/
structure FileNaming where
  isAppendExtensionEnabled : Bool
  isUnwantedFolderEnabled : Bool
  files : List FileState

def FileNaming.appends (t : FileNaming) (index : Fin t.files.length) : Bool :=
  t.isAppendExtensionEnabled && decide (0 < (t.files.get index).size) &&
    !(t.files.get index).completed

def FileNaming.hides (t : FileNaming) (index : Fin t.files.length) : Bool :=
  t.isUnwantedFolderEnabled && (t.files.get index).priority = .ignored

def makeActualPath (D : DirCleaning) (t : FileNaming) (index : Fin t.files.length)
    (path : List Char) : List Char :=
  let actualPath := if t.appends index then D.clean (path ++ QB_EXT) else path
  if t.hides index then
    join D (join D (parentText actualPath) (D.clean UNWANTED_FOLDER_NAME))
      (D.clean (filename actualPath))
  else actualPath

/-- The folder for files that are not wanted is left out. -/
def withoutUnwanted (D : DirCleaning) (userPath : List Char) : List Char :=
  if filename (parentText userPath) = UNWANTED_FOLDER_NAME then
    join D (parentText (parentText userPath)) (D.clean (filename userPath))
  else userPath

def userFilePath (D : DirCleaning) (path : List Char) : List Char :=
  withoutUnwanted D (removedExtension path QB_EXT)

/-! ### Texts of paths -/

theorem lastIndexOf_of_not_mem {text : List Char} (h : '/' ∉ text) :
    lastIndexOf '/' text = none := by
  cases hindex : lastIndexOf '/' text with
  | none => rfl
  | some i => exact absurd (Utils.lastIndexOf_eq_some hindex).1 h

variable {name : List Char}

theorem lastIndexOf_append (h : '/' ∉ name) (path : List Char) :
    lastIndexOf '/' (path ++ '/' :: name) = some path.length := by
  induction path with
  | nil => simp [lastIndexOf, lastIndexOf_of_not_mem h]
  | cons c path ih => simp [lastIndexOf, ih]

theorem pathText_append (folders : List (List Char)) (name rest : List Char) :
    pathText folders name ++ rest = pathText folders (name ++ rest) := by
  cases folders with
  | nil => rfl
  | cons folder folders => simp [pathText]

theorem pathText_ne_nil (folders : List (List Char)) (h : name ≠ []) :
    pathText folders name ≠ [] := by
  cases folders with
  | nil => exact h
  | cons folder folders => simp [pathText]

theorem filename_pathText (folders : List (List Char)) (h : '/' ∉ name) :
    filename (pathText folders name) = name := by
  cases folders with
  | nil => rw [pathText, filename, lastIndexOf_of_not_mem h]
  | cons folder folders =>
    rw [pathText, filename, lastIndexOf_append h]
    simp

variable {folders : List (List Char)}

theorem parentText_pathText (hf : ∀ folder ∈ folders, Proper folder) (h : '/' ∉ name) :
    parentText (pathText folders name) = folderText folders := by
  cases folders with
  | nil => exact Utils.parentText_of_not_mem h
  | cons folder folders =>
    have hpos : (pathText folders folder).length ≠ 0 := by
      intro h0
      exact pathText_ne_nil folders (hf folder mem_cons_self).1 (length_eq_zero_iff.mp h0)
    rw [pathText, parentText, lastIndexOf_append h]
    simp [hpos, folderText]

theorem clean_pathText (D : DirCleaning) (hf : ∀ folder ∈ folders, Proper folder)
    (h : Proper name) : D.clean (pathText folders name) = pathText folders name := by
  unfold DirCleaning.clean
  split
  · exact D.tidy folders name hf h
  · rfl

theorem clean_name (D : DirCleaning) (h : Proper name) : D.clean name = name := by
  have hclean := clean_pathText D (forall_mem_nil _) h
  rwa [pathText] at hclean

theorem join_folderText (D : DirCleaning) (hf : ∀ folder ∈ folders, Proper folder)
    (h : Proper name) : join D (folderText folders) name = pathText folders name := by
  cases folders with
  | nil => rw [folderText, join, if_neg h.1, if_pos rfl, pathText]
  | cons folder folders =>
    have hne := pathText_ne_nil folders (hf folder mem_cons_self).1
    rw [folderText, join, if_neg h.1, if_neg hne]
    exact clean_pathText D hf h

theorem length_clean_le (D : DirCleaning) (path : List Char) :
    (D.clean path).length ≤ path.length := by
  unfold DirCleaning.clean
  split
  · exact D.length_le path
  · exact le_rfl

/-! ### The extension -/

theorem hasExtension_pathText (folders : List (List Char)) (name : List Char) :
    hasExtension (pathText folders name) QB_EXT = hasExtension name QB_EXT := by
  cases folders with
  | nil => rfl
  | cons folder folders =>
    rw [Bool.eq_iff_iff, hasExtension, hasExtension, isSuffixOf_iff_suffix,
      isSuffixOf_iff_suffix, pathText, map_append, map_cons]
    have hslash : Char.toLower '/' ∉ QB_EXT.map Char.toLower := by decide
    constructor
    · intro h
      rcases suffix_or_suffix_of_suffix h (suffix_append _ _) with h | h
      · rcases suffix_cons_iff.mp h with h | h
        · exact absurd (h ▸ mem_cons_self) hslash
        · exact h
      · exact absurd (h.subset mem_cons_self) hslash
    · intro h
      exact (h.trans (suffix_cons _ _)).trans (suffix_append _ _)

theorem removedExtension_append (path : List Char) :
    removedExtension (path ++ QB_EXT) QB_EXT = path := by
  have h : hasExtension (path ++ QB_EXT) QB_EXT = true := by
    rw [hasExtension, isSuffixOf_iff_suffix, map_append]
    exact suffix_append _ _
  rw [removedExtension, if_pos h, length_append, Nat.add_sub_cancel, take_left]

theorem removedExtension_pathText (folders : List (List Char))
    (h : hasExtension name QB_EXT = true) : ∃ short, short.length < name.length ∧
      (∀ c ∈ short, c ∈ name) ∧
      removedExtension (pathText folders name) QB_EXT = pathText folders short := by
  have hlen : QB_EXT.length ≤ name.length := by
    rw [hasExtension, isSuffixOf_iff_suffix] at h
    simpa using h.length_le
  have hpos : QB_EXT.length = 4 := rfl
  refine ⟨name.take (name.length - QB_EXT.length), ?_, fun c hc => mem_of_mem_take hc, ?_⟩
  · rw [length_take]
    omega
  · rw [removedExtension, hasExtension_pathText, if_pos h]
    cases folders with
    | nil => rfl
    | cons folder folders =>
      rw [pathText, pathText, take_append, take_of_length_le, length_append, length_cons]
      · rw [show _ + (name.length + 1) - QB_EXT.length - (pathText folders folder).length =
          (name.length - QB_EXT.length) + 1 by omega, take_succ_cons]
      · rw [length_append, length_cons]
        omega

/-! ### The two functions -/

theorem proper_unwanted : Proper UNWANTED_FOLDER_NAME := by
  refine ⟨?_, ?_, ?_, ?_⟩
  all_goals decide

theorem proper_append (h : Proper name) : Proper (name ++ QB_EXT) := by
  refine ⟨by simp [QB_EXT], ?_, ?_, ?_⟩
  · rw [mem_append, not_or]
    exact ⟨h.2.1, by decide⟩
  all_goals
    intro heq
    have hlen := congrArg List.length heq
    rw [length_append, show QB_EXT.length = 4 from rfl] at hlen
    simp at hlen

def actualName (t : FileNaming) (index : Fin t.files.length) (name : List Char) : List Char :=
  if t.appends index then name ++ QB_EXT else name

def actualFolders (t : FileNaming) (index : Fin t.files.length) (folders : List (List Char)) :
    List (List Char) :=
  if t.hides index then UNWANTED_FOLDER_NAME :: folders else folders

theorem makeActualPath_eq (D : DirCleaning) (t : FileNaming) (index : Fin t.files.length)
    (p : UserPath) : makeActualPath D t index p.text =
      pathText (actualFolders t index p.folders) (actualName t index p.name) := by
  have hname : Proper (actualName t index p.name) := by
    unfold actualName
    split
    · exact proper_append p.proper_name
    · exact p.proper_name
  have hactual : (if t.appends index then D.clean (p.text ++ QB_EXT) else p.text) =
      pathText p.folders (actualName t index p.name) := by
    unfold actualName
    split
    · rw [UserPath.text, pathText_append]
      exact clean_pathText D p.proper_folders (proper_append p.proper_name)
    · rfl
  have hfolders : ∀ folder ∈ UNWANTED_FOLDER_NAME :: p.folders, Proper folder := by
    rw [forall_mem_cons]
    exact ⟨proper_unwanted, p.proper_folders⟩
  simp only [makeActualPath, hactual, actualFolders]
  split
  · rw [filename_pathText _ hname.2.1, parentText_pathText p.proper_folders hname.2.1,
      clean_name D proper_unwanted, clean_name D hname, join_folderText D p.proper_folders
      proper_unwanted]
    exact join_folderText D hfolders hname
  · rfl

theorem withoutUnwanted_eq (D : DirCleaning) (hf : ∀ folder ∈ folders, Proper folder)
    (h : '/' ∉ name) :
    withoutUnwanted D (pathText folders name) =
      if folders.head? = some UNWANTED_FOLDER_NAME then
        join D (folderText folders.tail) (D.clean name)
      else pathText folders name := by
  have hne : filename [] ≠ UNWANTED_FOLDER_NAME := by decide
  rw [withoutUnwanted, filename_pathText folders h, parentText_pathText hf h]
  cases folders with
  | nil => rw [folderText, if_neg hne, if_neg (by simp)]
  | cons folder folders =>
    obtain ⟨hfolder, hfolders⟩ := forall_mem_cons.mp hf
    rw [folderText, filename_pathText folders hfolder.2.1, parentText_pathText hfolders hfolder.2.1]
    simp only [List.head?_cons, Option.some.injEq, tail_cons]

theorem length_join_le (D : DirCleaning) (lhs rhs : List Char) :
    (join D lhs rhs).length ≤ lhs.length + 1 + rhs.length := by
  unfold join
  split
  · omega
  · split
    · omega
    · have hlen := length_clean_le D (lhs ++ '/' :: rhs)
      rw [length_append, length_cons] at hlen
      omega

theorem length_pathText (folders : List (List Char)) (name : List Char) :
    (pathText folders name).length = (pathText folders []).length + name.length := by
  rw [← length_append, pathText_append, nil_append]

theorem length_join_folderText_le (D : DirCleaning) (folders : List (List Char))
    (name : List Char) :
    (join D (folderText folders) (D.clean name)).length ≤ (pathText folders name).length := by
  have hclean := length_clean_le D name
  cases folders with
  | nil =>
    rw [folderText, join, pathText]
    split
    · exact Nat.zero_le _
    · exact hclean
  | cons folder folders =>
    have hjoin := length_join_le D (pathText folders folder) (D.clean name)
    rw [folderText, pathText, length_append, length_cons]
    omega

/-- Leaving the folder out makes no text longer. -/
theorem length_withoutUnwanted_le (D : DirCleaning) (hf : ∀ folder ∈ folders, Proper folder)
    (h : '/' ∉ name) :
    (withoutUnwanted D (pathText folders name)).length ≤ (pathText folders name).length := by
  rw [withoutUnwanted_eq D hf h]
  split
  · have hjoin := length_join_folderText_le D folders.tail name
    have htail : (pathText folders.tail name).length ≤ (pathText folders name).length := by
      cases folders with
      | nil => exact le_rfl
      | cons folder folders =>
        have hname := length_pathText folders name
        have hfolder := length_pathText folders folder
        rw [tail_cons, pathText, length_append, length_cons]
        omega
    omega
  · exact le_rfl

/-- Whether the file is in a folder with the name of the one for files that are not wanted. -/
def UserPath.InUnwanted (p : UserPath) : Prop := p.folders.head? = some UNWANTED_FOLDER_NAME

/-- The name of the file ends like that of one that is not complete. -/
def UserPath.HasExtension (p : UserPath) : Prop := hasExtension p.name QB_EXT = true

/-- What is left where the extension came off as it should. -/
theorem withoutUnwanted_actual (D : DirCleaning) (t : FileNaming) (index : Fin t.files.length)
    (p : UserPath) :
    withoutUnwanted D (pathText (actualFolders t index p.folders) p.name) = p.text ↔
      (t.hides index = true ∨ ¬ p.InUnwanted) := by
  have hname := p.proper_name
  unfold actualFolders
  split
  · rename_i hhides
    have hfolders : ∀ folder ∈ UNWANTED_FOLDER_NAME :: p.folders, Proper folder := by
      rw [forall_mem_cons]
      exact ⟨proper_unwanted, p.proper_folders⟩
    rw [withoutUnwanted_eq D hfolders hname.2.1, List.head?_cons, if_pos rfl, tail_cons,
      clean_name D hname, join_folderText D p.proper_folders hname]
    exact iff_of_true rfl (.inl hhides)
  · rename_i hhides
    rw [withoutUnwanted_eq D p.proper_folders hname.2.1]
    split
    · rename_i hhead
      refine iff_of_false ?_ (by rw [not_or, not_not]; exact ⟨hhides, hhead⟩)
      obtain ⟨folders, hfolders⟩ : ∃ folders, p.folders = UNWANTED_FOLDER_NAME :: folders :=
        ⟨p.folders.tail, (cons_head?_tail hhead).symm⟩
      have hrest := p.proper_folders
      rw [hfolders, forall_mem_cons] at hrest
      rw [UserPath.text, hfolders, tail_cons, clean_name D hname, join_folderText D hrest.2 hname]
      intro heq
      have hlen := congrArg List.length heq
      have hshort := length_pathText folders p.name
      have hlong := length_pathText folders UNWANTED_FOLDER_NAME
      rw [pathText, length_append, length_cons] at hlen
      omega
    · rename_i hhead
      exact iff_of_true rfl (.inr hhead)

/-- A file's path comes back from its name on the disk, and gives that name again, just where the
extension or the folder that is taken off was put there for the file. -/
theorem userFilePath_makeActualPath_iff (D : DirCleaning) (t : FileNaming)
    (index : Fin t.files.length) (p : UserPath) :
    (userFilePath D (makeActualPath D t index p.text) = p.text ∧
      makeActualPath D t index (userFilePath D (makeActualPath D t index p.text)) =
        makeActualPath D t index p.text) ↔
      (t.appends index = true ∨ ¬ p.HasExtension) ∧ (t.hides index = true ∨ ¬ p.InUnwanted) := by
  have hkeep : ∀ c : Prop, (userFilePath D (makeActualPath D t index p.text) = p.text ↔ c) →
      ((userFilePath D (makeActualPath D t index p.text) = p.text ∧
        makeActualPath D t index (userFilePath D (makeActualPath D t index p.text)) =
          makeActualPath D t index p.text) ↔ c) := by
    intro c hc
    rw [← hc]
    exact ⟨And.left, fun h => ⟨h, by rw [h]⟩⟩
  apply hkeep
  rw [makeActualPath_eq, userFilePath, actualName, ← withoutUnwanted_actual D t index p]
  split
  · rename_i happ
    rw [← pathText_append, removedExtension_append, and_iff_right (.inl happ)]
  · rename_i happ
    by_cases hext : p.HasExtension
    · obtain ⟨short, hshort, hmem, hremoved⟩ :=
        removedExtension_pathText (actualFolders t index p.folders) hext
      refine iff_of_false (fun heq => ?_) fun h => h.1.elim happ (absurd hext)
      have hslash : '/' ∉ short := fun h => p.proper_name.2.1 (hmem _ h)
      have hlen : (withoutUnwanted D (pathText (actualFolders t index p.folders) short)).length ≤
          (pathText p.folders short).length := by
        unfold actualFolders
        split
        · rw [withoutUnwanted_eq D (forall_mem_cons.mpr ⟨proper_unwanted, p.proper_folders⟩)
            hslash, List.head?_cons, if_pos rfl]
          exact length_join_folderText_le D p.folders short
        · exact length_withoutUnwanted_le D p.proper_folders hslash
      rw [← hremoved, heq, UserPath.text, length_pathText, length_pathText p.folders short] at hlen
      omega
    · have hno : ¬ hasExtension p.name QB_EXT = true := hext
      rw [removedExtension, hasExtension_pathText, if_neg hno, and_iff_right (.inr hext)]

/-- Paths that are clean already. -/
def sampleCleaning : DirCleaning := ⟨id, fun _ _ _ _ => rfl, fun _ => le_rfl⟩

/-- A complete file that is wanted, with both options on. -/
def sampleNaming : FileNaming := ⟨true, true, [⟨1, true, .normal⟩]⟩

def sampleIndex : Fin sampleNaming.files.length := ⟨0, by decide⟩

/-- The file `a.!qB`, in the root of the torrent. -/
def samplePath : UserPath where
  folders := []
  name := ['a', '.', '!', 'q', 'B']
  proper_folders := forall_mem_nil _
  proper_name := ⟨by decide, by decide, by decide, by decide⟩

def sampleUnwanted : UserPath where
  folders := [UNWANTED_FOLDER_NAME]
  name := ['a']
  proper_folders := forall_mem_singleton.mpr proper_unwanted
  proper_name := ⟨by decide, by decide, by decide, by decide⟩

theorem user_names_not_kept :
    userFilePath sampleCleaning (makeActualPath sampleCleaning sampleNaming sampleIndex
        samplePath.text) =
        ['a'] ∧ samplePath.text = ['a', '.', '!', 'q', 'B'] ∧
      userFilePath sampleCleaning (makeActualPath sampleCleaning sampleNaming sampleIndex
        sampleUnwanted.text) = ['a'] ∧ sampleUnwanted.text ≠ ['a'] := by
  decide +kernel

end Qbutt.Torrent
