import Mathlib.Algebra.Order.BigOperators.Group.Finset
import Mathlib.Tactic.Ring
import Qbutt.Torrent.Progress

/-!
# The progress of a file and its pieces

The progress of a file is the sum of the bytes that it shares with the pieces, after every update in
whose run no piece with bytes of a listed file is lost and no new piece has padding in front of such
bytes (`progress_eq_sum`).
-/

namespace Qbutt.Progress

open Finset

variable {i k start stop n piece : ℕ} {info : TorrentInfo} {bits pieces : Bits}

namespace TorrentInfo

variable {info : TorrentInfo}

variable (info) in
/-- How many bytes of a native file are between two places of the torrent. -/
def overlap (start stop i : ℕ) : ℕ :=
  min stop (info.nativeOffset i + info.nativeSize i) - max start (info.nativeOffset i)

variable (info) in
def nativeShared (i piece : ℕ) : ℕ :=
  info.overlap (piece * info.pieceLength) ((piece + 1) * info.pieceLength) i

variable (info) in
def sharedBytes (fileIndex piece : ℕ) : ℕ :=
  (info.nativeIndexes[fileIndex]?.map fun i => info.nativeShared i piece).getD 0

variable (info) in
/-- No padding stands in front of bytes of a listed file in the piece. -/
def PaddingLast (piece : ℕ) : Prop :=
  ∀ i j, i < j → info.isPad i = true → 0 < info.nativeShared i piece → info.isPad j = false →
    info.nativeShared j piece = 0

variable (info) in
def OnlyPadding (piece : ℕ) : Prop := ∀ i, info.isPad i = false → info.nativeShared i piece = 0

/-! ### Files -/

theorem nativeOffset_succ (i : ℕ) :
    info.nativeOffset (i + 1) = info.nativeOffset i + info.nativeSize i := by
  unfold nativeOffset nativeSize
  rw [List.take_add_one, List.map_append, List.sum_append]
  cases info.files[i]? <;> simp

theorem nativeOffset_mono {j : ℕ} (h : i ≤ j) : info.nativeOffset i ≤ info.nativeOffset j := by
  induction h with
  | refl => exact Nat.le_refl _
  | step _ ih => exact ih.trans (by rw [nativeOffset_succ]; exact Nat.le_add_right _ _)

theorem mem_nativeIndexes :
    i ∈ info.nativeIndexes ↔ i < info.files.length ∧ info.isPad i = false := by
  rw [nativeIndexes, List.mem_filter, List.mem_range, Bool.not_eq_true']

theorem nodup_nativeIndexes : info.nativeIndexes.Nodup := List.nodup_range.filter _

theorem idxOf_nativeIndexes (h : info.nativeIndexes[k]? = some i) :
    info.nativeIndexes.idxOf? i = some k := by
  obtain ⟨hk, rfl⟩ := List.getElem?_eq_some_iff.mp h
  refine List.idxOf?_eq_some_iff.mpr ⟨hk, rfl, fun j hj heq => ?_⟩
  exact hj.ne ((info.nodup_nativeIndexes.getElem_inj_iff).mp heq)

/-- What ends before a file shares nothing with it. -/
theorem overlap_eq_zero_of_le {j : ℕ} (h : stop ≤ max start (info.nativeOffset i)) (hij : i ≤ j) :
    info.overlap start stop j = 0 := by
  have := info.nativeOffset_mono hij
  unfold overlap
  omega

theorem slice_eq_none (h : info.overlap start stop i = 0) : info.slice start stop i = none := by
  unfold overlap at h
  exact if_neg (by omega)

theorem slice_eq_some (h : 0 < info.overlap start stop i) :
    ∃ offset size, info.slice start stop i = some ⟨i, offset, size⟩ := by
  unfold overlap at h
  exact ⟨_, _, if_pos (by omega)⟩

variable (info) in
/-- The listed files among some, as the slices between two places name them. -/
def listed (start stop : ℕ) (files : List ℕ) : List ℕ :=
  (files.filterMap (info.slice start stop)).filterMap
    fun fileSlice => info.nativeIndexes.idxOf? fileSlice.fileIndex

theorem listed_cons_of_none (files : List ℕ) (h : info.overlap start stop i = 0) :
    info.listed start stop (i :: files) = info.listed start stop files := by
  rw [listed, List.filterMap_cons_none (slice_eq_none h), listed]

theorem listed_cons_of_pad (files : List ℕ) (hpad : info.isPad i = true) :
    info.listed start stop (i :: files) = info.listed start stop files := by
  by_cases h : info.overlap start stop i = 0
  · exact listed_cons_of_none files h
  · obtain ⟨offset, size, hslice⟩ := slice_eq_some (Nat.pos_of_ne_zero h)
    have hnot : i ∉ info.nativeIndexes := fun hmem => by
      rw [(mem_nativeIndexes.mp hmem).2] at hpad
      cases hpad
    rw [listed, List.filterMap_cons_some hslice, List.filterMap_cons]
    simp only [List.idxOf?_eq_none_iff.mpr hnot, listed]

theorem listed_cons (files : List ℕ) (h : 0 < info.overlap start stop i)
    (hk : info.nativeIndexes[k]? = some i) :
    info.listed start stop (i :: files) = k :: info.listed start stop files := by
  obtain ⟨offset, size, hslice⟩ := slice_eq_some h
  rw [listed, List.filterMap_cons_some hslice, List.filterMap_cons]
  simp only [idxOf_nativeIndexes hk, listed]

theorem listed_eq_nil {files : List ℕ}
    (h : ∀ i ∈ files, info.isPad i = false → info.overlap start stop i = 0) :
    info.listed start stop files = [] := by
  induction files with
  | nil => rfl
  | cons i files ih =>
    obtain ⟨hi, hfiles⟩ := List.forall_mem_cons.mp h
    cases hpad : info.isPad i with
    | true => rw [listed_cons_of_pad files hpad, ih hfiles]
    | false => rw [listed_cons_of_none files (hi hpad), ih hfiles]

theorem fileOffset_eq (h : info.nativeIndexes[k]? = some i) :
    info.fileOffset k = info.nativeOffset i := by
  rw [fileOffset, h]
  rfl

theorem fileSize_eq (h : info.nativeIndexes[k]? = some i) :
    info.fileSize k = info.nativeSize i := by
  rw [fileSize, h]
  rfl

/-! ### Pieces -/

/-- The loop over the files of a piece adds to each file what it shares with the piece, as long as
no padding is in front. -/
theorem addPiece_listed (start stop : ℕ)
    (hpadding : ∀ i j, i < j → info.isPad i = true → 0 < info.overlap start stop i →
      info.isPad j = false → info.overlap start stop j = 0) (m i place : ℕ)
    (hm : i + m = info.files.length) (hplace : place = max start (info.nativeOffset i))
    (filesProgress : List ℤ) (hk : info.nativeIndexes[k]? = some n) :
    (addPiece info (info.listed start stop (List.range' i m)) (stop - place) place
        filesProgress)[k]? =
      filesProgress[k]?.map (· + if i ≤ n then (info.overlap start stop n : ℤ) else 0) := by
  have hn := (mem_nativeIndexes.mp (List.mem_of_getElem? hk))
  induction m generalizing i place filesProgress with
  | zero =>
    rw [if_neg (by omega)]
    simp [listed, addPiece]
  | succ m ih =>
    have hdone : (∀ j, i ≤ j → info.isPad j = false → info.overlap start stop j = 0) →
        (addPiece info (info.listed start stop (List.range' i (m + 1))) (stop - place) place
          filesProgress)[k]? =
        filesProgress[k]?.map (· + if i ≤ n then (info.overlap start stop n : ℤ) else 0) := by
      intro h
      rw [listed_eq_nil fun j hj => h j (List.mem_range'_1.mp hj).1, addPiece]
      split_ifs with hle
      · rw [h n hle hn.2]
        simp
      · simp
    by_cases hpast : stop ≤ place
    · exact hdone fun j hj _ => overlap_eq_zero_of_le (hplace ▸ hpast) hj
    have hsucc := info.nativeOffset_succ i
    by_cases hzero : info.overlap start stop i = 0
    · -- Nothing of the file is there, and the place stays the same.
      have hnext : place = max start (info.nativeOffset (i + 1)) := by
        unfold overlap at hzero
        omega
      rw [List.range'_succ, listed_cons_of_none _ hzero,
        ih (i + 1) place (by omega) hnext filesProgress]
      rcases Nat.lt_trichotomy i n with h | rfl | h
      · rw [if_pos (Nat.succ_le_of_lt h), if_pos h.le]
      · rw [if_neg (by omega), if_pos (Nat.le_refl _), hzero]
        rfl
      · rw [if_neg (by omega), if_neg (by omega)]
    have hpos := Nat.pos_of_ne_zero hzero
    cases hpad : info.isPad i with
    | true =>
      refine hdone fun j hj hjpad => ?_
      have hne : i ≠ j := fun h => by
        rw [h, hjpad] at hpad
        cases hpad
      exact hpadding i j (by omega) hpad hpos hjpad
    | false =>
      obtain ⟨k', hk'⟩ := List.mem_iff_getElem?.mp (mem_nativeIndexes.mpr ⟨by omega, hpad⟩)
      -- What is added, and where the next file starts.
      have hadd : min ((info.nativeSize i : ℤ) - (place - (info.nativeOffset i : ℤ)))
          (stop - place) = info.overlap start stop i := by
        unfold overlap at hpos ⊢
        omega
      have hnext : place + info.overlap start stop i < stop →
          place + info.overlap start stop i = max start (info.nativeOffset (i + 1)) := by
        unfold overlap at hpos ⊢
        omega
      have hlast : stop ≤ place + info.overlap start stop i →
          stop ≤ max start (info.nativeOffset (i + 1)) := by
        unfold overlap at hpos ⊢
        omega
      suffices hsuffices : (addPiece info (info.listed start stop (List.range' i (m + 1)))
          (stop - place) place filesProgress)[k]? =
          (filesProgress.modify k' (· + (info.overlap start stop i : ℤ)))[k]?.map
            (· + if i + 1 ≤ n then (info.overlap start stop n : ℤ) else 0) by
        rw [hsuffices, List.getElem?_modify]
        by_cases hkk : k' = k
        · subst hkk
          obtain rfl : i = n := Option.some.inj (hk'.symm.trans hk)
          rw [if_neg (by omega), if_pos (Nat.le_refl _)]
          cases filesProgress[k']? <;> simp
        · have hne : i ≠ n := fun h =>
            hkk (Option.some.inj
              ((idxOf_nativeIndexes hk').symm.trans (h ▸ idxOf_nativeIndexes hk)))
          have hiff : i + 1 ≤ n ↔ i ≤ n := by omega
          cases filesProgress[k]? <;> simp [hkk, hiff]
      rw [List.range'_succ, listed_cons _ hpos hk', addPiece, fileOffset_eq hk', fileSize_eq hk']
      simp only [hadd]
      by_cases hend : (stop : ℤ) - place - info.overlap start stop i ≤ 0
      · have hzero' : (if i + 1 ≤ n then (info.overlap start stop n : ℤ) else 0) = 0 := by
          split_ifs with hle
          · rw [overlap_eq_zero_of_le (hlast (by omega)) hle]
            rfl
          · rfl
        rw [if_pos hend, hzero']
        simp
      · rw [if_neg hend, ← ih (i + 1) (place + info.overlap start stop i) (by omega)
          (hnext (by omega)) (filesProgress.modify k' (· + (info.overlap start stop i : ℤ))),
          Nat.cast_add, sub_sub]

/-- The end of the last piece leaves out nothing. -/
theorem overlap_pieceSize (piece i : ℕ) :
    info.overlap (piece * info.pieceLength) (piece * info.pieceLength + info.pieceSize piece) i =
      info.nativeShared i piece := by
  have hle : info.nativeOffset i + info.nativeSize i ≤ info.totalSize := by
    rw [← nativeOffset_succ]
    rcases Nat.lt_or_ge i info.files.length with h | h
    · exact nativeOffset_mono h
    · unfold totalSize nativeOffset
      rw [List.take_of_length_le h.step, List.take_length]
  unfold nativeShared overlap pieceSize
  rw [Nat.add_mul, Nat.one_mul]
  omega

theorem nativeShared_eq_zero (h : info.piecesCount ≤ piece) (i : ℕ) :
    info.nativeShared i piece = 0 := by
  have hlt := Nat.lt_succ_of_le h
  rw [piecesCount, Nat.succ_eq_add_one, Nat.div_lt_iff_lt_mul info.pieceLength_pos] at hlt
  have hsize : info.pieceSize piece = 0 := by
    rw [Nat.add_mul, Nat.one_mul] at hlt
    unfold pieceSize
    omega
  rw [← overlap_pieceSize, hsize]
  unfold overlap
  omega

theorem addPiece_sharedBytes (hlast : info.PaddingLast piece) (filesProgress : List ℤ)
    (hk : info.nativeIndexes[k]? = some n) :
    (addPiece info (info.fileIndicesForPiece piece) (info.pieceSize piece)
        (piece * info.pieceLength : ℕ) filesProgress)[k]? =
      filesProgress[k]?.map (· + (info.sharedBytes k piece : ℤ)) := by
  have hshared : info.sharedBytes k piece = info.nativeShared n piece := by
    rw [sharedBytes, hk]
    rfl
  unfold fileIndicesForPiece
  split_ifs with hpast
  · rw [hshared, nativeShared_eq_zero hpast, addPiece]
    simp
  · have h := addPiece_listed (piece * info.pieceLength)
      (piece * info.pieceLength + info.pieceSize piece)
      (fun i j hij hi hpos hj => by
        rw [overlap_pieceSize] at hpos ⊢
        exact hlast i j hij hi hpos hj) info.files.length 0 (piece * info.pieceLength)
      (Nat.zero_add _) (by unfold nativeOffset; simp) filesProgress hk
    rw [if_pos (Nat.zero_le _), overlap_pieceSize, Nat.cast_add, add_sub_cancel_left] at h
    rw [hshared, ← h, listed, mapBlock, List.range_eq_range']

end TorrentInfo

/-! ### Updates -/

theorem testBit_eq_false (h : bits.length ≤ i) : bits.testBit i = false := by
  rw [Bits.testBit, List.getD_eq_getElem?_getD, List.getElem?_eq_none h]
  rfl

theorem testBit_xor (a b : Bits) (i : ℕ) :
    (a.xor b).testBit i = (a.testBit i ^^ b.testBit i) := by
  rcases Nat.lt_or_ge i (max a.length b.length) with h | h
  · rw [Bits.testBit, Bits.xor, List.getD_eq_getElem?_getD, List.getElem?_map,
      List.getElem?_range h]
    rfl
  · rw [testBit_eq_false (by rwa [Bits.xor, List.length_map, List.length_range]),
      testBit_eq_false (le_of_max_le_left h), testBit_eq_false (le_of_max_le_right h)]
    rfl

variable (info) in
/-- The bytes of a file in the pieces of a torrent. -/
def heldBytes (bits : Bits) (k : ℕ) : ℕ :=
  ∑ p ∈ range bits.length, if bits.testBit p then info.sharedBytes k p else 0

theorem heldBytes_eq (h : bits.length ≤ n) (k : ℕ) :
    heldBytes info bits k = ∑ p ∈ range n, if bits.testBit p then info.sharedBytes k p else 0 := by
  refine sum_subset (range_subset_range.mpr h) fun p _ hp => ?_
  rw [testBit_eq_false (by simpa using hp)]
  rfl

theorem addPieces_eq {newPieces : Bits}
    (hlast : ∀ p, newPieces.testBit p = true → info.PaddingLast p) (filesProgress : List ℤ)
    (hk : info.nativeIndexes[k]? = some n) :
    (addPieces info newPieces filesProgress)[k]? =
      filesProgress[k]?.map (· + (heldBytes info newPieces k : ℤ)) := by
  unfold addPieces heldBytes
  induction newPieces.length with
  | zero => simp
  | succ length ih =>
    rw [List.range_succ, List.foldl_append, List.foldl_cons, List.foldl_nil, sum_range_succ]
    split_ifs with hbit
    · rw [TorrentInfo.addPiece_sharedBytes (hlast _ hbit) _ hk, ih, Option.map_map]
      congr 1
      funext progress
      simp only [Function.comp_apply, Nat.cast_add, add_assoc]
    · rw [ih, Nat.add_zero]

variable (info) in
/-- No piece with bytes of a listed file is lost since the last update of the progress, and no new
piece has padding in front of such bytes. -/
def Regular (t : TorrentImpl) (pieces : Bits) : Prop :=
  numPieces pieces ≠ numPieces t.nativePieces → ∀ p,
    (pieces.testBit p = true → t.m_pieces.testBit p = false → info.PaddingLast p) ∧
      (pieces.testBit p = false → t.m_pieces.testBit p = true → info.OnlyPadding p)

variable (info) in
/-- The progress is that of the pieces of the last update. -/
def Counted (t : TorrentImpl) : Prop :=
  ∀ k, k < info.filesCount → t.m_filesProgress[k]? = some (heldBytes info t.m_pieces k : ℤ)

theorem TorrentInfo.OnlyPadding.sharedBytes (h : info.OnlyPadding piece) (k : ℕ) :
    info.sharedBytes k piece = 0 := by
  unfold TorrentInfo.sharedBytes
  cases hk : info.nativeIndexes[k]? with
  | none => rfl
  | some i => exact h i (TorrentInfo.mem_nativeIndexes.mp (List.mem_of_getElem? hk)).2

/-- What differs, and what there was. -/
theorem heldBytes_xor {old : Bits}
    (hlost : ∀ p, pieces.testBit p = false → old.testBit p = true → info.OnlyPadding p) (k : ℕ) :
    heldBytes info old k + heldBytes info (pieces.xor old) k = heldBytes info pieces k := by
  have hlength : (pieces.xor old).length = max pieces.length old.length := by
    rw [Bits.xor, List.length_map, List.length_range]
  rw [heldBytes_eq (le_max_right pieces.length old.length), heldBytes, hlength,
    heldBytes_eq (le_max_left pieces.length old.length), ← sum_add_distrib]
  refine sum_congr rfl fun p _ => ?_
  rw [testBit_xor]
  cases hnew : pieces.testBit p <;> cases hold : old.testBit p
  · rfl
  · rw [(hlost p hnew hold).sharedBytes k]
    rfl
  · simp
  · rfl

theorem Counted.updateStatus {t : TorrentImpl} (h : Counted info t)
    (hregular : Regular info t pieces) : Counted info (updateStatus info t pieces) := by
  unfold Progress.updateStatus
  split_ifs with hnum
  · intro k hk
    have hprogress := h k hk
    have hempty : t.m_filesProgress.isEmpty = false := by
      cases hfiles : t.m_filesProgress with
      | nil =>
        rw [hfiles] at hprogress
        cases hprogress
      | cons _ _ => rfl
    have hlost := fun p => (hregular hnum p).2
    have hlast : ∀ p, (pieces.xor t.m_pieces).testBit p = true → info.PaddingLast p := by
      intro p hp
      rw [testBit_xor] at hp
      cases hnew : pieces.testBit p <;> cases hold : t.m_pieces.testBit p <;>
        rw [hnew, hold] at hp
      · cases hp
      · exact fun i j _ _ _ hj => hlost p hnew hold j hj
      · exact (hregular hnum p).1 hnew hold
      · cases hp
    unfold updateProgress
    dsimp only
    rw [hempty, if_neg Bool.false_ne_true, addPieces_eq hlast _ (List.getElem?_eq_getElem hk),
      hprogress, Option.map_some, ← heldBytes_xor hlost k, Nat.cast_add]
  · exact h

theorem sum_nativeShared (i n : ℕ) :
    ∑ p ∈ range n, info.nativeShared i p =
      min (n * info.pieceLength) (info.nativeOffset i + info.nativeSize i) -
        info.nativeOffset i := by
  induction n with
  | zero => simp
  | succ n ih =>
    rw [sum_range_succ, ih, TorrentInfo.nativeShared, TorrentInfo.overlap, Nat.add_mul, Nat.one_mul]
    omega

theorem heldBytes_le (bits : Bits) (hk : k < info.filesCount) :
    (heldBytes info bits k : ℤ) ≤ info.fileSize k := by
  obtain ⟨i, hi⟩ : ∃ i, info.nativeIndexes[k]? = some i := ⟨_, List.getElem?_eq_getElem hk⟩
  rw [TorrentInfo.fileSize_eq hi, Nat.cast_le]
  calc heldBytes info bits k
      ≤ ∑ p ∈ range bits.length, info.nativeShared i p := by
        refine sum_le_sum fun p _ => ?_
        rw [TorrentInfo.sharedBytes, hi]
        split_ifs
        · exact le_rfl
        · exact Nat.zero_le _
    _ ≤ info.nativeSize i := by
        rw [sum_nativeShared]
        omega

/-- There is no padding in front if there is none. -/
theorem paddingLast_of_no_pad (h : ∀ file ∈ info.files, file.pad = false) (piece : ℕ) :
    info.PaddingLast piece := by
  intro i j _ hpad hpos _
  have hsize : info.nativeSize i = 0 := by
    unfold TorrentInfo.isPad at hpad
    unfold TorrentInfo.nativeSize
    cases hi : info.files[i]? with
    | none => rfl
    | some file =>
      rw [hi, Option.map_some, h file (List.mem_of_getElem? hi)] at hpad
      cases hpad
  unfold TorrentInfo.nativeShared TorrentInfo.overlap at hpos
  omega

variable (info) in
/-- After an update in whose run every update is regular, the progress of each file is the number of
bytes that it shares with the pieces, and no more than there is of it. -/
theorem progress_eq_sum {t : TorrentImpl} {pieces : Bits}
    (h : (system info).Reachable (Regular info) t) (hregular : Regular info t pieces)
    (hnum : numPieces pieces ≠ numPieces t.nativePieces) {k : ℕ} (hk : k < info.filesCount) :
    (updateStatus info t pieces).m_filesProgress[k]? =
        some (∑ p ∈ range pieces.length, if pieces.testBit p then info.sharedBytes k p else 0 : ℕ) ∧
      ((∑ p ∈ range pieces.length, if pieces.testBit p then info.sharedBytes k p else 0 : ℕ) : ℤ) ≤
        info.fileSize k := by
  have hcounted : Counted info t := by
    refine h.invariant (fun t ht => ?_) fun t pieces t' hcounted hregular hstep => ?_
    · obtain rfl := ht
      intro k hk
      rw [List.getElem?_replicate, if_pos hk]
      rfl
    · cases hstep
      exact hcounted.updateStatus hregular
  have hprogress := hcounted.updateStatus hregular k hk
  have hpieces : (updateStatus info t pieces).m_pieces = pieces := by
    rw [updateStatus, if_pos hnum]
    rfl
  rw [hpieces] at hprogress
  exact ⟨hprogress, heldBytes_le pieces hk⟩

def threeBytes : TorrentInfo := ⟨[⟨3, false⟩], 2, Nat.two_pos⟩

theorem progress_eq_sum_last_piece :
    (updateStatus threeBytes ⟨[], [], [0]⟩ [false, true]).m_filesProgress[0]? = some 1 :=
  (progress_eq_sum threeBytes (.start rfl)
    (fun _ p => ⟨fun _ _ => paddingLast_of_no_pad (by simp [threeBytes]) p,
      fun _ hold => absurd hold (by rw [testBit_eq_false (Nat.zero_le _)]; decide)⟩)
    (by decide) (by decide)).1

theorem lost_piece_added :
    ¬ ∀ (info : TorrentInfo) (t : TorrentImpl) (pieces : Bits),
      (system info).Reachable (fun _ _ => True) t → numPieces pieces ≠ numPieces t.nativePieces →
      ∀ k, k < info.filesCount → (updateStatus info t pieces).m_filesProgress[k]? =
        some (∑ p ∈ range pieces.length,
          if pieces.testBit p then info.sharedBytes k p else 0 : ℕ) := by
  intro h
  have hrun : (system threeBytes).Reachable (fun _ _ => True)
      (updateStatus threeBytes ⟨[], [], [0]⟩ [true, true]) :=
    .next (.start rfl) trivial rfl
  have hprogress := h threeBytes _ [true, false] hrun (by decide) 0 (by decide)
  revert hprogress
  decide

end Qbutt.Progress
