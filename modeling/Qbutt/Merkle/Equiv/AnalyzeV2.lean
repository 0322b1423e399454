import Qbutt.Merkle.Equiv.Accumulator

/-!
# Verification by pieces agrees with verification by the whole file

Everything is read as a perfect tree over the block hashes padded with the zero hash
(`padded blocks zero`):

* a piece hash is the root of one of its subtrees of height `k`, for `2^k` blocks per piece
  (`pieceHash_eq`);
* the layer root over the piece hashes and the file root over the blocks are both its root
  (`layerRoot_pieceHashes`, by `perfect_add`).

The scan itself is brought to these terms by `hashBlocks_eq` (one check) and
`mem_verified_scanPieces` (the check loop).
-/

namespace Qbutt.Merkle

open MerkleAccumulator List

variable {D : Type*} (h : D → D → D) (sha : List UInt8 → D) (zero : D)

/-! ### Block hashes of a file's content -/

/-- The hashes of the 16 KiB blocks of `data`, the last of which may be short. -/
def blockHashes (data : List UInt8) : List D :=
  if data = [] then [] else sha (data.take blockSize) :: blockHashes (data.drop blockSize)
  termination_by data.length
  decreasing_by
    rename_i hne
    have hlen : 0 < data.length := length_pos_iff.mpr hne
    have := blockSize_pos
    simp only [length_drop]
    omega

@[simp] theorem blockHashes_nil : blockHashes sha [] = [] := by
  rw [blockHashes, if_pos rfl]

variable {data : List UInt8}

theorem blockHashes_of_ne_nil (hne : data ≠ []) :
    blockHashes sha data = sha (data.take blockSize) :: blockHashes sha (data.drop blockSize) := by
  rw [blockHashes, if_neg hne]

theorem blockHashes_drop (k : ℕ) : ∀ data : List UInt8,
    blockHashes sha (data.drop (k * blockSize)) = (blockHashes sha data).drop k := by
  induction k with
  | zero => intro data; simp
  | succ k ih =>
    intro data
    by_cases hne : data = []
    · simp [hne]
    · rw [blockHashes_of_ne_nil sha hne, drop_succ_cons, ← ih, drop_drop]
      congr 2
      ring

theorem blockHashes_take (k : ℕ) : ∀ data : List UInt8,
    blockHashes sha (data.take (k * blockSize)) = (blockHashes sha data).take k := by
  induction k with
  | zero => intro data; simp
  | succ k ih =>
    intro data
    by_cases hne : data = []
    · simp [hne]
    · have hpos : 0 < (k + 1) * blockSize := Nat.mul_pos k.succ_pos blockSize_pos
      have hne' : data.take ((k + 1) * blockSize) ≠ [] := by
        simp only [ne_eq, take_eq_nil_iff, not_or]
        exact ⟨by omega, hne⟩
      have hle : blockSize ≤ (k + 1) * blockSize := Nat.le_mul_of_pos_left _ k.succ_pos
      rw [blockHashes_of_ne_nil sha hne, blockHashes_of_ne_nil sha hne', take_succ_cons,
        ← ih, take_take, Nat.min_eq_left hle, drop_take]
      congr 3
      rw [Nat.succ_mul, Nat.add_sub_cancel]

theorem length_blockHashes_le_iff (k : ℕ) : ∀ data : List UInt8,
    (blockHashes sha data).length ≤ k ↔ data.length ≤ k * blockSize := by
  induction k with
  | zero =>
    intro data
    by_cases hne : data = []
    · simp [hne]
    · rw [blockHashes_of_ne_nil sha hne]
      simp [hne]
  | succ k ih =>
    intro data
    by_cases hne : data = []
    · simp [hne]
    · rw [blockHashes_of_ne_nil sha hne, length_cons, Nat.add_le_add_iff_right, ih,
        length_drop, Nat.succ_mul]
      omega

/-- One check reads exactly `n` bytes and appends their block hashes, or comes back short. -/
theorem hashBlocks_eq (n : ℕ) (input : List UInt8) (m : MerkleAccumulator D) :
    hashBlocks h sha n input m =
      if n ≤ input.length then
        some ((blockHashes sha (input.take n)).foldl (append h) m, input.drop n)
      else none := by
  induction n using Nat.strong_induction_on generalizing input m with
  | _ n ih =>
  have hB := blockSize_pos
  rw [hashBlocks]
  by_cases hn : 0 < n
  · rw [if_pos hn]
    simp only []
    by_cases hshort : input.length < min n blockSize
    · rw [if_pos hshort, if_neg (by omega)]
    · rw [if_neg hshort, ih _ (by omega), length_drop]
      by_cases hle : n ≤ input.length
      · have hne : input.take n ≠ [] := by
          simp only [ne_eq, take_eq_nil_iff, not_or]
          refine ⟨by omega, ?_⟩
          rintro rfl
          simp at hle
          omega
        rw [if_pos (by omega), if_pos hle, blockHashes_of_ne_nil sha hne, foldl_cons,
          take_take, drop_drop, Nat.min_comm blockSize n]
        congr 3
        · rw [drop_take]
          by_cases hsmall : n ≤ blockSize
          · rw [Nat.min_eq_left hsmall, Nat.sub_self, Nat.sub_eq_zero_of_le hsmall]
            simp
          · rw [Nat.min_eq_right (by omega)]
        · omega
      · rw [if_neg (by omega), if_neg hle]
  · obtain rfl : n = 0 := by omega
    simp

/-! ### Pieces -/

/-- The hash of piece `p`: the root over its block hashes, padded with zero hashes to a whole
piece. -/
def pieceHash (blocksPerPiece : ℕ) (blocks : List D) (p : ℕ) : D :=
  (accumulate h zero ((blocks.drop (p * blocksPerPiece)).take blocksPerPiece)).root h
    blocksPerPiece zero

def pieceHashes (blocksPerPiece : ℕ) (blocks : List D) : List D :=
  (List.range ((blocks.length + blocksPerPiece - 1) / blocksPerPiece)).map
    (pieceHash h zero blocksPerPiece blocks)

theorem pieceHash_eq (k : ℕ) (blocks : List D) (p : ℕ) : pieceHash h zero (2 ^ k) blocks p =
    perfect h k fun i => padded blocks zero (p * 2 ^ k + i) := by
  have hlen : max ((blocks.drop (p * 2 ^ k)).take (2 ^ k)).length (2 ^ k) = 2 ^ k :=
    Nat.max_eq_right (length_take_le ..)
  rw [pieceHash, root_accumulate, hlen, Nat.clog_pow 2 k (by norm_num)]
  refine perfect_congr h k _ _ fun i hi => ?_
  simp only [padded, getD_eq_getElem?_getD, List.getElem?_take, hi, if_true, List.getElem?_drop]

theorem zeroPiece_eq (k : ℕ) :
    (empty zero).root h (2 ^ k) zero = perfect h k fun _ => zero := by
  rw [root_of_holds h (holds_empty h zero), length_nil, Nat.zero_max,
    Nat.clog_pow 2 k (by norm_num)]
  rfl

theorem layerRoot_eq (k : ℕ) (layer : List D) : layerRoot h zero (2 ^ k) layer =
    perfect h (Nat.clog 2 (max layer.length 1)) (padded layer (perfect h k fun _ => zero)) := by
  rw [layerRoot, zeroPiece_eq, root_accumulate]

/-- A whole number of pieces covers the blocks in use: the height of the file's tree is the height
of the layer's tree above the height of a piece. -/
theorem clog_pieces {n k : ℕ} (hn : 2 ^ k < n) :
    Nat.clog 2 n = k + Nat.clog 2 ((n + 2 ^ k - 1) / 2 ^ k) := by
  have hpos : 0 < 2 ^ k := Nat.two_pow_pos k
  have hiff : ∀ x, (n + 2 ^ k - 1) / 2 ^ k ≤ 2 ^ x ↔ n ≤ 2 ^ (k + x) := by
    intro x
    rw [Nat.div_le_iff_le_mul_add_pred hpos, pow_add]
    omega
  refine le_antisymm ?_ ?_
  · rw [Nat.clog_le_iff_le_pow (by norm_num), ← hiff]
    exact Nat.le_pow_clog (by norm_num) _
  · have hk : k < Nat.clog 2 n := (Nat.lt_clog_iff_pow_lt (by norm_num)).mpr hn
    obtain ⟨x, hx⟩ : ∃ x, Nat.clog 2 n = k + x := ⟨Nat.clog 2 n - k, by omega⟩
    rw [hx, Nat.add_le_add_iff_left, Nat.clog_le_iff_le_pow (by norm_num), hiff, ← hx]
    exact Nat.le_pow_clog (by norm_num) _

theorem layerRoot_pieceHashes {k : ℕ} {blocks : List D} (hmany : 2 ^ k < blocks.length) :
    layerRoot h zero (2 ^ k) (pieceHashes h zero (2 ^ k) blocks) =
      (accumulate h zero blocks).root h 1 zero := by
  have hpos : 0 < 2 ^ k := Nat.two_pow_pos k
  have hlen : (pieceHashes h zero (2 ^ k) blocks).length =
      (blocks.length + 2 ^ k - 1) / 2 ^ k := by
    simp [pieceHashes]
  have hpieces : 1 ≤ (blocks.length + 2 ^ k - 1) / 2 ^ k := by
    rw [Nat.le_div_iff_mul_le hpos]
    omega
  rw [layerRoot_eq, root_accumulate, hlen, Nat.max_eq_left hpieces,
    Nat.max_eq_left (show 1 ≤ blocks.length by omega), clog_pieces hmany, perfect_add]
  refine perfect_congr h _ _ _ fun p _ => ?_
  by_cases hp : p < (blocks.length + 2 ^ k - 1) / 2 ^ k
  · rw [padded_of_lt (by omega)]
    simp only [pieceHashes, getElem_map, getElem_range]
    exact pieceHash_eq h zero k blocks p
  · rw [padded_of_le (by omega)]
    refine perfect_congr h k _ _ fun i _ => (padded_of_le ?_).symm
    have hle : blocks.length ≤ p * 2 ^ k := by
      rw [not_lt, Nat.div_le_iff_le_mul_add_pred hpos] at hp
      rw [Nat.mul_comm]
      omega
    omega

theorem pieceHash_blockHashes (blocksPerPiece : ℕ) (data : List UInt8) (p : ℕ) :
    pieceHash h zero blocksPerPiece (blockHashes sha data) p =
      (accumulate h zero (blockHashes sha ((data.drop (p * pieceLength blocksPerPiece)).take
        (pieceLength blocksPerPiece)))).root h blocksPerPiece zero := by
  rw [pieceHash, pieceLength, blockHashes_take, ← Nat.mul_assoc, blockHashes_drop]

/-! ### The scan -/

/-- What the scan can read of a file: all of its bytes, cut at the expected size. -/
def V2File.Readable (f : V2File D) (data : List UInt8) : Prop :=
  f.pad = false ∧ f.opened = true ∧
    ∃ content, f.content = some content ∧ f.expectedSize ≤ content.length ∧
      data = content.take f.expectedSize

variable {blocksPerPiece : ℕ} {f : V2File D}

theorem lt_numPieces_iff {p : ℕ} (hpos : 0 < blocksPerPiece) :
    p < f.numPieces blocksPerPiece ↔ p * pieceLength blocksPerPiece < f.expectedSize := by
  have hP : 0 < pieceLength blocksPerPiece := Nat.mul_pos hpos blockSize_pos
  rw [V2File.numPieces, ← Nat.succ_le_iff, Nat.le_div_iff_mul_le hP, Nat.succ_mul]
  omega

theorem wholeFile_eq_false (blocksPerPiece : ℕ) (hne : f.pieceLayer ≠ []) :
    f.wholeFile blocksPerPiece = false := by
  simp [V2File.wholeFile, hne]

section Scan

variable [DecidableEq D]

/-- The check loop in piece-layer mode, started at piece `a` where `input` is what follows the
pieces before it: exactly the readable pieces that match their layer hash get their bit. -/
theorem mem_verified_scanPieces (hpos : 0 < blocksPerPiece)
    (hw : f.wholeFile blocksPerPiece = false) (hmany : 1 < f.numPieces blocksPerPiece)
    (content : List UInt8) (p : ℕ) :
    ∀ (left a : ℕ) (input : List UInt8) (s : FileScan), a + left = f.numPieces blocksPerPiece →
      (0 < left → input = content.drop (a * pieceLength blocksPerPiece)) →
      (f.firstPiece + p ∈ (scanPieces h sha zero blocksPerPiece f left a input s).verified ↔
        f.firstPiece + p ∈ s.verified ∨ a ≤ p ∧ p < f.numPieces blocksPerPiece ∧
          min ((p + 1) * pieceLength blocksPerPiece) f.expectedSize ≤ content.length ∧
          pieceHash h zero blocksPerPiece (blockHashes sha (content.take f.expectedSize)) p =
            f.pieceLayer.getD p zero) := by
  intro left
  induction left with
  | zero =>
    intro a input s ha _
    rw [scanPieces]
    exact ⟨Or.inl, fun hor => hor.resolve_right fun hp => by omega⟩
  | succ left ih =>
    intro a input s ha hinput
    obtain rfl := hinput left.succ_pos
    set P := pieceLength blocksPerPiece with hP
    have hPpos : 0 < P := Nat.mul_pos hpos blockSize_pos
    have hlt : a * P < f.expectedSize := (lt_numPieces_iff hpos).mp (by omega)
    have hend : min ((a + 1) * P) f.expectedSize = a * P + min P (f.expectedSize - a * P) := by
      rw [Nat.succ_mul]
      omega
    rw [scanPieces]
    simp only [hw, Bool.false_eq_true, if_false, hashBlocks_eq, length_drop, ← hP]
    by_cases hread : min P (f.expectedSize - a * P) ≤ content.length - a * P
    · rw [if_pos hread]
      -- The bytes read are piece `a` of the content cut at the expected size.
      have hbytes : (content.drop (a * P)).take (min P (f.expectedSize - a * P)) =
          ((content.take f.expectedSize).drop (a * P)).take P := by
        rw [drop_take, take_take]
      have hhash := pieceHash_blockHashes h sha zero blocksPerPiece
        (content.take f.expectedSize) a
      rw [← hP, ← hbytes] at hhash
      have hone : decide (f.numPieces blocksPerPiece = 1) = false := by simp; omega
      simp only [hone, Bool.or_false, Bool.false_eq_true, if_false]
      rw [ih (a + 1) _ _ (by omega) ?_]
      · have hroot : ((blockHashes sha ((content.drop (a * P)).take
              (min P (f.expectedSize - a * P)))).foldl (append h) (empty zero)).root h
              blocksPerPiece zero =
            pieceHash h zero blocksPerPiece (blockHashes sha (content.take f.expectedSize)) a :=
          hhash.symm
        rw [hroot]
        by_cases hpa : p = a
        · subst hpa
          by_cases hmatch : pieceHash h zero blocksPerPiece
              (blockHashes sha (content.take f.expectedSize)) p = f.pieceLayer.getD p zero
          · rw [if_pos hmatch]
            simp only [FileScan.setBits_verified, mem_append, mem_map, mem_range,
              hmatch, hend, and_true]
            refine ⟨fun _ => Or.inr ⟨le_rfl, by omega, by omega⟩, fun _ => ?_⟩
            exact Or.inl (Or.inr ⟨0, by omega, rfl⟩)
          · rw [if_neg hmatch]
            simp only [FileScan.recordProblem_verified, hmatch, and_false, or_false]
        · have hmem : f.firstPiece + p ∈ (if pieceHash h zero blocksPerPiece
                (blockHashes sha (content.take f.expectedSize)) a = f.pieceLayer.getD a zero
              then s.setBits (f.firstPiece + a) 1 else s.recordProblem .pieceHash).verified ↔
              f.firstPiece + p ∈ s.verified := by
            split_ifs
            · simp only [FileScan.setBits_verified, mem_append, mem_map, mem_range]
              refine ⟨fun hor => hor.resolve_right ?_, Or.inl⟩
              rintro ⟨i, hi, heq⟩
              omega
            · rw [FileScan.recordProblem_verified]
          rw [hmem, show a + 1 ≤ p ↔ a ≤ p by omega]
      · intro hleft
        have hnext : (a + 1) * P < f.expectedSize := (lt_numPieces_iff hpos).mp (by omega)
        rw [Nat.succ_mul] at hnext ⊢
        rw [drop_drop, Nat.min_eq_left (by omega)]
    · rw [if_neg hread]
      simp only [FileScan.recordProblem_verified]
      refine ⟨Or.inl, fun hor => hor.resolve_right ?_⟩
      rintro ⟨hap, hp, hlen, _⟩
      have hmono : (a + 1) * P ≤ (p + 1) * P := Nat.mul_le_mul_right P (by omega)
      omega

/-- A scan that finds nothing to read sets no bit. -/
theorem not_accepts_of_verified_nil (hmany : 1 < f.numPieces blocksPerPiece)
    (hnil : (analyzeV2 h sha zero blocksPerPiece f).verified = []) :
    ¬ Accepts h sha zero blocksPerPiece f := by
  intro hacc
  have := hacc 0 (by omega)
  simp [hnil] at this

/-- Piece-layer mode accepts a file exactly when its bytes are there, the layer is authentic, and
the layer consists of the true piece hashes. -/
theorem accepts_layer_iff (hpos : 0 < blocksPerPiece) (hmany : 1 < f.numPieces blocksPerPiece)
    (hne : f.pieceLayer ≠ []) :
    Accepts h sha zero blocksPerPiece f ↔ ∃ data, f.Readable data ∧
      f.pieceLayer.length = f.numPieces blocksPerPiece ∧
      layerRoot h zero blocksPerPiece f.pieceLayer = f.root ∧
      ∀ p < f.numPieces blocksPerPiece,
        pieceHash h zero blocksPerPiece (blockHashes sha data) p = f.pieceLayer.getD p zero := by
  have hw := wholeFile_eq_false blocksPerPiece hne
  have hsize : f.expectedSize ≠ 0 := by
    have := (lt_numPieces_iff hpos).mp hmany
    omega
  have hlast : f.expectedSize ≤ f.numPieces blocksPerPiece * pieceLength blocksPerPiece := by
    have := (lt_numPieces_iff (f := f) (p := f.numPieces blocksPerPiece) hpos).not.mp (lt_irrefl _)
    omega
  rcases hcontent : f.content with _ | content
  · refine iff_of_false (not_accepts_of_verified_nil h sha zero hmany ?_) ?_
    · simp [analyzeV2, hcontent]
    · rintro ⟨data, ⟨-, -, c, hc, -⟩, -⟩
      simp [hcontent] at hc
  · by_cases hpad : f.pad = true
    · refine iff_of_false (not_accepts_of_verified_nil h sha zero hmany ?_) ?_
      · simp [analyzeV2, hcontent, hpad]
      · rintro ⟨data, ⟨hp, -⟩, -⟩
        simp [hpad] at hp
    · by_cases hready : f.pieceLayer.length = f.numPieces blocksPerPiece ∧
          layerRoot h zero blocksPerPiece f.pieceLayer = f.root ∧ f.opened = true
      · obtain ⟨hlen, hroot, hopen⟩ := hready
        have hscan : analyzeV2 h sha zero blocksPerPiece f =
            scanPieces h sha zero blocksPerPiece f (f.numPieces blocksPerPiece) 0 content
              ⟨[], [], false⟩ := by
          simp [analyzeV2, hcontent, hpad, hsize, hw, hlen, hroot, hopen]
        have hmem := fun p => mem_verified_scanPieces h sha zero hpos hw hmany content
          p (f.numPieces blocksPerPiece) 0 content ⟨[], [], false⟩ (by omega) (by simp)
        simp only [Accepts, hscan, hmem, not_mem_nil, false_or, Nat.zero_le, true_and]
        constructor
        · intro hall
          refine ⟨_, ⟨by simpa using hpad, hopen, content, hcontent, ?_, rfl⟩, hlen, hroot,
            fun p hp => (hall p hp).2.2⟩
          have hend := (hall (f.numPieces blocksPerPiece - 1) (by omega)).2.1
          rw [Nat.sub_add_cancel (by omega)] at hend
          omega
        · rintro ⟨data, ⟨-, -, c, hc, hle, rfl⟩, -, -, hall⟩ p hp
          obtain rfl : content = c := by simpa [hcontent] using hc
          exact ⟨hp, by omega, hall p hp⟩
      · refine iff_of_false (not_accepts_of_verified_nil h sha zero hmany ?_) ?_
        · simp only [analyzeV2, hcontent, hw, hmany, hpad, hsize]
          simp only [Bool.false_eq_true, decide_false, Bool.or_false, if_false, Bool.not_false,
            decide_true, Bool.and_self, Bool.true_and, decide_eq_true_eq]
          split_ifs with h1 h2 h3
          · simp
          · simp
          · simp
          · exact absurd ⟨not_not.mp h1, not_not.mp h2, by simpa using h3⟩ hready
        · rintro ⟨data, ⟨-, hopen, -⟩, hlen, hroot, -⟩
          exact hready ⟨hlen, hroot, hopen⟩

/-- Whole-file mode accepts a file exactly when its bytes are there and their root is the file
root. -/
theorem accepts_wholeFile_iff (hpos : 0 < blocksPerPiece) (hmany : 1 < f.numPieces blocksPerPiece)
    (hnil : f.pieceLayer = []) :
    Accepts h sha zero blocksPerPiece f ↔ ∃ data, f.Readable data ∧
      (accumulate h zero (blockHashes sha data)).root h 1 zero = f.root := by
  have hw : f.wholeFile blocksPerPiece = true := by simp [V2File.wholeFile, hnil, hmany]
  have hsize : f.expectedSize ≠ 0 := by
    have := (lt_numPieces_iff hpos).mp hmany
    omega
  rcases hcontent : f.content with _ | content
  · refine iff_of_false (not_accepts_of_verified_nil h sha zero hmany ?_) ?_
    · simp [analyzeV2, hcontent]
    · rintro ⟨data, ⟨-, -, c, hc, -⟩, -⟩
      simp [hcontent] at hc
  · by_cases hready : f.pad = false ∧ f.opened = true ∧ f.expectedSize ≤ content.length
    · obtain ⟨hpad, hopen, hle⟩ := hready
      set data := content.take f.expectedSize
      have hread : f.Readable data := ⟨hpad, hopen, content, hcontent, hle, rfl⟩
      have hscan : (analyzeV2 h sha zero blocksPerPiece f).verified =
          if (accumulate h zero (blockHashes sha data)).root h 1 zero = f.root then
            (List.range (f.numPieces blocksPerPiece)).map (f.firstPiece + ·) else [] := by
        simp only [analyzeV2, hcontent, hpad, hsize, hw, hopen, scanPieces, hashBlocks_eq, hle,
          if_true, Bool.or_false, decide_false, Bool.false_eq_true, if_false, Bool.not_true,
          Bool.false_and, Bool.true_or, Nat.add_zero]
        split_ifs with hroot hroot' hroot'
        · simp
        · exact absurd hroot hroot'
        · exact absurd hroot' hroot
        · simp
      constructor
      · intro hacc
        refine ⟨data, hread, ?_⟩
        by_contra hroot
        rw [if_neg hroot] at hscan
        exact not_accepts_of_verified_nil h sha zero hmany hscan hacc
      · rintro ⟨d, ⟨-, -, c, hc, -, rfl⟩, hroot⟩ p hp
        obtain rfl : content = c := by simpa [hcontent] using hc
        rw [hscan, if_pos hroot]
        exact mem_map_of_mem (mem_range.mpr hp)
    · refine iff_of_false (not_accepts_of_verified_nil h sha zero hmany ?_) ?_
      · simp only [analyzeV2, hcontent, hw, hsize, scanPieces, hashBlocks_eq, Bool.not_true,
          Bool.false_and, Bool.false_eq_true, if_false, if_true, decide_false, Bool.or_false]
        by_cases hpad : f.pad = true
        · simp [hpad]
        · by_cases hopen : f.opened = true
          · have hshort : ¬ f.expectedSize ≤ content.length := fun hle =>
              hready ⟨by simpa using hpad, hopen, hle⟩
            simp [hpad, hopen, hshort]
          · simp [hpad, hopen]
      · rintro ⟨d, ⟨hpad, hopen, c, hc, hle, -⟩, -⟩
        obtain rfl : content = c := by simpa [hcontent] using hc
        exact hready ⟨hpad, hopen, hle⟩

/-! ### Agreement of the two modes -/

omit [DecidableEq D] in
theorem numPieces_eq (hpos : 0 < blocksPerPiece) (hread : f.Readable data) :
    ((blockHashes sha data).length + blocksPerPiece - 1) / blocksPerPiece =
      f.numPieces blocksPerPiece := by
  obtain ⟨-, -, content, -, hle, rfl⟩ := hread
  refine eq_of_forall_ge_iff fun x => ?_
  have hP : 0 < pieceLength blocksPerPiece := Nat.mul_pos hpos blockSize_pos
  rw [Nat.div_le_iff_le_mul_add_pred hpos, V2File.numPieces, Nat.div_le_iff_le_mul_add_pred hP]
  have hlen := length_blockHashes_le_iff sha (blocksPerPiece * x) (content.take f.expectedSize)
  rw [length_take, Nat.min_eq_left hle, Nat.mul_right_comm] at hlen
  unfold pieceLength at hP ⊢
  omega

omit [DecidableEq D] in
theorem length_blockHashes_of_many (hpos : 0 < blocksPerPiece) (hread : f.Readable data)
    (hmany : 1 < f.numPieces blocksPerPiece) : blocksPerPiece < (blockHashes sha data).length := by
  rw [← numPieces_eq sha hpos hread, ← Nat.succ_le_iff, Nat.le_div_iff_mul_le hpos] at hmany
  omega

omit [DecidableEq D] in
theorem eq_pieceHashes_iff (hpos : 0 < blocksPerPiece) (hread : f.Readable data) {layer : List D}
    (hlen : layer.length = f.numPieces blocksPerPiece) :
    layer = pieceHashes h zero blocksPerPiece (blockHashes sha data) ↔
      ∀ p < f.numPieces blocksPerPiece,
        pieceHash h zero blocksPerPiece (blockHashes sha data) p = layer.getD p zero := by
  have hcount := numPieces_eq sha hpos hread
  constructor
  · intro heq p hp
    rw [heq, getD_eq_getElem _ _ (by simp [pieceHashes, hcount, hp])]
    simp [pieceHashes]
  · intro hall
    refine ext_getElem (by simp [pieceHashes, hcount, hlen]) fun p hp _ => ?_
    rw [← getD_eq_getElem _ zero hp, ← hall p (by omega)]
    simp [pieceHashes]

end Scan

end Qbutt.Merkle
