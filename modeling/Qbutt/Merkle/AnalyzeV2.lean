import Mathlib.Data.Nat.Bitwise
import Mathlib.Data.Nat.Log

/-!
# The streaming Merkle accumulator

`MerkleAccumulator` of `repairanalysis.cpp`: a BEP 52 tree reduction that keeps one pending hash
per level.  `h` stands for `merkleParent` (SHA-256 of the two concatenated node hashes) and `D`
for the 32-byte hashes; nothing below depends on what they are.

`m_leafCount` is a 64-bit counter and `m_levels` an array of 64 hashes in the source.  The model
counts in `ℕ` and indexes the levels by `ℕ`: the count is a number of 16 KiB blocks of a file
whose size is a signed 64-bit integer, and `carry_level_lt` in `Equiv/Accumulator.lean` shows
that below `2^64` leaves no level from 64 on is ever touched.
-/

namespace Qbutt.Merkle

variable {D : Type*}

/-- One pending hash per level, and the number of leaves appended so far. -/
structure MerkleAccumulator (D : Type*) where
  levels : ℕ → D
  leafCount : ℕ

namespace MerkleAccumulator

/-- A value-initialized accumulator: every level holds the all-zero hash. -/
def empty (zero : D) : MerkleAccumulator D := ⟨fun _ => zero, 0⟩

/-- The loop of `append`: while the lowest bit of `occupied` is set, the pending hash of the
level is merged in from the left and the level is left behind. -/
def carry (h : D → D → D) (levels : ℕ → D) (occupied level : ℕ) (hash : D) : ℕ × D :=
  if occupied % 2 = 1 then carry h levels (occupied / 2) (level + 1) (h (levels level) hash)
  else (level, hash)
  termination_by occupied
  decreasing_by omega

def append (h : D → D → D) (m : MerkleAccumulator D) (hash : D) : MerkleAccumulator D :=
  let c := carry h m.levels m.leafCount 0 hash
  ⟨Function.update m.levels c.1 c.2, m.leafCount + 1⟩

/-- `std::bit_ceil`: the least power of two that is not below `n`. -/
def bitCeil (n : ℕ) : ℕ := 2 ^ Nat.clog 2 n

/-- The loop of `root` over the levels below `height`: the running hash and the running padding
(the root of an all-padding subtree of the current height). -/
def rootLoop (h : D → D → D) (m : MerkleAccumulator D) (padding : D) : ℕ → D × D
  | 0 => (padding, padding)
  | level + 1 =>
    let s := rootLoop h m padding level
    (if m.leafCount.testBit level then h (m.levels level) s.1 else h s.1 s.2, h s.2 s.2)

/-- `MerkleAccumulator::root`.  `std::countr_zero` of a power of two is its binary logarithm. -/
def root (h : D → D → D) (m : MerkleAccumulator D) (minimumLeaves : ℕ) (padding : D) : D :=
  let leaves := bitCeil (max m.leafCount minimumLeaves)
  let height := Nat.log 2 leaves
  if m.leafCount = leaves then m.levels height else (rootLoop h m padding height).1

def rootReads (m : MerkleAccumulator D) (minimumLeaves : ℕ) : List ℕ :=
  let leaves := bitCeil (max m.leafCount minimumLeaves)
  let height := Nat.log 2 leaves
  if m.leafCount = leaves then [height]
  else (List.range height).filter fun level => m.leafCount.testBit level

def accumulate (h : D → D → D) (zero : D) (hashes : List D) : MerkleAccumulator D :=
  hashes.foldl (append h) (empty zero)

end MerkleAccumulator

end Qbutt.Merkle

/-!
## BEP 52 verification of one file

`analyzeV2` of `repairanalysis.cpp`, for one file of the torrent.  The file is verified by pieces
when the torrent carries its piece layer (the layer is first authenticated against the file root),
and as a whole when it does not.  A file of one piece has no layer; its piece hash is its root.

`sha` stands for `lt::hasher256` over one block and `h` for `merkleParent`.  The scan has no effect
beyond its report, so the model is a function of the file's content.  Cancellation is left out: a
cancelled scan ends with `result.error` set and its report is discarded.
-/

namespace Qbutt.Merkle

variable {D : Type*}

/-- `BlockSize`: 16 KiB. -/
def blockSize : ℕ := 16 * 1024

theorem blockSize_pos : 0 < blockSize := by decide

-- The size is only ever used as a positive number; unfolding it makes unification count to it.
attribute [irreducible] blockSize

inductive Problem where
  | cannotRead
  | layerLength
  | layerRoot
  | wholeFileRoot
  | pieceHash
  deriving DecidableEq, Repr

/-- The message of a problem, as `recordProblem` is given it. -/
def Problem.text : Problem → String
  | cannotRead => "Cannot read the required file data."
  | layerLength => "The v2 piece layer has an invalid length."
  | layerRoot => "The v2 piece layer does not match the file root hash."
  | wholeFileRoot => "The v2 file root does not match; individual pieces cannot be verified " ++
      "without a piece layer."
  | pieceHash => "A v2 piece does not match its expected hash."

/-- What the scan reads of one file: the torrent's size, root and piece layer (`[]` when the
torrent has none), the number of its first piece, and the content found on disk (`none` when the
file is missing, `opened = false` when it cannot be opened). -/
structure V2File (D : Type*) where
  pad : Bool
  expectedSize : ℕ
  root : D
  pieceLayer : List D
  firstPiece : ℕ
  content : Option (List UInt8)
  opened : Bool

def pieceLength (blocksPerPiece : ℕ) : ℕ := blocksPerPiece * blockSize

def V2File.numPieces (f : V2File D) (blocksPerPiece : ℕ) : ℕ :=
  (f.expectedSize + pieceLength blocksPerPiece - 1) / pieceLength blocksPerPiece

/-- The file, for a torrent that carries another piece layer (`[]` for none). -/
def V2File.withLayer (f : V2File D) (layer : List D) : V2File D := { f with pieceLayer := layer }

/-- The scan verifies the file by its root alone. -/
def V2File.wholeFile (f : V2File D) (blocksPerPiece : ℕ) : Bool :=
  decide (1 < f.numPieces blocksPerPiece) && f.pieceLayer.isEmpty

/-- The part of the report that concerns one file: its problems, the pieces whose bit is set in
`verified`, and whether it was scanned as a whole. -/
structure FileScan where
  problems : List Problem
  verified : List ℕ
  wholeFileV2Verification : Bool
  deriving DecidableEq, Repr

namespace FileScan

/-- `recordProblem`: each problem is listed once. -/
def recordProblem (s : FileScan) (p : Problem) : FileScan :=
  if p ∈ s.problems then s else { s with problems := s.problems ++ [p] }

@[simp] theorem recordProblem_verified (s : FileScan) (p : Problem) :
    (s.recordProblem p).verified = s.verified := by
  unfold recordProblem
  split_ifs <;> rfl

def setBits (s : FileScan) (first count : ℕ) : FileScan :=
  { s with verified := s.verified ++ (List.range count).map (first + ·) }

@[simp] theorem setBits_verified (s : FileScan) (first count : ℕ) :
    (s.setBits first count).verified = s.verified ++ (List.range count).map (first + ·) := rfl

end FileScan

section Scan

variable [DecidableEq D] (h : D → D → D) (sha : List UInt8 → D) (zero : D)

/-- The block loop of one check: read `remaining` bytes block by block and append their hashes.
`none` when a read comes back short. -/
def hashBlocks (remaining : ℕ) (input : List UInt8) (hashes : MerkleAccumulator D) :
    Option (MerkleAccumulator D × List UInt8) :=
  if 0 < remaining then
    let size := min remaining blockSize
    if input.length < size then none
    else hashBlocks (remaining - size) (input.drop size) (hashes.append h (sha (input.take size)))
  else some (hashes, input)
  termination_by remaining
  decreasing_by
    have := blockSize_pos
    omega

/-- The check loop: `left` checks remain, the next one is `piece`, and `input` is what is left of
the opened file.  A short read ends the loop. -/
def scanPieces (blocksPerPiece : ℕ) (f : V2File D) :
    (left piece : ℕ) → (input : List UInt8) → FileScan → FileScan
  | 0, _, _, s => s
  | left + 1, piece, input, s =>
    let numPieces := f.numPieces blocksPerPiece
    let wholeFile := f.wholeFile blocksPerPiece
    let offset := piece * pieceLength blocksPerPiece
    let size := if wholeFile then f.expectedSize
      else min (pieceLength blocksPerPiece) (f.expectedSize - offset)
    match hashBlocks h sha size input (.empty zero) with
    | none => s.recordProblem .cannotRead
    | some (hashes, input) =>
      let fileRoot := wholeFile || decide (numPieces = 1)
      let expected := if fileRoot then f.root else f.pieceLayer.getD piece zero
      let actual := hashes.root h (if fileRoot then 1 else blocksPerPiece) zero
      let s := if actual = expected then
          s.setBits (f.firstPiece + piece) (if wholeFile then numPieces else 1)
        else s.recordProblem (if wholeFile then .wholeFileRoot else .pieceHash)
      scanPieces blocksPerPiece f left (piece + 1) input s

/-- The root of the piece layer, as the scan recomputes it: the layer's hashes, padded with the
root of an all-zero piece. -/
def layerRoot (blocksPerPiece : ℕ) (pieceLayer : List D) : D :=
  (MerkleAccumulator.accumulate h zero pieceLayer).root h 1
    ((MerkleAccumulator.empty zero).root h blocksPerPiece zero)

/-- The body of the file loop of `analyzeV2`. -/
def analyzeV2 (blocksPerPiece : ℕ) (f : V2File D) : FileScan :=
  let numPieces := f.numPieces blocksPerPiece
  let wholeFile := f.wholeFile blocksPerPiece
  match f.content with
  | none => ⟨[], [], false⟩
  | some content =>
    if f.pad || decide (f.expectedSize = 0) then ⟨[], [], false⟩
    else
      let s : FileScan := ⟨[], [], wholeFile⟩
      if !wholeFile && decide (1 < numPieces) && decide (f.pieceLayer.length ≠ numPieces) then
        s.recordProblem .layerLength
      else if !wholeFile && decide (1 < numPieces) &&
          decide (layerRoot h zero blocksPerPiece f.pieceLayer ≠ f.root) then
        s.recordProblem .layerRoot
      else if !f.opened then s.recordProblem .cannotRead
      else scanPieces h sha zero blocksPerPiece f (if wholeFile then 1 else numPieces) 0 content s

/-- The scan accepts the file: the bit of each of its pieces is set. -/
def Accepts (blocksPerPiece : ℕ) (f : V2File D) : Prop :=
  ∀ p < f.numPieces blocksPerPiece, f.firstPiece + p ∈ (analyzeV2 h sha zero blocksPerPiece f).verified

end Scan

end Qbutt.Merkle
