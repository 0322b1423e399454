import Mathlib.Algebra.GroupWithZero.Nat
import Qbutt.Algorithm.Transition

/-!
# Progress of files

How `TorrentImpl` adds up how much there is of each file: a status update that changes the number of
pieces adds the bytes of every piece that differs from the last such update.  `mapBlock` lists the
parts of the files in a range of the torrent, padding files among them; `TorrentInfo` leaves padding
files out.
-/

namespace Qbutt.Progress

structure NativeFile where
  size : ℕ
  pad : Bool

/-- What `map_block` lists. -/
structure FileSlice where
  fileIndex : ℕ
  offset : ℕ
  size : ℕ

structure TorrentInfo where
  files : List NativeFile
  pieceLength : ℕ
  pieceLength_pos : 0 < pieceLength

namespace TorrentInfo

variable (info : TorrentInfo)

/-- `pad_file_at`. -/
def isPad (i : ℕ) : Bool := (info.files[i]?.map NativeFile.pad).getD true

/-- `file_size`. -/
def nativeSize (i : ℕ) : ℕ := (info.files[i]?.map NativeFile.size).getD 0

/-- `file_offset`. -/
def nativeOffset (i : ℕ) : ℕ := ((info.files.take i).map NativeFile.size).sum

def totalSize : ℕ := info.nativeOffset info.files.length

def piecesCount : ℕ := (info.totalSize + info.pieceLength - 1) / info.pieceLength

def pieceSize (index : ℕ) : ℕ := min info.pieceLength (info.totalSize - index * info.pieceLength)

/-- The part of a file between two places of the torrent. -/
def slice (start stop i : ℕ) : Option FileSlice :=
  let lower := max start (info.nativeOffset i)
  let upper := min stop (info.nativeOffset i + info.nativeSize i)
  if lower < upper then some ⟨i, lower - info.nativeOffset i, upper - lower⟩ else none

def mapBlock (start size : ℕ) : List FileSlice :=
  (List.range info.files.length).filterMap (info.slice start (start + size))

/-- `m_nativeIndexes`: the files that are no padding. -/
def nativeIndexes : List ℕ := (List.range info.files.length).filter fun i => !info.isPad i

def filesCount : ℕ := info.nativeIndexes.length

def fileSize (index : ℕ) : ℤ :=
  (info.nativeIndexes[index]?.map fun i => (info.nativeSize i : ℤ)).getD (-1)

def fileOffset (index : ℕ) : ℤ :=
  (info.nativeIndexes[index]?.map fun i => (info.nativeOffset i : ℤ)).getD (-1)

def fileIndicesForPiece (pieceIndex : ℕ) : List ℕ :=
  if info.piecesCount ≤ pieceIndex then []
  else (info.mapBlock (pieceIndex * info.pieceLength) (info.pieceSize pieceIndex)).filterMap
    fun fileSlice => info.nativeIndexes.idxOf? fileSlice.fileIndex

end TorrentInfo

/-- `QBitArray`. -/
abbrev Bits := List Bool

/-- `testBit`, unset behind the end. -/
def Bits.testBit (bits : Bits) (i : ℕ) : Bool := bits.getD i false

/-- `operator^`. -/
def Bits.xor (a b : Bits) : Bits :=
  (List.range (max a.length b.length)).map fun i => Bits.testBit a i ^^ Bits.testBit b i

def numPieces (bits : Bits) : ℕ := bits.count true

/-- `TorrentImpl`: the pieces of the last status, those of the last `updateProgress`, and how much
there is of each file. -/
structure TorrentImpl where
  nativePieces : Bits
  m_pieces : Bits
  m_filesProgress : List ℤ

variable (info : TorrentInfo)

/-- The loop of `updateProgress` over the files of a piece. -/
def addPiece : List ℕ → ℤ → ℤ → List ℤ → List ℤ
  | [], _, _, filesProgress => filesProgress
  | fileIndex :: fileIndices, size, pieceOffset, filesProgress =>
    let fileOffsetInPiece := pieceOffset - info.fileOffset fileIndex
    let add := min (info.fileSize fileIndex - fileOffsetInPiece) size
    let filesProgress := filesProgress.modify fileIndex (· + add)
    if size - add ≤ 0 then filesProgress
    else addPiece fileIndices (size - add) (pieceOffset + add) filesProgress

/-- The loop of `updateProgress` over the pieces. -/
def addPieces (newPieces : Bits) (filesProgress : List ℤ) : List ℤ :=
  (List.range newPieces.length).foldl (fun filesProgress index =>
    if Bits.testBit newPieces index then
      addPiece info (info.fileIndicesForPiece index) (info.pieceSize index)
        (index * info.pieceLength : ℕ) filesProgress
    else filesProgress) filesProgress

def updateProgress (t : TorrentImpl) : TorrentImpl :=
  let filesProgress :=
    if t.m_filesProgress.isEmpty then List.replicate info.filesCount 0 else t.m_filesProgress
  { t with
    m_pieces := t.nativePieces
    m_filesProgress := addPieces info (Bits.xor t.nativePieces t.m_pieces) filesProgress }

def updateStatus (t : TorrentImpl) (pieces : Bits) : TorrentImpl :=
  if numPieces pieces ≠ numPieces t.nativePieces then
    updateProgress info { t with nativePieces := pieces }
  else { t with nativePieces := pieces }

/-- Status updates of a torrent that starts without pieces. -/
def system : System TorrentImpl Bits where
  initial t := t = ⟨[], [], List.replicate info.filesCount 0⟩
  step t pieces := some (updateStatus info t pieces)

end Qbutt.Progress
