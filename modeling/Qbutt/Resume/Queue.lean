import Qbutt.Qt.ByteArray

/-!
# The queue file

`storeQueue` writes the ids of the torrents, one in a line, and `loadQueue` moves the registered
torrents that the file names to the front, one after the other, by swaps in the list itself.  A hash
keeps the positions of the torrents, and a swap puts into it where the torrent went that had to make
room.
-/

namespace Qbutt.Resume

/-! ### Torrent ids -/

/-- A valid `TorrentID`: 20 bytes. -/
@[ext]
structure TorrentID where
  bytes : Bytes
  length_eq : bytes.length = 20
deriving DecidableEq

/-- The class `[A-Fa-f0-9]`. -/
def isHexDigit (b : UInt8) : Bool := (65 ≤ b && b ≤ 70) || (97 ≤ b && b ≤ 102) || (48 ≤ b && b ≤ 57)

/-- The value of a hexadecimal digit. -/
def hexValue (b : UInt8) : UInt8 := if b ≤ 57 then b - 48 else if b ≤ 70 then b - 55 else b - 87

def fromHex : Bytes → Bytes
  | high :: low :: rest => (16 * hexValue high + hexValue low) :: fromHex rest
  | _ => []

def hexDigit (value : UInt8) : UInt8 := if value < 10 then 48 + value else 87 + value

def toHex (data : Bytes) : Bytes := data.flatMap fun b => [hexDigit (b / 16), hexDigit (b % 16)]

theorem length_fromHex {n : ℕ} {digits : Bytes} (h : digits.length = 2 * n) :
    (fromHex digits).length = n := by
  induction n generalizing digits with
  | zero => rw [List.eq_nil_of_length_eq_zero h]; rfl
  | succ n ih =>
    obtain ⟨high, digits, rfl⟩ := List.exists_cons_of_length_pos (l := digits) (by omega)
    rw [List.length_cons] at h
    obtain ⟨low, digits, rfl⟩ := List.exists_cons_of_length_pos (l := digits) (by omega)
    rw [List.length_cons] at h
    rw [fromHex, List.length_cons, ih (by omega)]

/-- The id that a line is, if it is one: `hashPattern` and `fromString`. -/
def torrentID? (line : Bytes) : Option TorrentID :=
  if h : line.length = 40 ∧ line.all isHexDigit = true then
    some ⟨fromHex line, length_fromHex h.1⟩
  else none

/-- `toString` of an id that was not read from a text. -/
def TorrentID.toString (id : TorrentID) : Bytes := toHex id.bytes

/-! ### Lines -/

def lineMaxLength : ℕ := 48

/-- `readLine`: up to the line feed, but no more than `maxLength` bytes. -/
def readLine : ℕ → Bytes → Bytes
  | 0, _ => []
  | _ + 1, [] => []
  | maxLength + 1, b :: data => if b = 10 then [b] else b :: readLine maxLength data

/-- The lines that the loop reads, trimmed, up to the first one that is blank.  A line that is too
long is read in pieces, as several lines. -/
def queueLinesFrom : ℕ → Bytes → List Bytes
  | 0, _ => []
  | fuel + 1, data =>
    let line := QByteArray.trimmed (readLine lineMaxLength data)
    if line = [] then []
    else line :: queueLinesFrom fuel (data.drop (readLine lineMaxLength data).length)

/-- The lines of a file; every pass takes a byte at least. -/
def queueLines (data : Bytes) : List Bytes := queueLinesFrom (data.length + 1) data

/-! ### Loading and storing -/

/-- `swapItemsAt`, both of whose indexes must be inside the list. -/
def swapItemsAt (list : List TorrentID) (i j : ℕ) : Option (List TorrentID) :=
  match list[i]?, list[j]? with
  | some a, some b => some ((list.set i b).set j a)
  | _, _ => none

/-- What the loop of `loadQueue` changes: the registered torrents, the hash of their positions, and
the end of those in their place. -/
structure Placement where
  m_registeredTorrents : List TorrentID
  registeredTorrentsIndexes : TorrentID → Option ℕ
  queuePos : ℕ

def insertIndex (indexes : TorrentID → Option ℕ) (id : TorrentID) (pos : ℕ) : TorrentID → Option ℕ :=
  fun other => if other = id then some pos else indexes other

/-- The loop that fills the hash. -/
def fillIndexes (registered : List TorrentID) : TorrentID → Option ℕ :=
  (registered.zipIdx.foldl (fun indexes entry => insertIndex indexes entry.1 entry.2) fun _ => none)

/-- The loop from a torrent on that a line names.  There is no result if an index is outside the
list. -/
def placeTorrent (s : Placement) (torrentID : TorrentID) : Option Placement :=
  match s.registeredTorrentsIndexes torrentID with
  | none => some s
  | some pos =>
    if pos ≠ s.queuePos then do
      let swapped ← swapItemsAt s.m_registeredTorrents pos s.queuePos
      let moved ← swapped[pos]?
      return {
        m_registeredTorrents := swapped
        registeredTorrentsIndexes := insertIndex s.registeredTorrentsIndexes moved pos
        queuePos := s.queuePos + 1 }
    else some { s with queuePos := s.queuePos + 1 }

def placeLine (s : Placement) (line : Bytes) : Option Placement :=
  match torrentID? line with
  | none => some s
  | some torrentID => placeTorrent s torrentID

/-- `loadQueue`, of the content of a file that can be opened. -/
def loadQueue (registered : List TorrentID) (data : Bytes) : Option (List TorrentID) :=
  ((queueLines data).foldlM placeLine ⟨registered, fillIndexes registered, 0⟩).map
    Placement.m_registeredTorrents

def storeQueue (queue : List TorrentID) : Bytes :=
  queue.flatMap fun torrentID => torrentID.toString ++ [10]

end Qbutt.Resume
