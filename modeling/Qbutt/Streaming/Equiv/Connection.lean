import Qbutt.Algorithm.Split
import Qbutt.Streaming.Connection

/-!
# Byte ranges

A range header asks for the bytes from a first to a last one, from a first one on, or for the last ones
of the file.  `checkRange_eq_ok` says that a request is answered with a part of the file exactly if its
header asks for such a range and the file has a byte of it, and with which bounds.
-/

namespace Qbutt.Streaming

open QByteArray

inductive ByteRange where
  | firstLast (first last : ℤ)
  | openEnded (first : ℤ)
  | lastBytes (count : ℤ)

def ByteRange.bounds (size : ℤ) : ByteRange → ℤ × ℤ
  | firstLast first last => (first, min last (size - 1))
  | openEnded first => (first, size - 1)
  | lastBytes count => (max 0 (size - count), size - 1)

def ByteRange.Satisfiable (size : ℤ) (range : ByteRange) : Prop :=
  0 ≤ (range.bounds size).1 ∧ (range.bounds size).1 ≤ (range.bounds size).2 ∧
    (range.bounds size).2 < size

/-- A range header asks for a single byte range, with the numbers as they are read. -/
inductive Asks (toLongLong : Bytes → Option ℤ) : Bytes → ByteRange → Prop where
  | firstLast {first last : Bytes} {a b : ℤ} (hfirst : first ≠ []) (hlast : last ≠ [])
      (ha : toLongLong first = some a) (hb : toLongLong last = some b)
      (hplain : ∀ c ∈ first ++ last, c ≠ 44 ∧ c ≠ 45) :
      Asks toLongLong (ofText "bytes=" ++ (first ++ 45 :: last)) (.firstLast a b)
  | openEnded {first : Bytes} {a : ℤ} (hfirst : first ≠ []) (ha : toLongLong first = some a)
      (hplain : ∀ c ∈ first, c ≠ 44 ∧ c ≠ 45) :
      Asks toLongLong (ofText "bytes=" ++ (first ++ [45])) (.openEnded a)
  | lastBytes {last : Bytes} {n : ℤ} (hn : toLongLong last = some n) (hpos : 0 < n)
      (hplain : ∀ c ∈ last, c ≠ 44 ∧ c ≠ 45) :
      Asks toLongLong (ofText "bytes=" ++ 45 :: last) (.lastBytes n)

variable {qt : QtMedia} {size : ℤ} {range : Bytes}

theorem bytes_append_drop (h : (ofText "bytes=").isPrefixOf range = true) :
    ofText "bytes=" ++ range.drop 6 = range := by
  obtain ⟨rest, rfl⟩ := List.isPrefixOf_iff_prefix.mp h
  rfl

/-- Bounds with which everything is ok are those of a range that is asked for, but for the end of the
file. -/
theorem asks_of_rangeBounds {first last : ℤ} (hbytes : (ofText "bytes=").isPrefixOf range = true)
    (hsingle : (44 : UInt8) ∉ range) (h : rangeBounds qt size range = (first, last, true)) :
    ∃ asked, Asks qt.toLongLong range asked ∧ asked.bounds size = (first, min last (size - 1)) := by
  have hrange := bytes_append_drop hbytes
  have hplain : (44 : UInt8) ∉ range.drop 6 := fun hmem => hsingle (List.mem_of_mem_drop hmem)
  unfold rangeBounds at h
  split at h
  · next a b hsplit =>
    obtain ⟨hcut, ha, hb⟩ := splitOn_eq_pair_iff.mp hsplit
    rw [hcut] at hrange hplain
    have hab : ∀ c ∈ a ++ b, c ≠ 44 ∧ c ≠ 45 := by
      intro c hc
      constructor
      · rintro rfl
        rcases List.mem_append.mp hc with hc | hc
        · exact hplain (List.mem_append_left _ hc)
        · exact hplain (List.mem_append_right _ (List.mem_cons_of_mem _ hc))
      · rintro rfl
        exact (List.mem_append.mp hc).elim ha hb
    by_cases hempty : a.isEmpty = true
    · rw [if_pos hempty] at h
      obtain rfl := List.isEmpty_iff.mp hempty
      obtain ⟨hfirst, hlast, hok⟩ := by simpa using h
      obtain ⟨n, hn, hpos⟩ := (Option.any_eq_true _ _).mp hok
      refine ⟨.lastBytes n, hrange ▸ .lastBytes hn (by simpa using hpos) hab, ?_⟩
      rw [hn] at hfirst
      rw [← hfirst, ← hlast, min_self]
      rfl
    · rw [if_neg hempty] at h
      have hfirst : a ≠ [] := by simpa using hempty
      obtain ⟨hposition, hend, hok⟩ := by simpa using h
      obtain ⟨hread, hok⟩ := hok
      obtain ⟨n, hn⟩ := Option.isSome_iff_exists.mp hread
      rw [hn] at hposition
      by_cases hlast : b = []
      · rw [if_pos hlast] at hend
        subst hlast
        rw [List.append_nil] at hab
        refine ⟨.openEnded n, hrange ▸ .openEnded hfirst hn hab, ?_⟩
        rw [← hposition, ← hend, min_self]
        rfl
      · rw [if_neg hlast] at hend
        obtain ⟨m, hm⟩ := Option.isSome_iff_exists.mp (hok.resolve_left hlast)
        rw [hm] at hend
        refine ⟨.firstLast n m, hrange ▸ .firstLast hfirst hlast hn hm hab, ?_⟩
        rw [← hposition, ← hend]
        rfl
  · cases h

theorem Asks.single {toLongLong : Bytes → Option ℤ} {asked : ByteRange}
    (h : Asks toLongLong range asked) :
    (ofText "bytes=").isPrefixOf range = true ∧ (44 : UInt8) ∉ range := by
  have hbytes : (44 : UInt8) ∉ ofText "bytes=" := by decide +kernel
  cases h with
  | firstLast _ _ _ _ hplain =>
    refine ⟨ List.isPrefixOf_iff_prefix.mpr (List.prefix_append _ _), ?_⟩
    simp only [List.mem_append, List.mem_cons, not_or]
    exact ⟨hbytes, fun hmem => (hplain _ (List.mem_append_left _ hmem)).1 rfl, by decide,
      fun hmem => (hplain _ (List.mem_append_right _ hmem)).1 rfl⟩
  | openEnded _ _ hplain =>
    refine ⟨ List.isPrefixOf_iff_prefix.mpr (List.prefix_append _ _), ?_⟩
    simp only [List.mem_append, List.mem_cons, List.not_mem_nil, or_false, not_or]
    exact ⟨hbytes, fun hmem => (hplain _ hmem).1 rfl, by decide⟩
  | lastBytes _ _ hplain =>
    refine ⟨ List.isPrefixOf_iff_prefix.mpr (List.prefix_append _ _), ?_⟩
    simp only [List.mem_append, List.mem_cons, not_or]
    exact ⟨hbytes, by decide, fun hmem => (hplain _ hmem).1 rfl⟩

theorem rangeBounds_of_asks (size : ℤ) {asked : ByteRange} (h : Asks qt.toLongLong range asked) :
    ∃ last, rangeBounds qt size range = ((asked.bounds size).1, last, true) ∧
      min last (size - 1) = (asked.bounds size).2 := by
  have hdrop (rest : Bytes) : (ofText "bytes=" ++ rest).drop 6 = rest := rfl
  cases h with
  | @firstLast first last a b hfirst hlast ha hb hplain =>
    have hsplit : (first ++ 45 :: last).splitOn 45 = [first, last] :=
      splitOn_eq_pair_iff.mpr ⟨rfl, fun hmem => (hplain _ (List.mem_append_left _ hmem)).2 rfl,
        fun hmem => (hplain _ (List.mem_append_right _ hmem)).2 rfl⟩
    refine ⟨b, ?_, rfl⟩
    simp [rangeBounds, hdrop, hsplit, hfirst, hlast, ha, hb, ByteRange.bounds]
  | @openEnded first a hfirst ha hplain =>
    have hsplit : (first ++ [45]).splitOn 45 = [first, []] :=
      splitOn_eq_pair_iff.mpr ⟨rfl, fun hmem => (hplain _ hmem).2 rfl, List.not_mem_nil⟩
    refine ⟨size - 1, ?_, min_self _⟩
    simp [rangeBounds, hdrop, hsplit, hfirst, ha, ByteRange.bounds]
  | @lastBytes last n hn hpos hplain =>
    have hsplit : (45 :: last).splitOn 45 = [[], last] :=
      splitOn_eq_pair_iff.mpr ⟨rfl, List.not_mem_nil, fun hmem => (hplain _ hmem).2 rfl⟩
    refine ⟨size - 1, ?_, min_self _⟩
    simp [rangeBounds, hdrop, hsplit, hn, hpos, ByteRange.bounds]

/-- A request is answered with a part of the file exactly if it asks for a range of which the file has a
byte, and with the bounds of that range. -/
theorem checkRange_eq_ok {bounds : ℤ × ℤ × Bool} :
    checkRange qt size (ofText "GET") (some range) = .ok bounds ↔
      ∃ asked, Asks qt.toLongLong range asked ∧ asked.Satisfiable size ∧
        bounds = ((asked.bounds size).1, (asked.bounds size).2, true) := by
  have hmethod : ofText "GET" ≠ ofText "HEAD" := by decide +kernel
  unfold checkRange
  simp only [if_neg hmethod]
  constructor
  · intro h
    split_ifs at h with hform hbounds
    obtain ⟨hbytes, hsingle⟩ : (ofText "bytes=").isPrefixOf range = true ∧ (44 : UInt8) ∉ range := by
      simpa using hform
    obtain ⟨hok, hposition, hsize, hend⟩ :
        (rangeBounds qt size range).2.2 = true ∧ 0 ≤ (rangeBounds qt size range).1 ∧
          (rangeBounds qt size range).1 < size ∧
          (rangeBounds qt size range).1 ≤ (rangeBounds qt size range).2.1 := by
      simpa using hbounds
    have hall : rangeBounds qt size range =
        ((rangeBounds qt size range).1, (rangeBounds qt size range).2.1, true) := by
      rw [← hok]
    obtain ⟨asked, hasks, heq⟩ := asks_of_rangeBounds hbytes hsingle hall
    refine ⟨asked, hasks, ?_, ?_⟩
    · rw [ByteRange.Satisfiable, heq]
      exact ⟨hposition, by simp only [le_min_iff]; omega, by omega⟩
    · rw [heq]
      exact (Except.ok.inj h).symm
  · rintro ⟨asked, hasks, ⟨hposition, hend, hsize⟩, rfl⟩
    obtain ⟨hbytes, hsingle⟩ := hasks.single
    obtain ⟨last, hbounds, hlast⟩ := rangeBounds_of_asks size hasks
    have hform : ¬ ((!(ofText "bytes=").isPrefixOf range || range.contains 44) = true) := by
      simpa using ⟨ List.isPrefixOf_iff_prefix.mp hbytes, hsingle⟩
    have hle : (asked.bounds size).1 ≤ last := hend.trans (hlast ▸ min_le_left _ _)
    rw [if_neg hform, hbounds, ← hlast]
    simp only
    rw [if_neg]
    simp only [Bool.not_true, Bool.false_eq_true, false_or, not_or, not_lt, not_le]
    exact ⟨hposition, by omega, hle⟩

theorem checkRange_eq_error {range : Option Bytes} {failure : Failure}
    (h : checkRange qt size (ofText "GET") range = .error failure) :
    failure.status = 400 ∨ failure.status = 416 := by
  unfold checkRange at h
  cases range with
  | none => cases h
  | some range =>
    simp only [if_neg (show ofText "GET" ≠ ofText "HEAD" by decide +kernel)] at h
    split_ifs at h with hform hbounds
    · cases h
      exact .inl rfl
    · cases h
      exact .inr rfl

end Qbutt.Streaming

/-!
## Bodies of answers

A connection that has announced the bytes from `first` to `last` of a file writes exactly these, however
the socket takes them and in whatever steps the pieces arrive.  `Sending` is the invariant: what was
written is the head and the bytes up to the position, and the data that a connection holds is the content
of the piece that it believes to hold (`pumpLoop_sending`, `sending_step`).  A connection that is not cut
off can always go on to the end (`exists_complete`).
-/

namespace Qbutt.Streaming

open QByteArray

def pieceContent (info : TorrentInfo) (payload : Bytes) (piece : ℕ) : Bytes :=
  (payload.drop (piece * info.pieceLength)).take info.pieceLength

def fileContent (file : TorrentFile) (payload : Bytes) : Bytes :=
  (payload.drop file.offset).take file.size

/-- A read lies within the data, which is the full content of a piece. -/
structure PieceRead.Within (info : TorrentInfo) (payload : Bytes) (read : PieceRead) : Prop where
  offset : 0 ≤ read.offset
  count : 0 < read.count
  bound : read.offset + read.count ≤ read.data.length
  content : ∃ piece, read.data = pieceContent info payload piece

theorem take_drop_slice {α : Type} (xs : List α) {m n i w : ℕ} (hw : i + w ≤ n) :
    (((xs.drop m).take n).drop i).take w = (xs.drop (m + i)).take w := by
  rw [List.drop_take, List.take_take, List.drop_drop, Nat.min_eq_left (by omega)]

/-- Bytes of a piece are bytes of a file, at the place that both have in the torrent. -/
theorem take_pieceContent (info : TorrentInfo) (payload : Bytes) (file : TorrentFile) {position w : ℕ}
    (hpiece : (file.offset + position) % info.pieceLength + w ≤ info.pieceLength)
    (hfile : position + w ≤ file.size) :
    ((pieceContent info payload ((file.offset + position) / info.pieceLength)).drop
        ((file.offset + position) % info.pieceLength)).take w =
      ((fileContent file payload).drop position).take w := by
  have habsolute := Nat.div_add_mod' (file.offset + position) info.pieceLength
  rw [pieceContent, fileContent, take_drop_slice payload hpiece, take_drop_slice payload hfile, habsolute]

theorem mod_lt_length_pieceContent (info : TorrentInfo) {payload : Bytes} {absolute : ℕ}
    (h : absolute < payload.length) :
    absolute % info.pieceLength <
      (pieceContent info payload (absolute / info.pieceLength)).length := by
  have hmod := Nat.mod_lt absolute info.pieceLength_pos
  have habsolute := Nat.div_add_mod' absolute info.pieceLength
  rw [pieceContent, List.length_take, List.length_drop]
  omega

namespace StreamConnection

def Delivers (info : TorrentInfo) (payload : Bytes) (c : StreamConnection) : Event → Prop
  | .streamingPieceReady piece data error _ =>
    c.waitingPiece = some piece → error = "" → data ≠ [] → data = pieceContent info payload piece
  | _ => True

theorem disconnectFromHost_cases (c : StreamConnection) :
    ∃ socket, socket ≠ .connected ∧ c.disconnectFromHost = { c with socket := socket } := by
  unfold disconnectFromHost
  by_cases hsocket : c.socket = .connected
  · rw [if_pos hsocket]
    exact ⟨.closing, nofun, rfl⟩
  · rw [if_neg hsocket]
    exact ⟨c.socket, hsocket, rfl⟩

section Sending

variable (stream : Stream) (payload head : Bytes) (first last : ℤ)

/-- A connection writes the bytes of its file from `first` to `last` behind the head of its answer. -/
structure Sending (c : StreamConnection) : Prop where
  started : c.started = true
  endPosition : c.endPosition = last
  first_le : first ≤ c.position
  le_last : c.position ≤ last + 1
  output : c.output =
    head ++ ((fileContent stream.file payload).drop first.toNat).take (c.position - first).toNat
  stream_eq : ∀ s, c.stream = some s → s = stream
  pieceData : c.stream.isSome → c.waitingPiece = none → ∀ piece, c.piece = some piece →
    c.pieceData = pieceContent stream.info payload piece
  waiting : ∀ piece, c.waitingPiece = some piece → piece = neededPiece stream c
  connected : c.socket = .connected → c.stream = some stream ∧ c.body = true
  done : c.body = false → c.position = last + 1
  reads : ∀ read ∈ c.reads, read.Within stream.info payload

/-- A connection that still writes has something left to write. -/
def Unfinished (c : StreamConnection) : Prop := c.socket = .connected → c.position ≤ last

variable {stream payload head first last} {c : StreamConnection}

theorem Sending.abort (h : Sending stream payload head first last c) :
    Sending stream payload head first last c.abort :=
  { h with
    stream_eq := fun _ hs => by cases hs
    pieceData := fun hs => by cases hs
    connected := fun hs => by cases hs }

theorem Sending.requestPiece (h : Sending stream payload head first last c) :
    Sending stream payload head first last (c.requestPiece stream) :=
  { h with
    pieceData := fun _ hwaiting => by cases hwaiting
    waiting := fun piece hpiece => (Option.some.inj hpiece).symm }

theorem Sending.nextRead_within (h : Sending stream payload head first last c)
    (hsocket : c.socket = .connected) (hwaiting : c.waitingPiece = none)
    (hpiece : c.piece = some (neededPiece stream c)) (hcount : 0 < (c.nextRead stream).count) :
    (c.nextRead stream).Within stream.info payload where
  offset := Int.emod_nonneg _ (by have := stream.info.pieceLength_pos; omega)
  count := hcount
  bound := by
    have hle : (c.nextRead stream).count ≤ c.pieceData.length - (c.nextRead stream).offset :=
      (min_le_right _ _).trans (min_le_right _ _)
    show _ ≤ (c.pieceData.length : ℤ)
    omega
  content := ⟨_, h.pieceData (by rw [(h.connected hsocket).1]; rfl) hwaiting _ hpiece⟩

theorem Sending.write (h : Sending stream payload head first last c) (hfirst : 0 ≤ first)
    (hlast : last < stream.file.size) (hsocket : c.socket = .connected)
    (hwaiting : c.waitingPiece = none) (hpiece : c.piece = some (neededPiece stream c))
    {written : ℤ} (hpos : 0 < written) (hle : written ≤ (c.nextRead stream).count) :
    Sending stream payload head first last (c.write (c.nextRead stream) written) := by
  have hbody := h.connected hsocket
  have hdata : c.pieceData = pieceContent stream.info payload (neededPiece stream c) :=
    h.pieceData (by rw [hbody.1]; rfl) hwaiting _ hpiece
  have hwithin := h.nextRead_within hsocket hwaiting hpiece (by omega)
  have hrest : (c.nextRead stream).count ≤ c.endPosition - c.position + 1 :=
    (min_le_right _ _).trans (min_le_left _ _)
  have hbound := hwithin.bound
  have hlength : (c.nextRead stream).data.length ≤ stream.info.pieceLength := by
    show c.pieceData.length ≤ _
    rw [hdata, pieceContent, List.length_take]
    exact min_le_left _ _
  rw [h.endPosition] at hrest
  obtain ⟨p, hp⟩ : ∃ p : ℕ, c.position = p := Int.eq_ofNat_of_zero_le (hfirst.trans h.first_le)
  obtain ⟨w, rfl⟩ : ∃ w : ℕ, written = w := Int.eq_ofNat_of_zero_le hpos.le
  obtain ⟨f, rfl⟩ : ∃ f : ℕ, first = f := Int.eq_ofNat_of_zero_le hfirst
  have hfp : f ≤ p := by
    have := h.first_le
    omega
  have hoffset : (c.nextRead stream).offset =
      ((stream.file.offset + p) % stream.info.pieceLength : ℕ) := by
    show (stream.file.offset + c.position) % (stream.info.pieceLength : ℤ) = _
    rw [hp]
    push_cast
    rfl
  have hread : ((c.nextRead stream).data.drop (c.nextRead stream).offset.toNat).take w =
      ((fileContent stream.file payload).drop p).take w := by
    show (c.pieceData.drop _).take w = _
    rw [hdata, hoffset, Int.toNat_natCast, neededPiece, hp, Int.toNat_natCast]
    refine take_pieceContent stream.info payload stream.file ?_ ?_
    · rw [hoffset] at hbound
      omega
    · omega
  refine ⟨h.started, h.endPosition, ?_, ?_, ?_, h.stream_eq, h.pieceData, ?_, h.connected, ?_, ?_⟩
  · show (f : ℤ) ≤ c.position + w
    omega
  · show c.position + w ≤ last + 1
    omega
  · show c.output ++ ((c.nextRead stream).data.drop (c.nextRead stream).offset.toNat).take w = _
    have hcount : (c.position + w - f).toNat = (p - f) + w := by omega
    have hcount' : (c.position - f).toNat = p - f := by omega
    show _ = head ++ (List.drop _ _).take (c.position + w - f).toNat
    rw [h.output, hread, hcount, hcount', Int.toNat_natCast, List.take_add, List.drop_drop,
      show f + (p - f) = p by omega, List.append_assoc]
  · intro piece hsome
    exact absurd (hwaiting.symm.trans hsome) nofun
  · intro hdone
    exact absurd (hbody.2.symm.trans hdone) nofun
  · intro read hmem
    rcases List.mem_append.mp hmem with hmem | hmem
    · exact h.reads read hmem
    · rw [List.mem_singleton.mp hmem]
      exact hwithin

/-- A read of which the socket takes nothing. -/
theorem Sending.refused (h : Sending stream payload head first last c) {read : PieceRead}
    (hread : read.Within stream.info payload) :
    Sending stream payload head first last { c with reads := c.reads ++ [read] } :=
  { h with
    reads := fun read' hmem => by
      rcases List.mem_append.mp hmem with hmem | hmem
      · exact h.reads read' hmem
      · rw [List.mem_singleton.mp hmem]
        exact hread }

theorem pumpLoop_sending (hfirst : 0 ≤ first) (hlast : last < stream.file.size) (turns : List Turn)
    (h : Sending stream payload head first last c) (hsocket : c.socket = .connected)
    (hwaiting : c.waitingPiece = none) :
    Sending stream payload head first last (pumpLoop stream turns c) := by
  induction turns generalizing c with
  | nil => exact h
  | cons turn turns ih =>
    unfold pumpLoop
    by_cases hroom : c.endPosition < c.position ∨ MAX_BUFFERED_BYTES ≤ turn.bytesToWrite
    · rw [if_pos hroom]
      exact h
    rw [if_neg hroom]
    by_cases hbusy : turn.busy = true
    · rw [if_pos hbusy]
      exact h.abort
    rw [if_neg hbusy]
    by_cases hpiece : c.piece ≠ some (neededPiece stream c)
    · rw [if_pos hpiece]
      exact h.requestPiece
    rw [if_neg hpiece]
    have hheld : c.piece = some (neededPiece stream c) := not_not.mp hpiece
    by_cases hcount : (c.nextRead stream).count ≤ 0
    · simp only [if_pos hcount]
      exact h.abort
    simp only [if_neg hcount]
    have hpos : 0 < (c.nextRead stream).count := not_le.mp hcount
    by_cases hwritten : min turn.written (c.nextRead stream).count ≤ 0
    · rw [if_pos hwritten]
      exact h.refused (h.nextRead_within hsocket hwaiting hheld hpos)
    · rw [if_neg hwritten]
      exact ih (h.write hfirst hlast hsocket hwaiting hheld (not_le.mp hwritten) (min_le_right _ _))
        hsocket hwaiting

/-- A connection that has written everything is closed. -/
theorem Sending.finish (h : Sending stream payload head first last c) :
    Sending stream payload head first last c.finish ∧ Unfinished last c.finish := by
  unfold StreamConnection.finish
  by_cases hdone : c.endPosition < c.position
  · obtain ⟨socket, hsocket, heq⟩ := disconnectFromHost_cases { c.release with body := false }
    rw [if_pos hdone, heq]
    rw [h.endPosition] at hdone
    refine ⟨?_, fun hconnected => absurd hconnected hsocket⟩
    exact
      { h with
        stream_eq := nofun
        pieceData := nofun
        connected := fun hconnected => absurd hconnected hsocket
        done := fun _ => le_antisymm h.le_last hdone }
  · rw [if_neg hdone]
    refine ⟨h, fun _ => ?_⟩
    rw [h.endPosition] at hdone
    exact not_lt.mp hdone

theorem Sending.pump (hfirst : 0 ≤ first) (hlast : last < stream.file.size) (turns : List Turn)
    (h : Sending stream payload head first last c) (hleft : Unfinished last c) :
    Sending stream payload head first last (c.pump turns) ∧ Unfinished last (c.pump turns) := by
  unfold StreamConnection.pump
  cases hstream : c.stream with
  | none => exact ⟨h, hleft⟩
  | some s =>
    obtain rfl := h.stream_eq s hstream
    simp only
    by_cases hidle : !c.body ∨ c.waitingPiece.isSome ∨ c.socket ≠ .connected
    · rw [if_pos hidle]
      exact ⟨h, hleft⟩
    · rw [if_neg hidle]
      obtain ⟨-, hwaiting, hsocket⟩ := by simpa [not_or] using hidle
      exact (pumpLoop_sending hfirst hlast turns h hsocket hwaiting).finish

theorem Sending.received (h : Sending stream payload head first last c) (piece : ℕ) {data : Bytes}
    (hdata : data = pieceContent stream.info payload piece) :
    Sending stream payload head first last
      { c with waitingPiece := none, piece := some piece, pieceData := data } :=
  { h with
    pieceData := fun _ _ p hp => by
      cases hp
      exact hdata
    waiting := fun _ hwaiting => by cases hwaiting }

theorem Sending.stopWaiting (h : Sending stream payload head first last c)
    (hstream : c.stream = none) :
    Sending stream payload head first last { c with waitingPiece := none } :=
  { h with
    pieceData := fun hs => by rw [hstream] at hs; cases hs
    waiting := nofun }

theorem Unfinished.of_ne (h : c.socket ≠ .connected) : Unfinished last c :=
  fun hconnected => absurd hconnected h

/-- Whatever happens to a connection keeps the invariant. -/
theorem sending_step {qt : QtMedia} (hfirst : 0 ≤ first) (hlast : last < stream.file.size)
    {event : Event} (h : Sending stream payload head first last c ∧ Unfinished last c)
    (hevent : Delivers stream.info payload c event) :
    Sending stream payload head first last (step qt c event) ∧ Unfinished last (step qt c event) := by
  obtain ⟨h, hleft⟩ := h
  cases event with
  | readyRead server data busy turns =>
    rw [step, readRequest, if_pos h.started]
    exact ⟨h, hleft⟩
  | bytesWritten turns => exact h.pump hfirst hlast turns hleft
  | streamingPieceReady piece data error turns =>
    rw [step, StreamConnection.streamingPieceReady]
    by_cases hwaiting : c.waitingPiece ≠ some piece
    · rw [if_pos hwaiting]
      exact ⟨h, hleft⟩
    rw [if_neg hwaiting]
    by_cases hfailed : error ≠ "" ∨ data = []
    · simp only [if_pos hfailed]
      exact ⟨h.abort.stopWaiting rfl, .of_ne nofun⟩
    · simp only [if_neg hfailed]
      obtain ⟨herror, hdata⟩ := not_or.mp hfailed
      exact (h.received piece (hevent (not_not.mp hwaiting) (not_not.mp herror) hdata)).pump hfirst hlast
        turns hleft
  | aborted => exact ⟨h.abort, .of_ne nofun⟩
  | disconnected => exact ⟨h.abort, .of_ne nofun⟩

/-- A run keeps the invariant. -/
theorem sending_steps {qt : QtMedia} (hfirst : 0 ≤ first) (hlast : last < stream.file.size)
    {d : StreamConnection} (h : Sending stream payload head first last c ∧ Unfinished last c)
    (hsteps : (system qt).Steps (Delivers stream.info payload) c d) :
    Sending stream payload head first last d ∧ Unfinished last d := by
  refine hsteps.preserves (P := fun s => Sending stream payload head first last s ∧ Unfinished last s)
    (fun s event s' hs hevent hstep => ?_) h
  cases hstep
  exact sending_step hfirst hlast hs hevent

/-! ### Progress -/

/-- A turn at which the socket takes what it is given. -/
def freeTurn : Turn := ⟨0, false, 64 * 1024⟩

theorem freeTurn_room (hleft : c.position ≤ c.endPosition) :
    ¬ (c.endPosition < c.position ∨ MAX_BUFFERED_BYTES ≤ freeTurn.bytesToWrite) :=
  not_or.mpr ⟨not_lt.mpr hleft, by decide⟩

theorem Sending.nextRead_pos (h : Sending stream payload head first last c) (hfirst : 0 ≤ first)
    (hlast : last < stream.file.size)
    (hpayload : stream.file.offset + stream.file.size ≤ payload.length)
    (hsocket : c.socket = .connected) (hwaiting : c.waitingPiece = none)
    (hpiece : c.piece = some (neededPiece stream c)) (hleft : c.position ≤ last) :
    0 < (c.nextRead stream).count := by
  have hdata : c.pieceData = pieceContent stream.info payload (neededPiece stream c) :=
    h.pieceData (by rw [(h.connected hsocket).1]; rfl) hwaiting _ hpiece
  obtain ⟨p, hp⟩ : ∃ p : ℕ, c.position = p := Int.eq_ofNat_of_zero_le (hfirst.trans h.first_le)
  have hlength : (stream.file.offset + p) % stream.info.pieceLength < c.pieceData.length := by
    rw [hdata, neededPiece, hp, Int.toNat_natCast]
    exact mod_lt_length_pieceContent stream.info (by omega)
  have hend := h.endPosition
  show 0 < min (64 * 1024 : ℤ) (min (c.endPosition - c.position + 1)
    (c.pieceData.length - (stream.file.offset + c.position) % (stream.info.pieceLength : ℤ)))
  rw [hp]
  have hcast : ((stream.file.offset : ℤ) + p) % (stream.info.pieceLength : ℤ) =
      ((stream.file.offset + p) % stream.info.pieceLength : ℕ) := by
    push_cast
    rfl
  rw [hcast]
  simp only [lt_min_iff]
  omega

theorem pump_eq_finish {turns : List Turn} (hstream : c.stream = some stream)
    (hbody : c.body = true) (hwaiting : c.waitingPiece = none) (hsocket : c.socket = .connected) :
    c.pump turns = (pumpLoop stream turns c).finish := by
  unfold StreamConnection.pump
  rw [hstream]
  simp only
  rw [if_neg (by simp [hbody, hwaiting, hsocket])]

theorem finish_cases (c : StreamConnection) :
    c.finish.position = c.position ∧ (c.finish.socket = c.socket ∨ c.finish.body = false) := by
  unfold StreamConnection.finish
  by_cases hdone : c.endPosition < c.position
  · obtain ⟨socket, -, heq⟩ := disconnectFromHost_cases { c.release with body := false }
    rw [if_pos hdone, heq]
    exact ⟨rfl, .inr rfl⟩
  · rw [if_neg hdone]
    exact ⟨rfl, .inl rfl⟩

/-- A connection that has the piece that it needs writes some of it. -/
theorem Sending.pump_held (h : Sending stream payload head first last c) (hfirst : 0 ≤ first)
    (hlast : last < stream.file.size)
    (hpayload : stream.file.offset + stream.file.size ≤ payload.length)
    (hsocket : c.socket = .connected) (hwaiting : c.waitingPiece = none)
    (hpiece : c.piece = some (neededPiece stream c)) (hleft : c.position ≤ last) :
    c.position < (c.pump [freeTurn]).position ∧
      ((c.pump [freeTurn]).socket = .connected ∨ (c.pump [freeTurn]).body = false) := by
  obtain ⟨hstream, hbody⟩ := h.connected hsocket
  have hpos := h.nextRead_pos hfirst hlast hpayload hsocket hwaiting hpiece hleft
  have hmin : ¬ min (64 * 1024) (c.nextRead stream).count ≤ 0 := by
    rw [not_le, lt_min_iff]
    exact ⟨by decide, hpos⟩
  have hloop : pumpLoop stream [freeTurn] c =
      c.write (c.nextRead stream) (min (64 * 1024) (c.nextRead stream).count) := by
    unfold pumpLoop
    rw [if_neg (freeTurn_room (by rwa [h.endPosition])), if_neg nofun, if_neg (not_not.mpr hpiece)]
    simp only [if_neg (not_le.mpr hpos)]
    rw [freeTurn, if_neg hmin]
    rfl
  obtain ⟨hposition, hclosed⟩ := finish_cases (pumpLoop stream [freeTurn] c)
  rw [pump_eq_finish hstream hbody hwaiting hsocket, hposition, hloop]
  rw [hloop] at hclosed
  exact ⟨by show c.position < c.position + _; omega, hclosed.imp_left fun heq => heq.trans hsocket⟩

theorem Sending.pump_missing (h : Sending stream payload head first last c)
    (hsocket : c.socket = .connected) (hwaiting : c.waitingPiece = none)
    (hpiece : c.piece ≠ some (neededPiece stream c)) (hleft : c.position ≤ last) :
    c.pump [freeTurn] = c.requestPiece stream := by
  obtain ⟨hstream, hbody⟩ := h.connected hsocket
  have hmore : ¬ c.endPosition < c.position := by
    rw [h.endPosition]
    omega
  rw [pump_eq_finish hstream hbody hwaiting hsocket]
  unfold pumpLoop
  rw [if_neg (freeTurn_room (not_lt.mp hmore)), if_neg nofun, if_pos hpiece]
  exact if_neg hmore

variable (qt : QtMedia)

/-- A connection that waits for a piece goes on when the piece arrives. -/
theorem Sending.exists_received (h : Sending stream payload head first last c) (hfirst : 0 ≤ first)
    (hlast : last < stream.file.size)
    (hpayload : stream.file.offset + stream.file.size ≤ payload.length)
    (hsocket : c.socket = .connected) {piece : ℕ} (hwaiting : c.waitingPiece = some piece)
    (hleft : c.position ≤ last) :
    ∃ d, (system qt).Steps (Delivers stream.info payload) c d ∧ c.position < d.position ∧
      (d.socket = .connected ∨ d.body = false) := by
  obtain rfl := h.waiting piece hwaiting
  obtain ⟨p, hp⟩ : ∃ p : ℕ, c.position = p := Int.eq_ofNat_of_zero_le (hfirst.trans h.first_le)
  have hlength : (stream.file.offset + p) % stream.info.pieceLength <
      (pieceContent stream.info payload
        ((stream.file.offset + p) / stream.info.pieceLength)).length :=
    mod_lt_length_pieceContent stream.info (by omega)
  have hne : pieceContent stream.info payload (neededPiece stream c) ≠ [] := by
    rw [neededPiece, hp, Int.toNat_natCast]
    exact List.ne_nil_of_length_pos (by omega)
  have hpump := (h.received (neededPiece stream c) rfl).pump_held hfirst hlast hpayload hsocket rfl rfl
    hleft
  refine ⟨_, .single (a := .streamingPieceReady (neededPiece stream c)
    (pieceContent stream.info payload (neededPiece stream c)) "" [freeTurn]) (fun _ _ _ => rfl) rfl, ?_⟩
  rw [step, StreamConnection.streamingPieceReady, if_neg (not_not.mpr hwaiting)]
  simp only [if_neg (show ¬ ("" ≠ "" ∨ pieceContent stream.info payload (neededPiece stream c) = []) by
    simp [hne])]
  exact hpump

/-- A connection that is not cut off goes on. -/
theorem Sending.exists_next (h : Sending stream payload head first last c) (hfirst : 0 ≤ first)
    (hlast : last < stream.file.size)
    (hpayload : stream.file.offset + stream.file.size ≤ payload.length)
    (hsocket : c.socket = .connected) (hleft : c.position ≤ last) :
    ∃ d, (system qt).Steps (Delivers stream.info payload) c d ∧ c.position < d.position ∧
      (d.socket = .connected ∨ d.body = false) := by
  cases hwaiting : c.waitingPiece with
  | some piece => exact h.exists_received qt hfirst hlast hpayload hsocket hwaiting hleft
  | none =>
    have hpump : (system qt).Steps (Delivers stream.info payload) c (c.pump [freeTurn]) :=
      .single (a := .bytesWritten [freeTurn]) trivial rfl
    by_cases hpiece : c.piece = some (neededPiece stream c)
    · exact ⟨_, hpump, h.pump_held hfirst hlast hpayload hsocket hwaiting hpiece hleft⟩
    · rw [h.pump_missing hsocket hwaiting hpiece hleft] at hpump
      obtain ⟨d, hsteps, hd⟩ := h.requestPiece.exists_received qt hfirst hlast hpayload hsocket rfl
        hleft
      exact ⟨d, hpump.trans hsteps, hd⟩

/-- A connection that is not cut off can go on until everything is written. -/
theorem exists_complete (h : Sending stream payload head first last c ∧ Unfinished last c)
    (hfirst : 0 ≤ first) (hlast : last < stream.file.size)
    (hpayload : stream.file.offset + stream.file.size ≤ payload.length)
    (hsocket : c.socket = .connected ∨ c.body = false) :
    ∃ d, (system qt).Steps (Delivers stream.info payload) c d ∧ d.body = false ∧
      d.position = last + 1 := by
  induction hrest : (last + 1 - c.position).toNat using Nat.strong_induction_on generalizing c with
  | _ rest ih =>
    by_cases hbody : c.body = false
    · exact ⟨c, .refl, hbody, h.1.done hbody⟩
    have hconnected := hsocket.resolve_right hbody
    have hleft := h.2 hconnected
    obtain ⟨d, hsteps, hmore, hclosed⟩ := h.1.exists_next qt hfirst hlast hpayload hconnected hleft
    have hd := sending_steps hfirst hlast h hsteps
    obtain ⟨e, hsteps', he⟩ := ih (last + 1 - d.position).toNat (by omega) hd hclosed rfl
    exact ⟨e, hsteps.trans hsteps', he⟩

end Sending

end StreamConnection

end Qbutt.Streaming
