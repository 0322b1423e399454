import Qbutt.Streaming.Equiv.Deadlines
import Qbutt.Streaming.Equiv.Reads

/-!
# Streaming reads over whole runs

In every run of consumers, library and user: few reads are under way and no piece is read twice at a time,
only verified pieces are read, no verified pending piece waits while there is room, a piece that a waiting
consumer needs stays pending until the consumer hears of it, and the deadlines in force are those of the
urgent ranges (`streaming_reads_bounded`).
-/

namespace Qbutt.Streaming

open Option List

variable (info : TorrentInfo) (hash : HashOrder) {t t' : Torrent}

namespace Torrent

/-! ### What `applyPiecePriorities` keeps -/

/-- `applyPiecePriorities` forgets verified pieces outside of the ranges, and otherwise works on the
priorities and deadlines only. -/
theorem applyPiecePriorities_eq (refreshDeadlines : Bool) (t : Torrent) :
    ∃ verified deadlines native, applyPiecePriorities info refreshDeadlines t =
        { t with verifiedStreamingPieces := verified, streamingDeadlines := deadlines, native := native } ∧
      verified ⊆ t.verifiedStreamingPieces ∧ native.reads = t.native.reads ∧
      native.issued = t.native.issued := by
  unfold applyPiecePriorities
  by_cases hmetadata : (!t.hasMetadata) = true
  · rw [if_pos hmetadata]
    exact ⟨t.verifiedStreamingPieces, t.streamingDeadlines, t.native, rfl, subset_rfl, rfl, rfl⟩
  · rw [if_neg hmetadata]
    exact ⟨_, _, _, rfl, Finset.inter_subset_left, rfl, rfl⟩

@[simp] theorem pending_applyPiecePriorities (refreshDeadlines : Bool) (t : Torrent) :
    (applyPiecePriorities info refreshDeadlines t).pendingStreamingReads = t.pendingStreamingReads := by
  obtain ⟨verified, deadlines, native, heq, -⟩ := applyPiecePriorities_eq info refreshDeadlines t
  rw [heq]

@[simp] theorem ranges_applyPiecePriorities (refreshDeadlines : Bool) (t : Torrent) :
    (applyPiecePriorities info refreshDeadlines t).streamingRanges = t.streamingRanges := by
  obtain ⟨verified, deadlines, native, heq, -⟩ := applyPiecePriorities_eq info refreshDeadlines t
  rw [heq]

theorem Bounded.applyPiecePriorities (h : t.Bounded) (refreshDeadlines : Bool) :
    (applyPiecePriorities info refreshDeadlines t).Bounded := by
  obtain ⟨verified, deadlines, native, heq, -, hreads, hissued⟩ :=
    applyPiecePriorities_eq info refreshDeadlines t
  rw [heq]
  constructor
  · show native.reads.Nodup
    rw [hreads]
    exact h.nodup
  · show ∀ piece, piece ∈ native.reads ↔ _
    rw [hreads]
    exact h.mem_iff
  · exact h.card_le
  · show ∀ read ∈ native.issued, _
    rw [hissued]
    exact h.issued

theorem Served.mono (h : t.Served) (hpending : t'.pendingStreamingReads ⊆ t.pendingStreamingReads)
    (hverified : ∀ piece, t'.isVerified piece = true → t.isVerified piece = true)
    (hreads : t'.streamingReads = t.streamingReads) : t'.Served := by
  intro piece hpiece hisVerified
  rw [hreads]
  exact h piece (hpending hpiece) (hverified piece hisVerified)

theorem Served.applyPiecePriorities (h : t.Served) (refreshDeadlines : Bool) :
    (applyPiecePriorities info refreshDeadlines t).Served := by
  obtain ⟨verified, deadlines, native, heq, hsubset, -⟩ :=
    applyPiecePriorities_eq info refreshDeadlines t
  rw [heq]
  refine h.mono subset_rfl (fun piece hpiece => ?_) rfl
  simp only [isVerified, Bool.or_eq_true, decide_eq_true_eq] at hpiece ⊢
  exact hpiece.imp_left fun hmem => hsubset hmem

theorem Deadlined.congr (h : Deadlined info t) (hranges : t'.streamingRanges = t.streamingRanges)
    (hdeadlines : t'.streamingDeadlines = t.streamingDeadlines)
    (hnative : t'.native.deadlines = t.native.deadlines)
    (hmetadata : t'.hasMetadata = t.hasMetadata) :
    Deadlined info t' where
  recorded := by
    rw [hranges, hdeadlines]
    exact h.recorded
  inForce := by
    rw [hnative, hdeadlines]
    exact h.inForce
  metadata := by
    rw [hranges, hmetadata]
    exact h.metadata

theorem Deadlined.dispatch (h : Deadlined info t) :
    Deadlined info (dispatchStreamingReads hash t) := by
  obtain ⟨started, heq, -⟩ := dispatch_spec hash t
  rw [heq]
  exact h.congr info rfl rfl rfl rfl

/-- Without metadata there are no ranges, and nothing has to be done. -/
theorem Deadlined.applyPiecePriorities (h : Deadlined info t)
    (hdeadlines : t'.streamingDeadlines = t.streamingDeadlines)
    (hnative : t'.native.deadlines = t.native.deadlines)
    (hmetadata : t'.hasMetadata = t.hasMetadata)
    (hranges : t.hasMetadata = false → t'.streamingRanges = t.streamingRanges)
    (refreshDeadlines : Bool) : Deadlined info (applyPiecePriorities info refreshDeadlines t') := by
  cases hhas : t.hasMetadata with
  | true =>
    refine deadlined_applyPiecePriorities info (hmetadata.trans hhas) ?_
    rw [hdeadlines, hnative]
    exact h.follows info refreshDeadlines
  | false =>
    have hguard : (!t'.hasMetadata) = true := by rw [hmetadata, hhas]; rfl
    unfold Torrent.applyPiecePriorities
    rw [if_pos hguard]
    exact h.congr info (hranges hhas) hdeadlines hnative hmetadata

theorem get_foldl_delete (deadlines : InsertionMap ℕ ℕ) (dropped : List ℕ) (piece : ℕ) :
    (dropped.foldl InsertionMap.delete deadlines).get piece =
      if piece ∈ dropped then none else deadlines.get piece := by
  induction dropped generalizing deadlines with
  | nil => simp
  | cons first dropped ih =>
    rw [foldl_cons, ih, InsertionMap.get_delete]
    by_cases hfirst : piece = first
    · simp [hfirst]
    · simp [hfirst]

theorem Deadlined.refresh (h : Deadlined info t) (dropped : List ℕ) :
    Deadlined info (Torrent.applyPiecePriorities info true { t with native := { t.native with
      deadlines := dropped.foldl InsertionMap.delete t.native.deadlines } }) := by
  by_cases hmetadata : t.hasMetadata = true
  · refine deadlined_applyPiecePriorities info hmetadata fun piece => ?_
    show (dropped.foldl InsertionMap.delete t.native.deadlines).get piece = _ ∨ _ ∧
      (dropped.foldl InsertionMap.delete t.native.deadlines).get piece = none
    rw [get_foldl_delete]
    by_cases hdropped : piece ∈ dropped
    · exact .inr ⟨rfl, if_pos hdropped⟩
    · exact .inl ((if_neg hdropped).trans (h.inForce piece))
  · have hfalse := Bool.eq_false_of_not_eq_true hmetadata
    have hnone : ∀ piece, t.streamingDeadlines.get piece = none := by
      intro piece
      refine eq_none_iff_forall_ne_some.mpr fun deadline hget => ?_
      obtain ⟨⟨range, hrange, -⟩, -⟩ := (h.recorded piece deadline).mp hget
      rw [h.metadata hfalse] at hrange
      exact not_mem_nil hrange
    have hguard : (!t.hasMetadata) = true := by rw [hfalse]; rfl
    unfold Torrent.applyPiecePriorities
    rw [if_pos hguard]
    refine ⟨h.recorded, fun piece => ?_, h.metadata⟩
    show (dropped.foldl InsertionMap.delete t.native.deadlines).get piece = t.streamingDeadlines.get piece
    rw [get_foldl_delete, h.inForce piece, hnone piece, ite_self]

/-! ### What each operation keeps -/

/-- The invariants of a torrent between two steps; while it answers a read, verified pieces may wait. -/
structure Sound (t : Torrent) : Prop where
  bounded : t.Bounded
  deadlined : Deadlined info t

theorem Sound.dispatch (h : t.Sound info) : (dispatchStreamingReads hash t).Sound info :=
  ⟨h.bounded.dispatch hash, h.deadlined.dispatch info hash⟩

theorem served_dispatch (t : Torrent) : (dispatchStreamingReads hash t).Served := by
  obtain ⟨started, -, -, hserved⟩ := dispatch_spec hash t
  exact hserved

@[simp] theorem pending_dispatch (t : Torrent) :
    (dispatchStreamingReads hash t).pendingStreamingReads = t.pendingStreamingReads := by
  obtain ⟨started, heq, -⟩ := dispatch_spec hash t
  rw [heq]
  rfl

@[simp] theorem ranges_dispatch (t : Torrent) :
    (dispatchStreamingReads hash t).streamingRanges = t.streamingRanges := by
  obtain ⟨started, heq, -⟩ := dispatch_spec hash t
  rw [heq]
  rfl

theorem setStreamingRange_cases (t : Torrent) (consumer : ℕ) (fileIndex offset length : ℤ)
    (urgent : Bool) :
    t.setStreamingRange info consumer fileIndex offset length urgent = t ∨
      t.hasMetadata = true ∧ ∃ range,
        t.setStreamingRange info consumer fileIndex offset length urgent =
          applyPiecePriorities info false
            { t with streamingRanges := t.streamingRanges.set consumer range } := by
  unfold setStreamingRange
  by_cases hmetadata : (!t.hasMetadata || decide (fileIndex < 0)) = true
  · exact .inl (if_pos hmetadata)
  · rw [if_neg hmetadata]
    have hhas : t.hasMetadata = true := by
      by_contra hnone
      exact hmetadata (by simp [hnone])
    cases info.files[fileIndex.toNat]? with
    | none => exact .inl rfl
    | some file =>
      by_cases hrefused : (decide (offset < 0) || decide (length ≤ 0) || decide ((file.size : ℤ) ≤ offset) ||
          t.hasExclusiveFileOperation || t.isChecking) = true
      · exact .inl (if_pos hrefused)
      · simp only [if_neg hrefused]
        by_cases hsame : t.streamingRanges.get consumer =
            some (streamingRange info file offset.toNat length.toNat urgent)
        · exact .inl (if_pos hsame)
        · exact .inr ⟨hhas, _, if_neg hsame⟩

theorem Sound.setStreamingRange (h : t.Sound info) (consumer : ℕ) (fileIndex offset length : ℤ)
    (urgent : Bool) :
    (t.setStreamingRange info consumer fileIndex offset length urgent).Sound info ∧
      (t.Served → (t.setStreamingRange info consumer fileIndex offset length urgent).Served) := by
  rcases setStreamingRange_cases info t consumer fileIndex offset length urgent with
    heq | ⟨hmetadata, range, heq⟩
  · rw [heq]
    exact ⟨h, id⟩
  · rw [heq]
    have hbounded : ({ t with streamingRanges := t.streamingRanges.set consumer range } :
        Torrent).Bounded := ⟨h.bounded.nodup, h.bounded.mem_iff, h.bounded.card_le, h.bounded.issued⟩
    refine ⟨⟨hbounded.applyPiecePriorities info false, ?_⟩, fun hserved => ?_⟩
    · refine h.deadlined.applyPiecePriorities info ?_ ?_ ?_ (fun hnone => ?_) false
      · rfl
      · rfl
      · rfl
      · rw [hmetadata] at hnone
        exact absurd hnone.symm Bool.false_ne_true
    · exact Served.applyPiecePriorities info (t := { t with
        streamingRanges := t.streamingRanges.set consumer range }) hserved false

/-- `clearStreamingRange` forgets a range and the pending pieces that no other range contains, or changes
nothing. -/
theorem clearStreamingRange_cases (t : Torrent) (consumer : ℕ) :
    (t.streamingRanges.get consumer = none ∧ t.clearStreamingRange info consumer = t) ∨
      ∃ range, t.streamingRanges.get consumer = some range ∧ t.clearStreamingRange info consumer =
        { applyPiecePriorities info false
            { t with streamingRanges := t.streamingRanges.delete consumer } with
          pendingStreamingReads := t.pendingStreamingReads.filter fun piece =>
            (t.streamingRanges.delete consumer).values.any fun range => range.has piece } := by
  unfold clearStreamingRange
  cases hget : t.streamingRanges.get consumer with
  | none => exact .inl ⟨rfl, if_pos rfl⟩
  | some range =>
    refine .inr ⟨range, rfl, ?_⟩
    rw [if_neg (by simp)]
    simp only [isWanted, pending_applyPiecePriorities, ranges_applyPiecePriorities]

theorem Sound.clearStreamingRange (h : t.Sound info) (consumer : ℕ) :
    (t.clearStreamingRange info consumer).Sound info ∧
      (t.Served → (t.clearStreamingRange info consumer).Served) := by
  rcases clearStreamingRange_cases info t consumer with ⟨-, heq⟩ | ⟨range, hget, heq⟩
  · rw [heq]
    exact ⟨h, id⟩
  · rw [heq]
    have hdeleted : ({ t with streamingRanges := t.streamingRanges.delete consumer } :
        Torrent).Bounded := ⟨h.bounded.nodup, h.bounded.mem_iff, h.bounded.card_le, h.bounded.issued⟩
    have hbounded := hdeleted.applyPiecePriorities info false
    have hdeadlined : Deadlined info (applyPiecePriorities info false
        { t with streamingRanges := t.streamingRanges.delete consumer }) := by
      refine h.deadlined.applyPiecePriorities info ?_ ?_ ?_ (fun hnone => ?_) false
      · rfl
      · rfl
      · rfl
      · rw [h.deadlined.metadata hnone] at hget
        exact absurd hget.symm (some_ne_none range)
    refine ⟨⟨{ hbounded with },
      hdeadlined.congr info rfl rfl rfl rfl⟩, fun hserved => ?_⟩
    have hserved' := Served.applyPiecePriorities info (t := { t with
      streamingRanges := t.streamingRanges.delete consumer }) hserved false
    refine hserved'.mono ?_ (fun _ hverified => hverified) rfl
    rw [pending_applyPiecePriorities]
    exact Finset.filter_subset _ _

theorem requestStreamingPiece_cases (t : Torrent) (piece : ℤ) :
    t.requestStreamingPiece info hash piece = t ∨
      t.requestStreamingPiece info hash piece = dispatchStreamingReads hash
        { t with pendingStreamingReads := insert piece.toNat t.pendingStreamingReads } := by
  unfold requestStreamingPiece
  by_cases hrefused : (decide (piece < 0) || decide ((info.piecesCount : ℤ) ≤ piece) ||
      t.hasExclusiveFileOperation || t.isChecking) = true
  · exact .inl (if_pos hrefused)
  · exact .inr (if_neg hrefused)

theorem Sound.requestStreamingPiece (h : t.Sound info) (piece : ℤ) :
    (t.requestStreamingPiece info hash piece).Sound info ∧
      (t.Served → (t.requestStreamingPiece info hash piece).Served) := by
  rcases requestStreamingPiece_cases info hash t piece with heq | heq
  · rw [heq]
    exact ⟨h, id⟩
  · rw [heq]
    have hadded : ({ t with pendingStreamingReads := insert piece.toNat t.pendingStreamingReads } :
        Torrent).Sound info :=
      ⟨⟨h.bounded.nodup, h.bounded.mem_iff, h.bounded.card_le, h.bounded.issued⟩,
        h.deadlined.congr info rfl rfl rfl rfl⟩
    exact ⟨hadded.dispatch info hash, fun _ => served_dispatch hash _⟩

/-- `stopStreaming` forgets all ranges and pending pieces, or changes nothing. -/
theorem stopStreaming_cases (t : Torrent) :
    (t.streamingLeases = 0 ∧ t.stopStreaming info = t) ∨
      (t.streamingLeases ≠ 0 ∧ t.stopStreaming info = applyPiecePriorities info false
        { t with
          streamingRanges := InsertionMap.empty
          pendingStreamingReads := ∅ }) := by
  unfold stopStreaming
  by_cases hleases : t.streamingLeases = 0
  · exact .inl ⟨hleases, if_pos hleases⟩
  · exact .inr ⟨hleases, if_neg hleases⟩

theorem Sound.stopStreaming (h : t.Sound info) :
    (t.stopStreaming info).Sound info ∧ (t.Served → (t.stopStreaming info).Served) := by
  rcases stopStreaming_cases info t with ⟨-, heq⟩ | ⟨-, heq⟩
  · rw [heq]
    exact ⟨h, id⟩
  · rw [heq]
    have hbounded : ({ t with
        streamingRanges := InsertionMap.empty
        pendingStreamingReads := ∅ } : Torrent).Bounded :=
      ⟨h.bounded.nodup, h.bounded.mem_iff, h.bounded.card_le, h.bounded.issued⟩
    refine ⟨⟨hbounded.applyPiecePriorities info false, ?_⟩, fun _ piece hpiece => ?_⟩
    · refine h.deadlined.applyPiecePriorities info ?_ ?_ ?_ (fun hnone => ?_) false
      · rfl
      · rfl
      · rfl
      · exact (h.deadlined.metadata hnone).symm
    · rw [pending_applyPiecePriorities] at hpiece
      exact absurd hpiece (Finset.notMem_empty piece)

end Torrent

def ConsumerCall.Moves (consumer : ℕ) : ConsumerCall → Prop
  | .setStreamingRange other _ _ _ _ => other = consumer
  | .clearStreamingRange other => other = consumer
  | .requestStreamingPiece _ _ => False

variable {consumer piece : ℕ} {s s' : Session}

namespace Session

/-! ### Invariants of consumers -/

/-- The invariants between two calls; each waiting consumer keeps its range around the piece. -/
structure Sound (s : Session) : Prop where
  torrent : s.torrent.Sound info
  kept : ∀ consumer piece, s.waiting consumer = some piece →
    ∃ range, s.torrent.streamingRanges.get consumer = some range ∧ range.has piece = true

theorem ranges_setStreamingRange (t : Torrent) {other : ℕ} (hother : other ≠ consumer)
    (fileIndex offset length : ℤ) (urgent : Bool) :
    (t.setStreamingRange info consumer fileIndex offset length urgent).streamingRanges.get other =
      t.streamingRanges.get other := by
  rcases Torrent.setStreamingRange_cases info t consumer fileIndex offset length urgent with
    heq | ⟨-, range, heq⟩
  · rw [heq]
  · rw [heq, Torrent.ranges_applyPiecePriorities, InsertionMap.get_set, if_neg hother]

theorem ranges_clearStreamingRange (t : Torrent) {other : ℕ} (hother : other ≠ consumer) :
    (t.clearStreamingRange info consumer).streamingRanges.get other = t.streamingRanges.get other := by
  rcases Torrent.clearStreamingRange_cases info t consumer with ⟨-, heq⟩ | ⟨range, -, heq⟩
  · rw [heq]
  · rw [heq, Torrent.ranges_applyPiecePriorities, InsertionMap.get_delete, if_neg hother]

theorem ranges_requestStreamingPiece (t : Torrent) (piece : ℤ) :
    (t.requestStreamingPiece info hash piece).streamingRanges = t.streamingRanges := by
  rcases Torrent.requestStreamingPiece_cases info hash t piece with heq | heq
  · rw [heq]
  · rw [heq, Torrent.ranges_dispatch]

variable {c : ConsumerCall} {range : StreamingRange}

theorem Sound.consumerStep (h : s.Sound info) (hstep : s.consumerStep info hash c = some s') :
    s'.Sound info ∧ (s.torrent.Served → s'.torrent.Served) := by
  cases c with
  | setStreamingRange consumer fileIndex offset length urgent =>
    obtain ⟨hidle, hs'⟩ := ite_none_right_eq_some.mp hstep
    obtain ⟨hsound, hserved⟩ :=
      h.torrent.setStreamingRange info consumer fileIndex offset length urgent
    rw [Option.some.injEq] at hs'
    rw [← hs']
    refine ⟨⟨hsound, fun other piece hwaiting => ?_⟩, hserved⟩
    have hother : other ≠ consumer := by
      rintro rfl
      rw [hidle] at hwaiting
      exact some_ne_none piece hwaiting.symm
    show ∃ range, (Torrent.setStreamingRange ..).streamingRanges.get other = _ ∧ _
    rw [ranges_setStreamingRange info s.torrent hother]
    exact h.kept other piece hwaiting
  | clearStreamingRange consumer =>
    obtain ⟨hsound, hserved⟩ := h.torrent.clearStreamingRange info consumer
    rw [← Option.some.inj hstep]
    refine ⟨⟨hsound, fun other piece hwaiting => ?_⟩, hserved⟩
    have hother : other ≠ consumer := by
      rintro rfl
      simp at hwaiting
    change Function.update s.waiting consumer none other = some piece at hwaiting
    rw [Function.update_of_ne hother] at hwaiting
    show ∃ range, (Torrent.clearStreamingRange ..).streamingRanges.get other = _ ∧ _
    rw [ranges_clearStreamingRange info s.torrent hother]
    exact h.kept other piece hwaiting
  | requestStreamingPiece consumer piece =>
    obtain ⟨⟨hidle, hrange⟩, hs'⟩ := ite_none_right_eq_some.mp hstep
    obtain ⟨hsound, hserved⟩ := h.torrent.requestStreamingPiece info hash piece
    rw [Option.some.injEq] at hs'
    rw [← hs']
    refine ⟨⟨hsound, fun other piece' hwaiting => ?_⟩, hserved⟩
    show ∃ range, (Torrent.requestStreamingPiece ..).streamingRanges.get other = _ ∧ _
    rw [ranges_requestStreamingPiece]
    change Function.update s.waiting consumer (some piece) other = some piece' at hwaiting
    by_cases hother : other = consumer
    · rw [hother, Function.update_self, Option.some.injEq] at hwaiting
      rw [hother, ← hwaiting]
      exact (any_eq_true _ _).mp hrange
    · rw [Function.update_of_ne hother] at hwaiting
      exact h.kept other piece' hwaiting

/-- The step lemma for a consumer that keeps its range: a pending piece of the range stays pending. -/
theorem consumerStep_held (hstep : s.consumerStep info hash c = some s')
    (hrange : s.torrent.streamingRanges.get consumer = some range) (hhas : range.has piece = true)
    (hpending : piece ∈ s.torrent.pendingStreamingReads) (hnot : ¬c.Moves consumer) :
    s'.torrent.streamingRanges.get consumer = some range ∧
      piece ∈ s'.torrent.pendingStreamingReads := by
  cases c with
  | setStreamingRange other fileIndex offset length urgent =>
    have hother : consumer ≠ other := fun heq => hnot heq.symm
    obtain ⟨-, hs'⟩ := ite_none_right_eq_some.mp hstep
    rw [Option.some.injEq] at hs'
    rw [← hs']
    refine ⟨(ranges_setStreamingRange info s.torrent hother ..).trans hrange, ?_⟩
    show piece ∈ (Torrent.setStreamingRange ..).pendingStreamingReads
    rcases Torrent.setStreamingRange_cases info s.torrent other fileIndex offset length urgent with
      heq | ⟨-, range, heq⟩
    · rw [heq]
      exact hpending
    · rw [heq, Torrent.pending_applyPiecePriorities]
      exact hpending
  | clearStreamingRange other =>
    have hother : consumer ≠ other := fun heq => hnot heq.symm
    rw [← Option.some.inj hstep]
    refine ⟨(ranges_clearStreamingRange info s.torrent hother).trans hrange, ?_⟩
    show piece ∈ (Torrent.clearStreamingRange ..).pendingStreamingReads
    rcases Torrent.clearStreamingRange_cases info s.torrent other with ⟨-, heq⟩ | ⟨-, -, heq⟩
    · rw [heq]
      exact hpending
    · rw [heq]
      -- The range of the consumer is still there, so the piece is needed.
      refine Finset.mem_filter.mpr ⟨hpending, any_eq_true.mpr ⟨range, ?_, hhas⟩⟩
      refine InsertionMap.mem_values.mpr ⟨consumer, ?_⟩
      rw [InsertionMap.get_delete, if_neg hother]
      exact hrange
  | requestStreamingPiece other piece' =>
    obtain ⟨-, hs'⟩ := ite_none_right_eq_some.mp hstep
    rw [Option.some.injEq] at hs'
    rw [← hs']
    show (Torrent.requestStreamingPiece ..).streamingRanges.get consumer = _ ∧
      piece ∈ (Torrent.requestStreamingPiece ..).pendingStreamingReads
    rw [ranges_requestStreamingPiece]
    refine ⟨hrange, ?_⟩
    rcases Torrent.requestStreamingPiece_cases info hash s.torrent piece' with heq | heq
    · rw [heq]
      exact hpending
    · rw [heq, Torrent.pending_dispatch]
      exact Finset.mem_insert_of_mem hpending

/-- A consumer that waits keeps its range and goes on waiting, unless it clears the range. -/
theorem consumerStep_still (hstep : s.consumerStep info hash c = some s')
    (hwaiting : s.waiting consumer ≠ none) (hclear : c ≠ .clearStreamingRange consumer) :
    ¬c.Moves consumer ∧ s'.waiting consumer = s.waiting consumer := by
  cases c with
  | setStreamingRange other fileIndex offset length urgent =>
    obtain ⟨hidle, hs'⟩ := ite_none_right_eq_some.mp hstep
    rw [Option.some.injEq] at hs'
    rw [← hs']
    refine ⟨fun heq => hwaiting ?_, rfl⟩
    have hsame : other = consumer := heq
    rw [← hsame]
    exact hidle
  | clearStreamingRange other =>
    have hother : consumer ≠ other := by
      rintro rfl
      exact hclear rfl
    rw [← Option.some.inj hstep]
    exact ⟨fun heq => hother heq.symm, Function.update_of_ne hother _ _⟩
  | requestStreamingPiece other piece =>
    obtain ⟨⟨hidle, -⟩, hs'⟩ := ite_none_right_eq_some.mp hstep
    rw [Option.some.injEq] at hs'
    have hother : consumer ≠ other := by
      rintro rfl
      exact hwaiting hidle
    rw [← hs']
    exact ⟨fun hfalse => hfalse, Function.update_of_ne hother _ _⟩

variable {calls : List ConsumerCall}

/-- The run lemma of consumers. -/
theorem Sound.consumerSteps (h : s.Sound info)
    (hsteps : s.consumerSteps info hash calls = some s') :
    s'.Sound info ∧ (s.torrent.Served → s'.torrent.Served) := by
  induction calls generalizing s with
  | nil =>
    rw [← Option.some.inj hsteps]
    exact ⟨h, id⟩
  | cons c calls ih =>
    unfold Session.consumerSteps at hsteps
    rw [foldlM_cons] at hsteps
    obtain ⟨next, hstep, hrest⟩ := bind_eq_some_iff.mp hsteps
    obtain ⟨hnext, hserved⟩ := h.consumerStep info hash hstep
    obtain ⟨hlast, hserved'⟩ := ih hnext hrest
    exact ⟨hlast, fun hs => hserved' (hserved hs)⟩

theorem consumerSteps_held (hsteps : s.consumerSteps info hash calls = some s')
    (hrange : s.torrent.streamingRanges.get consumer = some range) (hhas : range.has piece = true)
    (hpending : piece ∈ s.torrent.pendingStreamingReads) (hnot : ∀ c ∈ calls, ¬c.Moves consumer) :
    piece ∈ s'.torrent.pendingStreamingReads := by
  induction calls generalizing s with
  | nil =>
    rw [← Option.some.inj hsteps]
    exact hpending
  | cons c calls ih =>
    unfold Session.consumerSteps at hsteps
    rw [foldlM_cons] at hsteps
    obtain ⟨next, hstep, hrest⟩ := bind_eq_some_iff.mp hsteps
    obtain ⟨hrange', hpending'⟩ := consumerStep_held info hash hstep hrange hhas hpending
      (hnot c (mem_cons_self ..))
    exact ih hrest hrange' hpending' fun c' hc' => hnot c' (mem_cons_of_mem _ hc')

theorem consumerSteps_still (hsteps : s.consumerSteps info hash calls = some s')
    (hwaiting : s.waiting consumer ≠ none) (hclear : .clearStreamingRange consumer ∉ calls) :
    ∀ c ∈ calls, ¬c.Moves consumer := by
  induction calls generalizing s with
  | nil => exact fun c hc => (not_mem_nil hc).elim
  | cons c calls ih =>
    unfold Session.consumerSteps at hsteps
    rw [foldlM_cons] at hsteps
    obtain ⟨next, hstep, hrest⟩ := bind_eq_some_iff.mp hsteps
    rw [mem_cons, not_or] at hclear
    obtain ⟨hstill, hwaiting'⟩ := consumerStep_still info hash hstep hwaiting (Ne.symm hclear.1)
    intro c' hc'
    rcases mem_cons.mp hc' with rfl | hc'
    · exact hstill
    · exact ih hrest (by rw [hwaiting']; exact hwaiting) hclear.2 c' hc'

/-- An answer to a read, up to the calls that the consumers make at once. -/
theorem Sound.take (h : s.Sound info)
    (htake : Torrent.takeStreamingPiece { s.torrent with native := { s.torrent.native with
      reads := s.torrent.native.reads.erase piece } } piece = some t) :
    Sound info { torrent := t, waiting := emitPiece s.waiting piece } ∧
      t.pendingStreamingReads = s.torrent.pendingStreamingReads.erase piece ∧
      t.streamingRanges = s.torrent.streamingRanges := by
  have hbounded := h.torrent.bounded.take htake
  unfold Torrent.takeStreamingPiece at htake
  obtain ⟨-, ht⟩ := ite_none_right_eq_some.mp htake
  rw [Option.some.injEq] at ht
  rw [← ht] at hbounded ⊢
  refine ⟨⟨⟨hbounded, h.torrent.deadlined.congr info rfl rfl rfl rfl⟩, fun consumer other hwaiting => ?_⟩,
    rfl, rfl⟩
  refine h.kept consumer other ?_
  change (if s.waiting consumer = some piece then none else s.waiting consumer) = some other at hwaiting
  by_cases hheard : s.waiting consumer = some piece
  · rw [if_pos hheard] at hwaiting
    exact absurd hwaiting.symm (some_ne_none other)
  · rw [if_neg hheard] at hwaiting
    exact hwaiting

end Session

/-! ### Steps -/

def Label.calls : Label → List ConsumerCall
  | .call c => [c]
  | .readCompleted _ reactions => reactions
  | _ => []

namespace Session

/-- A pending piece in the range of a waiting consumer leaves the pending set only where the piece is
delivered or streaming stops, or where the consumer clears its range or has just got what it waits for and
moves on. -/
def Keeps (label : Label) (s s' : Session) : Prop :=
  ∀ consumer range piece, s.waiting consumer ≠ none →
    s.torrent.streamingRanges.get consumer = some range → range.has piece = true →
    piece ∈ s.torrent.pendingStreamingReads → piece ∉ s'.torrent.pendingStreamingReads →
      (∃ reactions, label = .readCompleted piece reactions) ∨ label = .stopStreaming ∨
        label = .doForceRecheck ∨ .clearStreamingRange consumer ∈ label.calls ∨
        ∃ heard reactions, label = .readCompleted heard reactions ∧ s.waiting consumer = some heard ∧
          ∃ c ∈ reactions, c.Moves consumer

theorem keeps_of_eq {label : Label}
    (h : s'.torrent.pendingStreamingReads = s.torrent.pendingStreamingReads) : Keeps label s s' :=
  fun _ _ _ _ _ _ hpending hgone => absurd (h.ge hpending) hgone

/-- The invariants after a step in which the consumers did nothing. -/
theorem Sound.withTorrent (h : s.Sound info) (ht : t.Sound info)
    (hranges : t.streamingRanges = s.torrent.streamingRanges) :
    Sound info { s with torrent := t } where
  torrent := ht
  kept := by
    rw [hranges]
    exact h.kept

theorem Torrent.Sound.congr (h : t.Sound info) (hreads : t'.native.reads = t.native.reads)
    (hissued : t'.native.issued = t.native.issued)
    (hstreaming : t'.streamingReads = t.streamingReads)
    (hranges : t'.streamingRanges = t.streamingRanges)
    (hdeadlines : t'.streamingDeadlines = t.streamingDeadlines)
    (hnative : t'.native.deadlines = t.native.deadlines)
    (hmetadata : t'.hasMetadata = t.hasMetadata) :
    t'.Sound info where
  bounded :=
    { nodup := by rw [hreads]; exact h.bounded.nodup
      mem_iff := by rw [hreads, hstreaming]; exact h.bounded.mem_iff
      card_le := by rw [hstreaming]; exact h.bounded.card_le
      issued := by rw [hissued]; exact h.bounded.issued }
  deadlined := h.deadlined.congr info hranges hdeadlines hnative hmetadata

theorem Sound.stopStreaming (h : s.Sound info) :
    Sound info { torrent := s.torrent.stopStreaming info, waiting := s.emitStopped } ∧
      (s.torrent.Served → (s.torrent.stopStreaming info).Served) := by
  obtain ⟨hsound, hserved⟩ := h.torrent.stopStreaming info
  refine ⟨⟨hsound, fun consumer piece hwaiting => ?_⟩, hserved⟩
  change s.emitStopped consumer = some piece at hwaiting
  unfold emitStopped at hwaiting
  rcases Torrent.stopStreaming_cases info s.torrent with ⟨hleases, heq⟩ | ⟨hleases, -⟩
  · rw [if_pos hleases] at hwaiting
    show ∃ range, (s.torrent.stopStreaming info).streamingRanges.get consumer = _ ∧ _
    rw [heq]
    exact h.kept consumer piece hwaiting
  · rw [if_neg hleases] at hwaiting
    exact absurd hwaiting.symm (some_ne_none piece)

theorem readCompleted_sound {reactions : List ConsumerCall} (h : s.Sound info)
    (hstep : s.step info hash (.readCompleted piece reactions) = some s') :
    s'.Sound info ∧ s'.torrent.Served ∧ Keeps (.readCompleted piece reactions) s s' := by
  obtain ⟨hread, hs'⟩ := ite_none_right_eq_some.mp hstep
  cases htake : Torrent.takeStreamingPiece { s.torrent with native := { s.torrent.native with
      reads := s.torrent.native.reads.erase piece } } piece with
  | none =>
    -- The library answers only what the torrent waits for.
    unfold Torrent.takeStreamingPiece at htake
    rw [if_pos ((h.torrent.bounded.mem_iff piece).mp hread)] at htake
    exact absurd htake (some_ne_none _)
  | some t =>
    rw [htake] at hs'
    obtain ⟨last, hsteps, rfl⟩ := map_eq_some_iff.mp hs'
    obtain ⟨htaken, hpending, hranges⟩ := h.take info htake
    obtain ⟨hlast, -⟩ := htaken.consumerSteps info hash hsteps
    refine ⟨hlast.withTorrent info (hlast.torrent.dispatch info hash)
      (Torrent.ranges_dispatch hash _), Torrent.served_dispatch hash _, ?_⟩
    intro consumer range other hwaiting hrange hhas hother hgone
    rw [Torrent.pending_dispatch] at hgone
    by_cases hsame : other = piece
    · exact .inl ⟨reactions, by rw [hsame]⟩
    · have hthere : other ∈ t.pendingStreamingReads := by
        rw [hpending]
        exact Finset.mem_erase.mpr ⟨hsame, hother⟩
      have hmoved : ¬∀ c ∈ reactions, ¬c.Moves consumer := fun hnot =>
        hgone (consumerSteps_held info hash hsteps (hranges ▸ hrange) hhas hthere hnot)
      refine .inr (.inr (.inr ?_))
      by_cases hheard : s.waiting consumer = some piece
      · refine .inr ⟨piece, reactions, rfl, hheard, ?_⟩
        by_contra hnone
        exact hmoved fun c hc hmoves => hnone ⟨c, hc, hmoves⟩
      · refine .inl (by_contra fun hclear => hmoved ?_)
        refine consumerSteps_still info hash hsteps ?_ hclear
        show (if s.waiting consumer = some piece then none else s.waiting consumer) ≠ none
        rw [if_neg hheard]
        exact hwaiting

theorem step_sound {label : Label} (h : s.Sound info) (hserved : s.torrent.Served)
    (hstep : s.step info hash label = some s') :
    s'.Sound info ∧ s'.torrent.Served ∧ Keeps label s s' := by
  cases label with
  | call c =>
    obtain ⟨hsound, hserved'⟩ := h.consumerStep info hash hstep
    refine ⟨hsound, hserved' hserved,
      fun consumer range piece hwaiting hrange hhas hpending hgone => ?_⟩
    by_cases hclear : c = .clearStreamingRange consumer
    · exact .inr (.inr (.inr (.inl (mem_singleton.mpr hclear.symm))))
    · have hstill := (consumerStep_still info hash hstep hwaiting hclear).1
      exact absurd (consumerStep_held info hash hstep hrange hhas hpending hstill).2 hgone
  | pieceAvailable piece =>
    rw [← Option.some.inj hstep]
    unfold Torrent.handleStreamingPieceAvailable
    by_cases hrefused : (!s.torrent.isWanted piece || s.torrent.hasExclusiveFileOperation ||
        s.torrent.isChecking) = true
    · simp only [if_pos hrefused]
      exact ⟨h, hserved, keeps_of_eq rfl⟩
    · simp only [if_neg hrefused]
      refine ⟨h.withTorrent info (Torrent.Sound.dispatch info hash ?_) (Torrent.ranges_dispatch hash _),
        Torrent.served_dispatch hash _, keeps_of_eq ?_⟩
      · exact Torrent.Sound.congr info h.torrent rfl rfl rfl rfl rfl rfl rfl
      · exact Torrent.pending_dispatch hash _
  | updateStatus numPieces pieces checking =>
    rw [← Option.some.inj hstep]
    unfold Torrent.updateStatus
    have hstatus : Torrent.Sound info { s.torrent with
        numPieces := numPieces
        pieces := if numPieces ≠ s.torrent.numPieces then pieces else s.torrent.pieces } :=
      Torrent.Sound.congr info h.torrent rfl rfl rfl rfl rfl rfl rfl
    refine ⟨h.withTorrent info (Torrent.Sound.congr info (hstatus.dispatch info hash)
      rfl rfl rfl rfl rfl rfl rfl) (Torrent.ranges_dispatch hash _), ?_, keeps_of_eq ?_⟩
    · exact Torrent.served_dispatch hash _
    · exact Torrent.pending_dispatch hash _
  | setFirstLastPiecePriority enabled =>
    rw [← Option.some.inj hstep]
    unfold Torrent.setFirstLastPiecePriority
    by_cases hsame : s.torrent.hasFirstLastPiecePriority = enabled
    · simp only [if_pos hsame]
      exact ⟨h, hserved, keeps_of_eq rfl⟩
    · simp only [if_neg hsame]
      have hset : Torrent.Sound info { s.torrent with hasFirstLastPiecePriority := enabled } :=
        Torrent.Sound.congr info h.torrent rfl rfl rfl rfl rfl rfl rfl
      refine ⟨h.withTorrent info ⟨hset.bounded.applyPiecePriorities info false, ?_⟩
        (Torrent.ranges_applyPiecePriorities info false _), ?_, keeps_of_eq ?_⟩
      · exact hset.deadlined.applyPiecePriorities info rfl rfl rfl (fun _ => rfl) false
      · exact Torrent.Served.applyPiecePriorities info (t := { s.torrent with
          hasFirstLastPiecePriority := enabled }) hserved false
      · exact Torrent.pending_applyPiecePriorities info false _
  | prioritizeFiles priorities =>
    rw [← Option.some.inj hstep]
    unfold Torrent.prioritizeFiles
    by_cases hrefused : (s.torrent.hasExclusiveFileOperation || !s.torrent.hasMetadata) = true
    · simp only [if_pos hrefused]
      exact ⟨h, hserved, keeps_of_eq rfl⟩
    · simp only [if_neg hrefused]
      exact ⟨h.withTorrent info (Torrent.Sound.congr info h.torrent rfl rfl rfl rfl rfl rfl rfl) rfl,
        hserved, keeps_of_eq rfl⟩
  | filePrioritiesApplied dropped =>
    rw [← Option.some.inj hstep]
    have hdropped : Torrent.Bounded { s.torrent with
        native := { s.torrent.native with
          deadlines := dropped.foldl InsertionMap.delete s.torrent.native.deadlines } } :=
      ⟨h.torrent.bounded.nodup, h.torrent.bounded.mem_iff, h.torrent.bounded.card_le,
        h.torrent.bounded.issued⟩
    refine ⟨h.withTorrent info ⟨hdropped.applyPiecePriorities info true, ?_⟩
      (Torrent.ranges_applyPiecePriorities info true _), ?_, keeps_of_eq ?_⟩
    · exact h.torrent.deadlined.refresh info dropped
    · exact Torrent.Served.applyPiecePriorities info (t := { s.torrent with
        native := { s.torrent.native with
          deadlines := dropped.foldl InsertionMap.delete s.torrent.native.deadlines } }) hserved true
    · exact Torrent.pending_applyPiecePriorities info true _
  | setExclusiveFileOperation exclusive =>
    rw [← Option.some.inj hstep]
    exact ⟨h.withTorrent info (Torrent.Sound.congr info h.torrent rfl rfl rfl rfl rfl rfl rfl) rfl,
      hserved, keeps_of_eq rfl⟩
  | acquireStreamingLease =>
    rw [← Option.some.inj hstep]
    exact ⟨h.withTorrent info (Torrent.Sound.congr info h.torrent rfl rfl rfl rfl rfl rfl rfl) rfl,
      hserved, keeps_of_eq rfl⟩
  | releaseStreamingLease =>
    rw [← Option.some.inj hstep]
    exact ⟨h.withTorrent info (Torrent.Sound.congr info h.torrent rfl rfl rfl rfl rfl rfl rfl) rfl,
      hserved, keeps_of_eq rfl⟩
  | stopStreaming =>
    rw [← Option.some.inj hstep]
    obtain ⟨hsound, hserved'⟩ := h.stopStreaming info
    exact ⟨hsound, hserved' hserved, fun _ _ _ _ _ _ _ _ => .inr (.inl rfl)⟩
  | doForceRecheck =>
    rw [← Option.some.inj hstep]
    unfold Torrent.doForceRecheck
    cases hmetadata : s.torrent.hasMetadata with
    | false =>
      rw [if_pos (by rw [Bool.not_false]), if_neg Bool.false_ne_true]
      exact ⟨h, hserved, keeps_of_eq rfl⟩
    | true =>
      rw [if_neg (by rw [Bool.not_true]; exact Bool.false_ne_true), if_pos rfl]
      obtain ⟨hsound, hserved'⟩ := h.stopStreaming info
      refine ⟨hsound.withTorrent info (Torrent.Sound.congr info hsound.torrent rfl rfl rfl rfl rfl rfl rfl)
        rfl, ?_, fun _ _ _ _ _ _ _ _ => .inr (.inr (.inl rfl))⟩
      refine (hserved' hserved).mono subset_rfl (fun piece hverified => ?_) rfl
      have hnone : ((s.torrent.stopStreaming info).pieces.map fun _ => false).getD piece false = false := by
        rw [getD_eq_getElem?_getD, List.getElem?_map]
        cases (s.torrent.stopStreaming info).pieces[piece]? <;> rfl
      simp only [Torrent.isVerified, hnone, Bool.or_false] at hverified
      rw [Torrent.isVerified, hverified]
      rfl
  | readCompleted piece reactions => exact readCompleted_sound info hash h hstep

theorem sound_initial (h : s.IsInitial) : s.Sound info ∧ s.torrent.Served := by
  obtain ⟨hranges, hdeadlines, -, hpending, hreads, hnative, hnativeReads, hissued, hwaiting⟩ := h
  refine ⟨⟨⟨⟨?_, ?_, ?_, ?_⟩, ?_, ?_, ?_⟩, ?_⟩, ?_⟩
  · rw [hnativeReads]
    exact nodup_nil
  · intro piece
    rw [hnativeReads, hreads]
    simp
  · rw [hreads]
    exact Nat.zero_le _
  · rw [hissued]
    exact fun read hread => (not_mem_nil hread).elim
  · intro piece deadline
    rw [hdeadlines, hranges]
    constructor
    · exact fun hsome => absurd hsome.symm (some_ne_none deadline)
    · rintro ⟨⟨range, hrange, -⟩, -⟩
      exact (not_mem_nil hrange).elim
  · intro piece
    rw [hnative, hdeadlines]
  · exact fun _ => hranges
  · intro consumer piece hsome
    rw [hwaiting] at hsome
    exact absurd hsome.symm (some_ne_none piece)
  · intro piece hpiece
    rw [hpending] at hpiece
    exact absurd hpiece (Finset.notMem_empty piece)

/-- The run lemma. -/
theorem sound_of_reachable (h : (system info hash).Reachable (fun _ _ => True) s) :
    s.Sound info ∧ s.torrent.Served :=
  h.invariant (fun _ => sound_initial info) fun _ _ _ hsound _ hstep =>
    let ⟨hsound', hserved', _⟩ := step_sound info hash hsound.1 hsound.2 hstep
    ⟨hsound', hserved'⟩

/-- In every state of every run: few native reads are outstanding, no two of one piece; each read was
issued for a piece that was recorded as verified; each pending piece that is recorded as verified is being
read, or the limit is reached; the deadline in force for a piece is the least one that the urgent ranges
with the piece give it.  In every step from there, a pending piece in the range of a waiting consumer leaves
the pending set only where the piece is delivered or streaming stops, or where the consumer clears its range
or has just got what it waits for and moves on. -/
theorem streaming_reads_bounded {s : Session}
    (h : (system info hash).Reachable (fun _ _ => True) s) :
    s.torrent.native.reads.length ≤ MAX_STREAMING_READS ∧ s.torrent.native.reads.Nodup ∧
      (∀ read ∈ s.torrent.native.issued,
        read.piece ∈ read.verifiedStreamingPieces ∨ read.pieces.getD read.piece false = true) ∧
      (∀ piece ∈ s.torrent.pendingStreamingReads, s.torrent.isVerified piece = true →
        piece ∈ s.torrent.native.reads ∨ s.torrent.native.reads.length = MAX_STREAMING_READS) ∧
      (∀ piece deadline, s.torrent.native.deadlines.get piece = some deadline ↔
        IsLeast (urgentDeadlines info s.torrent.streamingRanges.values piece) deadline) ∧
      ∀ label s', s.step info hash label = some s' → Keeps label s s' := by
  obtain ⟨hsound, hserved⟩ := sound_of_reachable info hash h
  have hbounded := hsound.torrent.bounded
  refine ⟨?_, hbounded.nodup, hbounded.issued, fun piece hpiece hverified => ?_,
    fun piece deadline => ?_, fun label s' hstep => ?_⟩
  · rw [hbounded.length_eq]
    exact hbounded.card_le
  · rw [hbounded.mem_iff, hbounded.length_eq]
    exact (hserved piece hpiece hverified).imp_right fun hfull => hbounded.card_le.antisymm hfull
  · rw [hsound.torrent.deadlined.inForce]
    exact hsound.torrent.deadlined.recorded piece deadline
  · exact (step_sound info hash hsound hserved hstep).2.2

/-! ### Connections -/

/-! ### A sample -/

/-- A file in four pieces. -/
def sampleInfo : TorrentInfo where
  pieceLength := 262144
  piecesCount := 4
  files := [⟨0, 1000000⟩]
  pieceLength_pos := by decide
  within := by decide

def sampleOrder : HashOrder where
  order _ pieces := (List.range (pieces.sup id + 1)).filter fun piece => piece ∈ pieces
  mem_order n pieces piece := by
    have hle : piece ∈ pieces → piece < pieces.sup id + 1 := fun hpiece =>
      Nat.lt_succ_of_le (Finset.le_sup (f := id) hpiece)
    rw [mem_filter, mem_range, decide_eq_true_eq]
    exact ⟨And.right, fun hpiece => ⟨hle hpiece, hpiece⟩⟩
  nodup n pieces := nodup_range.filter _

/-- Nobody streams the torrent. -/
def sampleSession : Session where
  torrent :=
    { hasMetadata := true
      hasExclusiveFileOperation := false
      isChecking := false
      hasFirstLastPiecePriority := false
      filePriorities := [.normal]
      numPieces := 0
      pieces := [false, false, false, false]
      streamingRanges := InsertionMap.empty
      streamingLeases := 1
      streamingDeadlines := InsertionMap.empty
      verifiedStreamingPieces := ∅
      pendingStreamingReads := ∅
      streamingReads := ∅
      dispatches := 0
      native := ⟨[1, 1, 1, 1], InsertionMap.empty, [], []⟩ }
  waiting := fun _ => none

/-- A consumer asks for a piece, which is then finished and read. -/
def sampleRun : List Label :=
  [.call (.setStreamingRange 7 0 0 500000 true), .call (.requestStreamingPiece 7 0), .pieceAvailable 0]

/-- While the piece is read, the deadlines are those of the range. -/
theorem streaming_reads_bounded_sample :
    ∃ s, (system sampleInfo sampleOrder).runAll sampleSession sampleRun = some s ∧
      s.torrent.native.reads = [0] ∧ s.torrent.native.reads.length ≤ MAX_STREAMING_READS ∧
      s.torrent.native.deadlines.get 1 = some 250 := by
  have hrun : ((system sampleInfo sampleOrder).runAll sampleSession sampleRun).map (fun s =>
      (s.torrent.native.reads, s.torrent.native.deadlines.get 1)) = some ([0], some 250) := by
    decide +kernel
  obtain ⟨s, hs, hstate⟩ := map_eq_some_iff.mp hrun
  rw [Prod.mk.injEq] at hstate
  have hinitial : (system sampleInfo sampleOrder).Reachable (fun _ _ => True) sampleSession :=
    .start ⟨rfl, rfl, rfl, rfl, rfl, rfl, rfl, rfl, rfl⟩
  have hreachable := System.reachable_of_runAll sampleRun hinitial
    (System.allowedAll_of_forall (fun _ _ _ => trivial) sampleSession) hs
  exact ⟨s, hs, hstate.1, (streaming_reads_bounded sampleInfo sampleOrder hreachable).1, hstate.2⟩

end Session

end Qbutt.Streaming
