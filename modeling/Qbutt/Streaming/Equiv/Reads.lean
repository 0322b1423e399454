import Qbutt.Streaming.Torrent

/-!
# Reads of verified pieces

`dispatchStreamingReads` starts reads of pending pieces that are recorded as verified, as long as fewer
than `MAX_STREAMING_READS` are under way (`dispatch_spec`).  What the torrent believes to be under way is
what the library has not answered (`Bounded`), and no verified pending piece waits while there is room
(`Served`).
-/

namespace Qbutt.Streaming.Torrent

open List

def withReads (t : Torrent) (started : List ℕ) : Torrent :=
  { t with
    streamingReads := t.streamingReads ∪ started.toFinset
    native := { t.native with
      reads := t.native.reads ++ started
      issued := t.native.issued ++
        started.map fun piece => ⟨piece, t.pieces, t.verifiedStreamingPieces⟩ } }

@[simp] theorem withReads_nil (t : Torrent) : t.withReads [] = t := by
  simp [withReads]

theorem withReads_append (t : Torrent) (started more : List ℕ) :
    (t.withReads started).withReads more = t.withReads (started ++ more) := by
  simp [withReads, Finset.union_assoc]

/-- The reads that are started are of different verified pieces that are not being read, and there is
room for them. -/
structure Starts (t : Torrent) (started : List ℕ) : Prop where
  nodup : started.Nodup
  verified : ∀ piece ∈ started, t.isVerified piece = true
  fresh : ∀ piece ∈ started, piece ∉ t.streamingReads
  room : started ≠ [] → (t.streamingReads ∪ started.toFinset).card ≤ MAX_STREAMING_READS

/-- A piece does not wait: it is being read, or there is no room, or it is not verified. -/
def IsServed (t : Torrent) (piece : ℕ) : Prop :=
  t.isVerified piece = true → piece ∈ t.streamingReads ∨ MAX_STREAMING_READS ≤ t.streamingReads.card

variable {t : Torrent} {started : List ℕ}

theorem IsServed.withReads {piece : ℕ} (h : t.IsServed piece) (started : List ℕ) :
    (t.withReads started).IsServed piece := by
  intro hverified
  rcases h hverified with hread | hfull
  · exact .inl (Finset.mem_union_left _ hread)
  · exact .inr (hfull.trans (Finset.card_le_card Finset.subset_union_left))

theorem Starts.nil (t : Torrent) : t.Starts [] where
  nodup := nodup_nil
  verified piece hpiece := (not_mem_nil hpiece).elim
  fresh piece hpiece := (not_mem_nil hpiece).elim
  room h := (h rfl).elim

/-- The step of the loop: the piece is read if it is verified, is not being read and there is room. -/
theorem dispatchPiece_spec (h : t.Starts started) (piece : ℕ) :
    ∃ started', dispatchPiece (t.withReads started) piece = t.withReads started' ∧ t.Starts started' ∧
      (∃ more, started' = started ++ more) ∧ (t.withReads started').IsServed piece := by
  unfold dispatchPiece
  by_cases hfull : MAX_STREAMING_READS ≤ (t.withReads started).streamingReads.card
  · rw [if_pos hfull]
    exact ⟨started, rfl, h, ⟨[], (append_nil _).symm⟩, fun _ => .inr hfull⟩
  · rw [if_neg hfull]
    by_cases hread : ((t.withReads started).isVerified piece &&
        decide (piece ∉ (t.withReads started).streamingReads)) = true
    · rw [if_pos hread]
      rw [Bool.and_eq_true, decide_eq_true_eq] at hread
      have hverified : t.isVerified piece = true := hread.1
      have hnew : piece ∉ t.streamingReads ∪ started.toFinset := hread.2
      have hinsert : insert piece (t.withReads started).streamingReads =
          (t.withReads started).streamingReads ∪ [piece].toFinset := by
        ext other
        rw [Finset.mem_insert, Finset.mem_union, mem_toFinset, mem_singleton, or_comm]
      rw [Finset.mem_union, not_or, mem_toFinset] at hnew
      refine ⟨started ++ [piece], ?_, ⟨?_, ?_, ?_, ?_⟩, ⟨[piece], rfl⟩, fun _ => .inl ?_⟩
      · rw [← withReads_append, hinsert]
        rfl
      · exact h.nodup.append (nodup_singleton piece) (by simpa using hnew.2)
      · intro other hother
        rcases mem_append.mp hother with hother | hother
        · exact h.verified other hother
        · rw [mem_singleton.mp hother]
          exact hverified
      · intro other hother
        rcases mem_append.mp hother with hother | hother
        · exact h.fresh other hother
        · rw [mem_singleton.mp hother]
          exact hnew.1
      · intro _
        have hcard : (t.streamingReads ∪ (started ++ [piece]).toFinset).card ≤
            (t.streamingReads ∪ started.toFinset).card + 1 := by
          rw [toFinset_append, ← Finset.union_assoc]
          exact (Finset.card_union_le _ _).trans (by simp)
        have hroom : (t.streamingReads ∪ started.toFinset).card < MAX_STREAMING_READS := not_le.mp hfull
        omega
      · exact Finset.mem_union_right _ (by simp)
    · rw [if_neg hread]
      refine ⟨started, rfl, h, ⟨[], (append_nil _).symm⟩, fun hverified => .inl ?_⟩
      by_contra hnot
      exact hread (by rw [hverified, decide_eq_true hnot]; rfl)

theorem foldl_dispatchPiece (h : t.Starts started) (pieces : List ℕ) :
    ∃ started', pieces.foldl dispatchPiece (t.withReads started) = t.withReads started' ∧
      t.Starts started' ∧ (∃ more, started' = started ++ more) ∧
      ∀ piece ∈ pieces, (t.withReads started').IsServed piece := by
  induction pieces generalizing started with
  | nil =>
    exact ⟨started, rfl, h, ⟨[], (append_nil _).symm⟩, fun piece hpiece =>
      (not_mem_nil hpiece).elim⟩
  | cons first pieces ih =>
    obtain ⟨next, hstep, hnext, ⟨more, rfl⟩, hserved⟩ := dispatchPiece_spec h first
    obtain ⟨last, hrun, hlast, ⟨more', rfl⟩, hall⟩ := ih hnext
    refine ⟨_, ?_, hlast, ⟨more ++ more', append_assoc _ _ _⟩, fun piece hpiece => ?_⟩
    · rw [foldl_cons, hstep, hrun]
    · rcases mem_cons.mp hpiece with rfl | hpiece
      · rw [← withReads_append]
        exact hserved.withReads more'
      · exact hall piece hpiece

/-- No verified pending piece waits while there is room. -/
def Served (t : Torrent) : Prop := ∀ piece ∈ t.pendingStreamingReads, t.IsServed piece

theorem dispatch_spec (hash : HashOrder) (t : Torrent) :
    ∃ started, dispatchStreamingReads hash t =
        { t with dispatches := t.dispatches + 1 }.withReads started ∧
      t.Starts started ∧ (dispatchStreamingReads hash t).Served := by
  obtain ⟨started, hrun, hstarts, -, hall⟩ := foldl_dispatchPiece
    (Starts.nil { t with dispatches := t.dispatches + 1 })
    (hash.order t.dispatches t.pendingStreamingReads)
  rw [withReads_nil] at hrun
  have hdispatch : dispatchStreamingReads hash t =
      { t with dispatches := t.dispatches + 1 }.withReads started := hrun
  refine ⟨started, hdispatch, { hstarts with }, ?_⟩
  rw [hdispatch]
  exact fun piece hpiece => hall piece ((hash.mem_order _ _ _).mpr hpiece)

/-! ### What the library has not answered -/

/-- The reads under way are those that the library has not answered; there are few of them, of different
pieces, and each was started for a piece that was recorded as verified. -/
structure Bounded (t : Torrent) : Prop where
  nodup : t.native.reads.Nodup
  mem_iff : ∀ piece, piece ∈ t.native.reads ↔ piece ∈ t.streamingReads
  card_le : t.streamingReads.card ≤ MAX_STREAMING_READS
  issued : ∀ read ∈ t.native.issued,
    read.piece ∈ read.verifiedStreamingPieces ∨ read.pieces.getD read.piece false = true

theorem Bounded.length_eq (h : t.Bounded) : t.native.reads.length = t.streamingReads.card := by
  rw [← toFinset_card_of_nodup h.nodup]
  congr 1
  ext piece
  rw [mem_toFinset, h.mem_iff piece]

theorem Bounded.withReads (h : t.Bounded) (hstarts : t.Starts started) :
    (t.withReads started).Bounded := by
  constructor
  · exact h.nodup.append hstarts.nodup fun piece hold hnew =>
      hstarts.fresh piece hnew ((h.mem_iff piece).mp hold)
  · intro piece
    show piece ∈ t.native.reads ++ started ↔ piece ∈ t.streamingReads ∪ started.toFinset
    rw [mem_append, Finset.mem_union, mem_toFinset, h.mem_iff piece]
  · show (t.streamingReads ∪ started.toFinset).card ≤ MAX_STREAMING_READS
    by_cases hnone : started = []
    · rw [hnone]
      simpa using h.card_le
    · exact hstarts.room hnone
  · intro read hread
    rcases mem_append.mp hread with hread | hread
    · exact h.issued read hread
    · obtain ⟨piece, hpiece, rfl⟩ := mem_map.mp hread
      have hverified := hstarts.verified piece hpiece
      rw [isVerified, Bool.or_eq_true, decide_eq_true_eq] at hverified
      exact hverified

theorem Bounded.dispatch (h : t.Bounded) (hash : HashOrder) :
    (dispatchStreamingReads hash t).Bounded := by
  obtain ⟨started, hdispatch, hstarts, -⟩ := dispatch_spec hash t
  rw [hdispatch]
  have hsame : ({ t with dispatches := t.dispatches + 1 } : Torrent).Bounded :=
    { h with }
  exact hsame.withReads { hstarts with }

/-- A piece that the library answered is not being read any more. -/
theorem Bounded.take {t' : Torrent} (h : t.Bounded) {piece : ℕ}
    (htake : takeStreamingPiece { t with native := { t.native with
      reads := t.native.reads.erase piece } } piece = some t') : t'.Bounded := by
  unfold takeStreamingPiece at htake
  by_cases hread : piece ∈ t.streamingReads
  · rw [if_pos hread, Option.some.injEq] at htake
    rw [← htake]
    constructor
    · exact h.nodup.erase piece
    · intro other
      show other ∈ t.native.reads.erase piece ↔ other ∈ t.streamingReads.erase piece
      rw [h.nodup.mem_erase_iff, Finset.mem_erase, h.mem_iff other]
    · exact (Finset.card_erase_le).trans h.card_le
    · exact h.issued
  · rw [if_neg hread] at htake
    exact absurd htake.symm (Option.some_ne_none t')

end Qbutt.Streaming.Torrent
