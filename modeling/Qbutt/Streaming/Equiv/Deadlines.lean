import Mathlib.Order.Lattice.Nat
import Qbutt.Algorithm.Notes
import Qbutt.Streaming.Torrent

/-!
# Deadlines of streamed pieces

After `applyPiecePriorities` the deadline that is in force for a piece is the least one that an urgent
range with the piece gives it, and pieces that no urgent range contains have none (`Deadlined`).
-/

namespace Qbutt.Streaming

variable (info : TorrentInfo) {piece deadline : ℕ}

theorem StreamingRange.mem_pieces {range : StreamingRange} :
    piece ∈ range.pieces ↔ range.has piece = true := by
  rw [pieces, List.mem_range'_1, has, Bool.and_eq_true, decide_eq_true_eq, decide_eq_true_eq]
  omega

def urgentDeadlines (ranges : List StreamingRange) (piece : ℕ) : Set ℕ :=
  {deadline | ∃ range ∈ ranges, range.urgent = true ∧ range.has piece = true ∧
    deadline = Torrent.pieceDeadline info range piece}

namespace Torrent

/-! ### The loop over the ranges -/

def LeastOf (candidates : Set ℕ) : Option ℕ → Prop
  | none => candidates = ∅
  | some deadline => IsLeast candidates deadline

theorem LeastOf.insert {candidates : Set ℕ} {held : Option ℕ} (h : LeastOf candidates held) (d : ℕ) :
    LeastOf (insert d candidates) (some (held.elim d (min d))) := by
  cases held with
  | none =>
    have hempty : candidates = ∅ := h
    show IsLeast (Insert.insert d candidates) d
    rw [hempty, LawfulSingleton.insert_empty_eq]
    exact isLeast_singleton
  | some earlier => exact IsLeast.insert d h

theorem LeastOf.eq_some_iff {candidates : Set ℕ} {held : Option ℕ} (h : LeastOf candidates held) :
    held = some deadline ↔ IsLeast candidates deadline := by
  cases held with
  | none =>
    have hempty : candidates = ∅ := h
    constructor
    · exact fun hsome => absurd hsome.symm (Option.some_ne_none deadline)
    · intro hleast
      have hmem := hleast.1
      rw [hempty] at hmem
      exact hmem.elim
  | some found =>
    have hfound : IsLeast candidates found := h
    rw [Option.some.injEq]
    constructor
    · intro heq
      rw [← heq]
      exact hfound
    · exact fun hleast => hfound.unique hleast

def Least (deadlines : InsertionMap ℕ ℕ) (candidates : ℕ → Set ℕ) : Prop :=
  ∀ piece, LeastOf (candidates piece) (deadlines.get piece)

theorem get_addDeadline (range : StreamingRange) (deadlines : InsertionMap ℕ ℕ) (piece other : ℕ) :
    (addDeadline info range deadlines piece).get other =
      if other = piece then
        some ((deadlines.get piece).elim (pieceDeadline info range piece)
          (min (pieceDeadline info range piece)))
      else deadlines.get other := by
  unfold addDeadline
  cases hget : deadlines.get piece with
  | none => exact InsertionMap.get_set ..
  | some earlier =>
    by_cases hless : pieceDeadline info range piece < earlier
    · simp only [if_pos hless]
      rw [InsertionMap.get_set, Option.elim_some, min_eq_left hless.le]
    · simp only [if_neg hless]
      rw [Option.elim_some, min_eq_right (not_lt.mp hless)]
      by_cases hsame : other = piece
      · rw [if_pos hsame, hsame, hget]
      · rw [if_neg hsame]

variable {deadlines previous inForce : InsertionMap ℕ ℕ} {candidates : ℕ → Set ℕ}

theorem Least.addDeadline (h : Least deadlines candidates) (range : StreamingRange) (piece : ℕ) :
    Least (Torrent.addDeadline info range deadlines piece) fun other =>
      if other = piece then insert (pieceDeadline info range piece) (candidates piece)
      else candidates other := by
  intro other
  rw [get_addDeadline]
  by_cases hsame : other = piece
  · simp only [if_pos hsame]
    exact (h piece).insert _
  · simp only [if_neg hsame]
    exact h other

theorem Least.congr {candidates' : ℕ → Set ℕ} (h : Least deadlines candidates)
    (heq : ∀ piece, candidates piece = candidates' piece) : Least deadlines candidates' := by
  rw [← funext heq]
  exact h

theorem Least.addPieces (h : Least deadlines candidates) (range : StreamingRange)
    (pieces : List ℕ) : Least (pieces.foldl (Torrent.addDeadline info range) deadlines) fun piece =>
      candidates piece ∪ {d | piece ∈ pieces ∧ d = pieceDeadline info range piece} := by
  induction pieces generalizing deadlines candidates with
  | nil =>
    refine h.congr fun piece => ?_
    simp
  | cons first pieces ih =>
    refine (ih (h.addDeadline info range first)).congr fun piece => ?_
    ext d
    by_cases hsame : piece = first
    · simp only [hsame, if_true, Set.mem_union, Set.mem_insert_iff, Set.mem_setOf_eq, List.mem_cons,
        true_or, true_and]
      tauto
    · simp only [hsame, if_false, Set.mem_union, Set.mem_setOf_eq, List.mem_cons, false_or]

theorem Least.addRanges (h : Least deadlines candidates) (ranges : List StreamingRange) :
    Least (ranges.foldl (fun deadlines range =>
        if range.urgent then range.pieces.foldl (Torrent.addDeadline info range) deadlines
        else deadlines) deadlines) fun piece => candidates piece ∪ urgentDeadlines info ranges piece := by
  induction ranges generalizing deadlines candidates with
  | nil =>
    refine h.congr fun piece => ?_
    simp [urgentDeadlines]
  | cons range ranges ih =>
    rw [List.foldl_cons]
    by_cases hurgent : range.urgent = true
    · rw [if_pos hurgent]
      refine (ih (h.addPieces info range range.pieces)).congr fun piece => ?_
      ext d
      simp only [urgentDeadlines, Set.mem_union, Set.mem_setOf_eq, List.mem_cons, exists_eq_or_imp,
        StreamingRange.mem_pieces, hurgent, true_and, or_assoc]
    · rw [if_neg hurgent]
      refine (ih h).congr fun piece => ?_
      ext d
      simp only [urgentDeadlines, Set.mem_union, Set.mem_setOf_eq, List.mem_cons, exists_eq_or_imp,
        hurgent, Bool.false_eq_true, false_and, false_or]

theorem rangeDeadlines_get {ranges : List StreamingRange} :
    (rangeDeadlines info ranges).get piece = some deadline ↔
      IsLeast (urgentDeadlines info ranges piece) deadline := by
  have hempty : Least InsertionMap.empty fun _ => (∅ : Set ℕ) := fun _ => rfl
  have hleast := (hempty.addRanges info ranges).congr fun piece => Set.empty_union _
  exact (hleast piece).eq_some_iff

/-! ### The commands to the library -/

/-- What is in force is what was recorded, up to deadlines that the library dropped and that are to be
refreshed. -/
def Follows (refreshDeadlines : Bool) (previous inForce : InsertionMap ℕ ℕ) : Prop :=
  ∀ piece, inForce.get piece = previous.get piece ∨
    (refreshDeadlines = true ∧ inForce.get piece = none)

theorem get_resets (piece : ℕ) :
    (previous.entries.foldl (fun inForce entry =>
      if (deadlines.get entry.1).isSome then inForce else inForce.delete entry.1) inForce).get piece =
      if (previous.get piece).isSome ∧ deadlines.get piece = none then none else inForce.get piece := by
  have hget : ∀ (inForce : InsertionMap ℕ ℕ) (entry : ℕ × ℕ) (x : ℕ),
      (if (deadlines.get entry.1).isSome then inForce else inForce.delete entry.1).get x =
        if x = entry.1 ∧ deadlines.get entry.1 = none then none else inForce.get x := by
    intro inForce entry x
    cases deadlines.get entry.1 with
    | none => simp [InsertionMap.get_delete]
    | some d => simp
  have hloop := foldl_local (fun entry : ℕ × ℕ => entry.1)
    (fun piece (inForce : InsertionMap ℕ ℕ) => inForce.get piece)
    (fun inForce entry =>
      if (deadlines.get entry.1).isSome then inForce else inForce.delete entry.1)
    (fun inForce entry x hx => by
      rw [hget, if_neg fun h => hx h.1])
    (fun s s' entry h => by
      rw [hget, hget, h])
    (show (previous.entries.map fun entry => entry.1).Nodup from previous.nodup) inForce
  cases hprevious : previous.get piece with
  | none =>
    rw [hloop.2 piece fun hmem => ?_]
    · simp
    · obtain ⟨d, hd⟩ := InsertionMap.mem_keys.mp hmem
      rw [hprevious] at hd
      exact Option.some_ne_none d hd.symm
  | some d =>
    have hentry := hloop.1 (piece, d) (InsertionMap.mem_entries_iff.mpr hprevious)
    rw [hget] at hentry
    simpa using hentry

variable {refreshDeadlines : Bool}

theorem get_sets (piece : ℕ) :
    (deadlines.entries.foldl (fun inForce entry =>
      if refreshDeadlines || decide (previous.get entry.1 ≠ some entry.2) then
        inForce.set entry.1 entry.2
      else inForce) inForce).get piece =
      match deadlines.get piece with
      | none => inForce.get piece
      | some d =>
        if refreshDeadlines = true ∨ previous.get piece ≠ some d then some d else inForce.get piece := by
  have hget : ∀ (inForce : InsertionMap ℕ ℕ) (entry : ℕ × ℕ) (x : ℕ),
      (if refreshDeadlines || decide (previous.get entry.1 ≠ some entry.2) then
        inForce.set entry.1 entry.2 else inForce).get x =
        if x = entry.1 ∧ (refreshDeadlines = true ∨ previous.get entry.1 ≠ some entry.2) then
          some entry.2
        else inForce.get x := by
    intro inForce entry x
    by_cases hset : (refreshDeadlines || decide (previous.get entry.1 ≠ some entry.2)) = true
    · rw [if_pos hset, InsertionMap.get_set]
      rw [Bool.or_eq_true, decide_eq_true_eq] at hset
      simp [hset]
    · rw [if_neg hset]
      rw [Bool.or_eq_true, decide_eq_true_eq] at hset
      rw [if_neg fun h => hset h.2]
  have hloop := foldl_local (fun entry : ℕ × ℕ => entry.1)
    (fun piece (inForce : InsertionMap ℕ ℕ) => inForce.get piece)
    (fun inForce entry =>
      if refreshDeadlines || decide (previous.get entry.1 ≠ some entry.2) then
        inForce.set entry.1 entry.2 else inForce)
    (fun inForce entry x hx => by
      rw [hget, if_neg fun h => hx h.1])
    (fun s s' entry h => by
      rw [hget, hget, h])
    (show (deadlines.entries.map fun entry => entry.1).Nodup from deadlines.nodup) inForce
  cases hdeadline : deadlines.get piece with
  | none =>
    refine hloop.2 piece fun hmem => ?_
    obtain ⟨d, hd⟩ := InsertionMap.mem_keys.mp hmem
    rw [hdeadline] at hd
    exact Option.some_ne_none d hd.symm
  | some d =>
    have hentry := hloop.1 (piece, d) (InsertionMap.mem_entries_iff.mpr hdeadline)
    rw [hget] at hentry
    simpa using hentry

theorem get_tellDeadlines (h : Follows refreshDeadlines previous inForce)
    (deadlines : InsertionMap ℕ ℕ) (piece : ℕ) :
    (tellDeadlines refreshDeadlines previous deadlines inForce).get piece = deadlines.get piece := by
  unfold tellDeadlines
  rw [get_sets, get_resets]
  cases hdeadline : deadlines.get piece with
  | none =>
    cases hprevious : previous.get piece with
    | none =>
      rcases h piece with hsame | ⟨-, hnone⟩
      · simp [hsame, hprevious]
      · simp [hnone]
    | some d => simp
  | some d =>
    by_cases hset : refreshDeadlines = true ∨ previous.get piece ≠ some d
    · exact if_pos hset
    · obtain ⟨hrefresh, hprevious⟩ := not_or.mp hset
      rcases h piece with hsame | ⟨hrefresh', -⟩
      · simp only [if_neg hset, reduceCtorEq, and_false, if_false]
        rw [hsame]
        exact not_not.mp hprevious
      · exact absurd hrefresh' hrefresh

/-! ### The invariant -/

/-- The deadlines are those of the ranges, and the library has them. -/
structure Deadlined (t : Torrent) : Prop where
  recorded : ∀ piece deadline, t.streamingDeadlines.get piece = some deadline ↔
    IsLeast (urgentDeadlines info t.streamingRanges.values piece) deadline
  inForce : ∀ piece, t.native.deadlines.get piece = t.streamingDeadlines.get piece
  metadata : t.hasMetadata = false → t.streamingRanges = InsertionMap.empty

theorem Deadlined.follows {t : Torrent} (h : Deadlined info t) (refreshDeadlines : Bool) :
    Follows refreshDeadlines t.streamingDeadlines t.native.deadlines :=
  fun piece => .inl (h.inForce piece)

theorem deadlined_applyPiecePriorities {t : Torrent} (hmetadata : t.hasMetadata = true)
    (h : Follows refreshDeadlines t.streamingDeadlines t.native.deadlines) :
    Deadlined info (applyPiecePriorities info refreshDeadlines t) := by
  have hguard : ¬(!t.hasMetadata) = true := by simp [hmetadata]
  unfold applyPiecePriorities
  rw [if_neg hguard]
  constructor
  · exact fun piece deadline => rangeDeadlines_get info
  · exact fun piece => get_tellDeadlines h _ piece
  · intro hnone
    exact absurd (hmetadata.symm.trans hnone) Bool.true_eq_false_eq_False.elim

end Torrent

end Qbutt.Streaming
