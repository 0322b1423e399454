import Qbutt.Paths.Output

/-!
# The messages of the helper process

Whatever the pieces are in which the output of the helper arrives and is read, the manager handles
its lines, up to the first one that is too long or no message.  The invariant (`Framed`) is that the
stream so far is the handled lines, then what is in the buffer, then what is available.  Only while
a return to Native is pending the output is thrown away (`readOutput_frames`).
-/

namespace Qbutt.Paths.Output

open List

variable {δ : Type} {fromJson : Bytes → Option δ} {s s' : Output δ}

/-! ### Messages -/

def IsFrame (fromJson : Bytes → Option δ) (line : Bytes) (document : δ) : Prop :=
  10 ∉ line ∧ line.length < MAX_FRAME_BYTES ∧ fromJson line = some document

def messages (fromJson : Bytes → Option δ) : List Bytes → List δ
  | [] => []
  | line :: lines =>
    if MAX_FRAME_BYTES ≤ line.length then []
    else
      match fromJson line with
      | none => []
      | some document => document :: messages fromJson lines

variable {lines : List Bytes}

theorem messages_append {documents : List δ} (h : List.Forall₂ (IsFrame fromJson) lines documents)
    (more : List Bytes) :
    messages fromJson (lines ++ more) = documents ++ messages fromJson more := by
  induction h with
  | nil => rfl
  | cons hline _ ih =>
    obtain ⟨_, hlength, hdocument⟩ := hline
    rw [cons_append, messages, if_neg (Nat.not_le.mpr hlength), hdocument]
    dsimp only
    rw [ih, cons_append]

/-- A piece of a stream between newlines that stops the reader.  The last piece is not yet
terminated. -/
def IsBad (fromJson : Bytes → Option δ) (piece : Bytes) (terminated : Prop) : Prop :=
  MAX_FRAME_BYTES ≤ piece.length ∨ (terminated ∧ fromJson piece = none)

/-- The first piece of a stream stops the reader. -/
def StartsBad (fromJson : Bytes → Option δ) (stream : Bytes) : Prop :=
  ∃ piece pieces, stream.splitOn 10 = piece :: pieces ∧ IsBad fromJson piece (pieces ≠ [])

theorem messages_of_startsBad {stream : Bytes} (h : StartsBad fromJson stream) :
    messages fromJson (terminatedLines 10 stream) = [] := by
  obtain ⟨piece, pieces, hsplit, hbad⟩ := h
  rw [terminatedLines, hsplit]
  cases pieces with
  | nil => rfl
  | cons next pieces =>
    rw [dropLast_cons₂, messages]
    obtain hlong | ⟨_, hnone⟩ := hbad
    · rw [if_pos hlong]
    · rw [hnone]
      split_ifs <;> rfl

/-- A stream that starts without a newline for too long. -/
theorem startsBad_of_long {front : Bytes} (back : Bytes) (hfront : (10 : UInt8) ∉ front)
    (hlong : MAX_FRAME_BYTES ≤ front.length) : StartsBad fromJson (front ++ back) := by
  obtain ⟨hnot, _⟩ | ⟨line, rest, rfl, hline, _⟩ := cutAt_cases 10 back
  · have hall : (10 : UInt8) ∉ front ++ back := by
      rw [mem_append, not_or]
      exact ⟨hfront, hnot⟩
    refine ⟨front ++ back, [], splitOn_eq_singleton hall, .inl ?_⟩
    rw [length_append]
    omega
  · have hall : (10 : UInt8) ∉ front ++ line := by
      rw [mem_append, not_or]
      exact ⟨hfront, hline⟩
    refine ⟨front ++ line, rest.splitOn 10, ?_, .inl ?_⟩
    · rw [← append_assoc, splitOn_append_cons_self_of_not_mem hall]
    · rw [length_append]
      omega

variable {rest : Bytes}

theorem startsBad_of_line {line : Bytes} (hline : (10 : UInt8) ∉ line)
    (hbad : MAX_FRAME_BYTES ≤ line.length ∨ fromJson line = none) :
    StartsBad fromJson (line ++ 10 :: rest) := by
  refine ⟨line, rest.splitOn 10, splitOn_append_cons_self_of_not_mem hline _, ?_⟩
  exact hbad.imp_right fun hnone => ⟨splitOn_ne_nil _ _, hnone⟩

/-! ### The invariant -/

/-- The stream is the handled lines and a rest.  The rest is in the buffer and in the pipe, unless
the output is thrown away; and once the reader has failed, the rest starts with what made it fail.
-/
structure Framed (fromJson : Bytes → Option δ) (s : Output δ) (lines : List Bytes) (rest : Bytes) :
    Prop where
  written : s.written = unlines 10 lines ++ rest
  handled : List.Forall₂ (IsFrame fromJson) lines s.handled
  room : s.output.length ≤ MAX_FRAME_BYTES + 1
  unread : s.failure = none → s.nativePending = false ∨ s.reading = true →
    rest = s.output ++ s.available
  failed : s.failure ≠ none → s.running = false ∧ s.reading = false ∧ StartsBad fromJson rest

theorem receive_append (size : ℕ) :
    (s.receive size).output ++ (s.receive size).available = s.output ++ s.available := by
  simp only [receive, append_assoc, take_append_drop]

theorem receive_room (size : ℕ) (h : s.output.length ≤ MAX_FRAME_BYTES + 1) :
    (s.receive size).output.length ≤ MAX_FRAME_BYTES + 1 := by
  simp only [receive, length_append, length_take]
  omega

/-- A read moves bytes from the pipe to the buffer. -/
theorem Framed.receive (h : Framed fromJson s lines rest) (size : ℕ) :
    Framed fromJson (s.receive size) lines rest where
  written := h.written
  handled := h.handled
  room := receive_room size h.room
  unread hfailure hpending := (h.unread hfailure hpending).trans (receive_append size).symm
  failed := h.failed

theorem Framed.handle (h : Framed fromJson s lines rest) (hreading : s.reading = true)
    (stops : Bool) : ∃ lines rest, Framed fromJson (s.handle fromJson stops) lines rest := by
  have hfailure : s.failure = none := by
    by_contra hne
    exact absurd hreading (by rw [(h.failed hne).2.1]; nofun)
  have hrest := h.unread hfailure (.inr hreading)
  have hfail : ∀ message, StartsBad fromJson rest →
      Framed fromJson (s.fail message) lines rest := fun message hbad =>
    { written := h.written
      handled := h.handled
      room := Nat.zero_le _
      unread := nofun
      failed := fun _ => ⟨rfl, rfl, hbad⟩ }
  unfold Output.handle
  obtain ⟨hnot, hcut⟩ | ⟨line, more, hline, hnot, hcut⟩ := cutAt_cases 10 s.output
  · rw [hcut]
    dsimp only
    split_ifs with hlong
    · exact ⟨lines, rest, h⟩
    · refine ⟨lines, rest, hfail _ ?_⟩
      rw [hrest]
      exact startsBad_of_long s.available hnot (by omega)
  · rw [hcut]
    dsimp only
    rw [hline, append_assoc, cons_append] at hrest
    split_ifs with hlong
    · refine ⟨lines, rest, hfail _ ?_⟩
      rw [hrest]
      exact startsBad_of_line hnot (.inl hlong)
    · cases hjson : fromJson line with
      | none =>
        refine ⟨lines, rest, hfail _ ?_⟩
        rw [hrest]
        exact startsBad_of_line hnot (.inr hjson)
      | some document =>
        refine ⟨lines ++ [line], more ++ s.available, ?_, ?_, ?_, ?_, ?_⟩
        · have hlast : unlines 10 [line] = line ++ [10] := unlines_cons line []
          dsimp only
          rw [h.written, hrest, unlines_append, hlast]
          simp only [append_assoc, singleton_append]
        · exact rel_append h.handled
            (.cons ⟨hnot, Nat.not_le.mp hlong, hjson⟩ .nil)
        · have hroom := h.room
          rw [hline, length_append, length_cons] at hroom
          dsimp only
          omega
        · intro _ _
          rfl
        · exact fun hne => absurd hfailure hne

theorem Framed.step (h : Framed fromJson s lines rest) {event : OutputEvent}
    (hstep : s.step fromJson event = some s') : ∃ lines rest, Framed fromJson s' lines rest := by
  cases event with
  | write bytes =>
    simp only [Output.step] at hstep
    split_ifs at hstep with hrunning
    cases hstep
    refine ⟨lines, rest ++ bytes, ?_, h.handled, h.room, ?_, ?_⟩
    · dsimp only
      rw [h.written, append_assoc]
    · intro hfailure hpending
      dsimp only
      rw [h.unread hfailure hpending, append_assoc]
    · exact fun hne => absurd hrunning (by rw [(h.failed hne).1]; nofun)
  | exit =>
    cases hstep
    exact ⟨lines, rest, h.written, h.handled, h.room, h.unread,
      fun hne => ⟨rfl, (h.failed hne).2⟩⟩
  | notify =>
    simp only [Output.step] at hstep
    split_ifs at hstep with hrunning hpending
    · cases hstep
      refine ⟨lines, rest, h.written, h.handled, h.room, ?_, h.failed⟩
      rw [Bool.and_eq_true, Bool.not_eq_true'] at hrunning
      rintro _ (hnot | hreading)
      · exact absurd hpending (by rw [hnot]; nofun)
      · exact absurd hreading (by rw [hrunning.2]; nofun)
    · cases hstep
      refine ⟨lines, rest, h.written, h.handled, h.room,
        fun hfailure _ => h.unread hfailure (.inl (by simpa using hpending)), fun hne => ?_⟩
      rw [Bool.and_eq_true] at hrunning
      exact absurd hrunning.1 (by rw [(h.failed hne).1]; nofun)
  | pass size stops =>
    simp only [Output.step] at hstep
    split_ifs at hstep with hreading hmore
    · cases hstep
      exact (h.receive size).handle hreading stops
    · cases hstep
      exact ⟨lines, rest, h.written, h.handled, h.room,
        fun hfailure _ => h.unread hfailure (.inr hreading),
        fun hne => ⟨(h.failed hne).1, rfl, (h.failed hne).2.2⟩⟩
  | useNative =>
    cases hstep
    refine ⟨lines, rest, h.written, h.handled, h.room, ?_, h.failed⟩
    rintro hfailure (hnot | hreading)
    · cases hnot
    · exact h.unread hfailure (.inr hreading)

theorem framed_of_reachable (h : (system fromJson).Reachable (fun _ _ => True) s) :
    ∃ lines rest, Framed fromJson s lines rest := by
  refine h.invariant (I := fun s => ∃ lines rest, Framed fromJson s lines rest) ?_ ?_
  · rintro s rfl
    exact ⟨[], [], rfl, .nil, Nat.zero_le _, fun _ _ => rfl, fun hne => absurd rfl hne⟩
  · rintro s event s' ⟨lines, rest, hframed⟩ _ hstep
    exact hframed.step hstep

/-! ### What is handled -/

theorem not_mem_of_frames {documents : List δ}
    (h : List.Forall₂ (IsFrame fromJson) lines documents) :
    ∀ line ∈ lines, (10 : UInt8) ∉ line := by
  induction h with
  | nil => nofun
  | cons hline _ ih =>
    intro line hmem
    rcases mem_cons.mp hmem with rfl | hmem
    · exact hline.1
    · exact ih line hmem

theorem terminatedLines_framed (h : Framed fromJson s lines rest) :
    terminatedLines 10 s.written = lines ++ terminatedLines 10 rest := by
  rw [h.written, terminatedLines_unlines (not_mem_of_frames h.handled)]

theorem messages_framed (h : Framed fromJson s lines rest) :
    messages fromJson (terminatedLines 10 s.written) =
      s.handled ++ messages fromJson (terminatedLines 10 rest) := by
  rw [terminatedLines_framed h, messages_append h.handled]

/-- A pass that handles something goes on, or the process has stopped. -/
theorem handle_returns (hread : s.reading = true) (stops : Bool)
    (hreading : (s.handle fromJson stops).reading = false) :
    (s.handle fromJson stops).running = false := by
  unfold Output.handle at hreading ⊢
  cases hcut : cutAt 10 s.output with
  | none =>
    rw [hcut] at hreading
    dsimp only at hreading ⊢
    split_ifs at hreading ⊢
    · exact absurd hread (by rw [hreading]; nofun)
    · rfl
  | some sides =>
    rw [hcut] at hreading
    dsimp only at hreading ⊢
    split_ifs at hreading ⊢
    · rfl
    · cases hjson : fromJson sides.1 with
      | none => rfl
      | some document =>
        rw [hjson] at hreading
        exact hreading

/-- A call that returns from its loop while the process is running has handled all of the lines. -/
theorem returned (h : Framed fromJson s lines rest) {size : ℕ} {stops : Bool}
    (hstep : s.step fromJson (.pass size stops) = some s') (hreading : s'.reading = false)
    (hrunning : s'.running = true) :
    terminatedLines 10 s'.written = lines ∧ s'.handled = s.handled := by
  simp only [Output.step] at hstep
  split_ifs at hstep with hread hmore
  · cases hstep
    have hstopped := handle_returns (s := s.receive size) hread stops hreading
    exact absurd hrunning (by rw [hstopped]; nofun)
  · cases hstep
    rw [not_or, not_not] at hmore
    have hfailure : s.failure = none := by
      by_contra hne
      exact absurd hread (by rw [(h.failed hne).2.1]; nofun)
    have hrest := h.unread hfailure (.inr hread)
    rw [hmore.1, append_nil] at hrest
    have hlines := terminatedLines_framed h
    have hlast : terminatedLines 10 s.output = [] := by
      rw [terminatedLines, splitOn_eq_singleton hmore.2]
      rfl
    rw [hrest, hlast, append_nil] at hlines
    exact ⟨hlines, rfl⟩

/-- The line after the handled ones made the reader fail. -/
def FailedAt (fromJson : Bytes → Option δ) (s : Output δ) : Prop :=
  ∃ piece, (s.written.splitOn 10)[s.handled.length]? = some piece ∧
    IsBad fromJson piece (s.handled.length < (terminatedLines 10 s.written).length)

/-- In every run the handled messages are those of the first lines of the stream; the buffer has at
most 65537 bytes, also right after a read; a reader that fails has handled all messages before the
line that made it fail; a call that returns from its loop while the process is running has handled a
message for every line; and a call while a return to Native is pending handles nothing and throws
away what is available. -/
theorem readOutput_frames (fromJson : Bytes → Option δ) (s : Output δ)
    (h : (system fromJson).Reachable (fun _ _ => True) s) :
    s.handled <+: messages fromJson (terminatedLines 10 s.written) ∧
    (∀ size, (s.receive size).output.length ≤ MAX_FRAME_BYTES + 1) ∧
    (s.failure ≠ none →
      s.handled = messages fromJson (terminatedLines 10 s.written) ∧ FailedAt fromJson s) ∧
    (∀ size stops s', s.step fromJson (.pass size stops) = some s' → s'.reading = false →
      s'.running = true →
      s'.handled = messages fromJson (terminatedLines 10 s'.written) ∧
        s'.handled.length = (terminatedLines 10 s'.written).length) ∧
    (s.nativePending = true → ∀ s', s.step fromJson .notify = some s' →
      s' = { s with available := [] }) := by
  obtain ⟨lines, rest, hframed⟩ := framed_of_reachable h
  have hmessages := messages_framed hframed
  refine ⟨?_, fun size => receive_room size hframed.room, fun hne => ?_, ?_, ?_⟩
  · rw [hmessages]
    exact prefix_append _ _
  · obtain ⟨_, _, hbad⟩ := hframed.failed hne
    rw [hmessages, messages_of_startsBad hbad, append_nil]
    refine ⟨rfl, ?_⟩
    obtain ⟨piece, pieces, hsplit, hbad⟩ := hbad
    have hlength := hframed.handled.length_eq
    have hpieces : s.written.splitOn 10 = lines ++ piece :: pieces := by
      rw [hframed.written, splitOn_unlines_append (not_mem_of_frames hframed.handled), hsplit]
    refine ⟨piece, ?_, hbad.imp_right fun hline => ⟨?_, hline.2⟩⟩
    · rw [hpieces, ← hlength, List.getElem?_append_right (Nat.le_refl _), Nat.sub_self,
        List.getElem?_cons_zero]
    · have hmore : 0 < pieces.length := length_pos_iff.mpr hline.1
      rw [terminatedLines, hpieces, length_dropLast, length_append, length_cons]
      omega
  · intro size stops s' hstep hreading hrunning
    obtain ⟨hlines, hhandled⟩ := returned hframed hstep hreading hrunning
    have hall := messages_append hframed.handled []
    rw [append_nil] at hall
    rw [hlines, hhandled, hall]
    exact ⟨(append_nil _).symm, hframed.handled.length_eq.symm⟩
  · intro hpending s' hstep
    simp only [Output.step] at hstep
    split_ifs at hstep
    exact (Option.some.inj hstep).symm

/-- The text `{}` and a newline, written in two pieces and read in one byte and the rest. -/
theorem readOutput_frames_pieces : ∃ s : Output Unit,
    (system fun _ => some ()).runAll {} [.write [123, 125], .notify, .pass 1 false, .write [10],
      .pass 9 false, .pass 9 false] = some s ∧ s.handled = [()] ∧
      s.handled <+: messages (fun _ => some ()) (terminatedLines 10 s.written) :=
  ⟨_, rfl, rfl, (readOutput_frames (fun _ => some ()) _ (System.reachable_of_runAll
    [.write [123, 125], .notify, .pass 1 false, .write [10], .pass 9 false, .pass 9 false]
    (.start rfl) (System.allowedAll_of_forall (fun _ _ _ => trivial) _) rfl)).1⟩

/-- While a return to Native is pending, the same text is not handled. -/
theorem native_output_discarded : ∃ s : Output Unit,
    (system fun _ => some ()).runAll {} [.useNative, .write [123, 125, 10], .notify] = some s ∧
      s.running = true ∧ s.reading = false ∧ s.failure = none ∧ s.available = [] ∧
      s.handled ≠ messages (fun _ => some ()) (terminatedLines 10 s.written) :=
  ⟨_, rfl, rfl, rfl, rfl, rfl, by decide +kernel⟩

end Qbutt.Paths.Output
