import Qbutt.Algorithm.Lines
import Qbutt.Algorithm.Transition
import Qbutt.Qt.ByteArray

/-!
# The output of the helper process

`readOutput`, pass by pass: between two passes of its loop, and between two calls of it, the helper
may write more, end, or the manager may start to return to Native.  `handleResponse` is a parameter:
it takes a message and may stop the process.
-/

namespace Qbutt.Paths

def MAX_FRAME_BYTES : ℕ := 65536

/-- What `readOutput` works on: the buffer `m_output`, what the process has available, if the
process is running, if a return to Native is pending, and if a call is in its loop; and, for
reasoning, what the process wrote, the messages handled so far, and the text that `fail` was called
with. -/
structure Output (δ : Type) where
  output : Bytes := []
  available : Bytes := []
  running : Bool := true
  nativePending : Bool := false
  reading : Bool := false
  written : Bytes := []
  handled : List δ := []
  failure : Option String := none

/-- What happens to the output: the process writes, or ends; `readOutput` is called; a pass of its
loop, with the size of its read and if `handleResponse` stops the process; a return to Native
starts. -/
inductive OutputEvent where
  | write (bytes : Bytes)
  | exit
  | notify
  | pass (size : ℕ) (stops : Bool)
  | useNative

namespace Output

variable {δ : Type} (s : Output δ)

/-- `fail`, as far as it concerns the output: `shutdown` clears the buffer and ends the process. -/
def fail (message : String) : Output δ :=
  { s with output := [], running := false, reading := false, failure := some message }

/-- `m_output += m_process.read(..)`: a read gives at least one byte if there is one and one is
asked for. -/
def receive (size : ℕ) : Output δ :=
  let count := min (max size 1) (MAX_FRAME_BYTES + 1 - s.output.length)
  { s with output := s.output ++ s.available.take count, available := s.available.drop count }

/-- A pass of the loop behind its read. -/
def handle (fromJson : Bytes → Option δ) (stops : Bool) : Output δ :=
  match cutAt 10 s.output with
  | none =>
    if s.output.length ≤ MAX_FRAME_BYTES then s
    else s.fail "qbutt-net exceeded the control frame size limit."
  | some (line, rest) =>
    if MAX_FRAME_BYTES ≤ line.length then
      s.fail "qbutt-net exceeded the control frame size limit."
    else
      match fromJson line with
      | none => s.fail "qbutt-net returned an invalid control frame."
      | some document =>
        let running := s.running && !stops
        { s with
          output := rest
          handled := s.handled ++ [document]
          running := running
          reading := running }

/-- One step.  The process writes only while it is running, and `readOutput` is called only then. -/
def step (fromJson : Bytes → Option δ) : OutputEvent → Option (Output δ)
  | .write bytes =>
    if s.running then
      some { s with available := s.available ++ bytes, written := s.written ++ bytes }
    else none
  | .exit => some { s with running := false }
  | .notify =>
    if s.running && !s.reading then
      if s.nativePending then some { s with available := [] }
      else some { s with reading := true }
    else none
  | .pass size stops =>
    if s.reading then
      if s.available ≠ [] ∨ 10 ∈ s.output then some ((s.receive size).handle fromJson stops)
      else some { s with reading := false }
    else none
  | .useNative => some { s with nativePending := true }

/-- The output of a process from its start on. -/
def system (fromJson : Bytes → Option δ) : System (Output δ) OutputEvent where
  initial s := s = {}
  step s := s.step fromJson

end Output

end Qbutt.Paths
