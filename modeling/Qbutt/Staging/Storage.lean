import Qbutt.Algorithm.Signed
import Qbutt.Qt.Json

/-!
# The storage requirement of a staging operation

`StagingOperation::storageRequirement` with its signed 64-bit arithmetic: each operation in the order
in which the source performs it, and the tests between them.
-/

namespace Qbutt.Staging

open Signed

/-- `QStorageInfo` of the volume that holds the destination. -/
structure StorageInfo where
  isReady : Bool
  blockSize : ℤ
  bytesAvailable : ℤ

/-- What is read of a file: its size in the layout, `relativePath` and the source that it has. -/
structure StorageFile where
  pad : Bool
  size : ℤ
  relative : String
  source : String

structure StorageRequirement where
  requiredBytes : ℤ
  availableBytes : ℤ
  deriving DecidableEq

def cannotInspect : String := "Cannot inspect storage for the target destination."

def invalidSize : String :=
  "The target file size is invalid or too large to calculate its required storage space."

def tooLarge : String := "The target is too large to calculate its required storage space."

/-- `relative.count(u'/')`. -/
def slashes (relative : String) : ℤ := relative.toList.count '/'

/-- `accountJournalString`: the new number of bytes, unless it would not fit. -/
def accountJournalString (journalBytes : ℤ) (value : String) (fixedBytes : ℤ) :
    Except (Abort String) (Option ℤ) := do
  let room ← sub maximum fixedBytes
  if qsize value > room / 4 then return none
  else
    let bytes ← mul (qsize value) 4
    let bytes ← add fixedBytes bytes
    let left ← sub maximum bytes
    if journalBytes > left then return none
    else
      let journalBytes ← add journalBytes bytes
      return some journalBytes

/-- The tests of the size of a file. -/
def checkSize (required size overhead : ℤ) : Except (Abort String) Unit :=
  if size < 0 then .error (.failed invalidSize)
  else do
    let room ← sub maximum overhead
    if required > room then .error (.failed invalidSize)
    else
      let left ← sub maximum required
      let left ← sub left overhead
      if size > left then .error (.failed invalidSize) else return ()

def requireFile (allocationUnit required : ℤ) (file : StorageFile) : Except (Abort String) ℤ := do
  let parts ← add (slashes file.relative) 3
  let overhead ← mul parts allocationUnit
  checkSize required file.size overhead
  let allocation ← alignUp file.size allocationUnit
  let parts ← add (slashes file.relative) 2
  let entries ← mul parts allocationUnit
  let charge ← add allocation entries
  add required charge

def accountFile (journalBytes : ℤ) (file : StorageFile) : Except (Abort String) ℤ := do
  let journal ← accountJournalString journalBytes file.relative 512
  match journal with
  | none => .error (.failed tooLarge)
  | some journalBytes =>
    let journal ← accountJournalString journalBytes file.source 0
    match journal with
    | none => .error (.failed tooLarge)
    | some journalBytes => return journalBytes

/-- The loop over the files, which skips padding. -/
def requireFiles (allocationUnit : ℤ) :
    (required journalBytes : ℤ) → List StorageFile → Except (Abort String) (ℤ × ℤ)
  | required, journalBytes, [] => return (required, journalBytes)
  | required, journalBytes, file :: files =>
    if file.pad then requireFiles allocationUnit required journalBytes files
    else do
      let required ← requireFile allocationUnit required file
      let journalBytes ← accountFile journalBytes file
      requireFiles allocationUnit required journalBytes files

/-- After the loop: two journals are added. -/
def requireJournal (allocationUnit required journalBytes : ℤ) : Except (Abort String) ℤ := do
  let room ← sub maximum allocationUnit
  let room ← add room 1
  if journalBytes > room then .error (.failed tooLarge)
  else
    let roundedJournal ← alignUp journalBytes allocationUnit
    if roundedJournal > maximum / 2 then .error (.failed tooLarge)
    else
      let journalAllocation ← mul 2 roundedJournal
      let room ← sub maximum journalAllocation
      if required > room then .error (.failed tooLarge) else add required journalAllocation

def StorageInfo.allocationUnit (storage : StorageInfo) : ℤ := max 4096 storage.blockSize

def storageRequirement (storage : StorageInfo) (destination : String) (files : List StorageFile) :
    Except (Abort String) StorageRequirement :=
  if !storage.isReady then .error (.failed cannotInspect)
  else do
    let journal ← accountJournalString storage.allocationUnit destination 4096
    match journal with
    | none => .error (.failed tooLarge)
    | some journalBytes =>
      let (required, journalBytes) ← requireFiles storage.allocationUnit 0 journalBytes files
      let requiredBytes ← requireJournal storage.allocationUnit required journalBytes
      return { requiredBytes := requiredBytes, availableBytes := storage.bytesAvailable }

end Qbutt.Staging
