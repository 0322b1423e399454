import Qbutt.Library.Entry
import Qbutt.Translation.Library

/-!
# Settings of sources

The rows of the table `source_settings`: whether a source is enabled, its last failure, and a revision
that counts the changes.  Every call is one transaction, which ends with an error and leaves the rows
as they were, or all its writes are kept.  The column of the revision takes integers of 64 bits only.
-/

namespace Qbutt.Library

open Qbutt.Content

/-! ### Failures -/

inductive SourceOperation where
  | search (source : Source) (query : String) (category : Category) (language : Option String)
  | inspect (reference : PublicationRef) (language : Option String)
  | resolve (reference : VariantRef)
  | chapters (reference : VariantRef)
  | chapter (reference : ChapterRef)
  | readerPage (reference : ChapterRef) (page : UInt32)
  deriving DecidableEq

inductive SourceFailureReason where
  | network | timeout
  | http (status : UInt16)
  | serviceUnavailable | metadata | responseTooLarge | unsafeAddress | invalidRedirect
  | variantUnavailable | loginRequired | challenge | sourceCheckRequired | browserChoiceRequired
  | browserSession | browserUpdateRequired | sourceCheck | unsupportedTorrent
  deriving DecidableEq

structure SourceFailure where
  operation : SourceOperation
  reason : SourceFailureReason
  deriving DecidableEq

namespace SourceOperation

def source : SourceOperation → Source
  | .search source _ _ _ => source
  | .inspect reference _ => reference.source
  | .resolve reference | .chapters reference => reference.publication.source
  | .chapter reference | .readerPage reference _ => reference.variant.publication.source

def isSearch : SourceOperation → Bool
  | .search .. => true
  | _ => false

end SourceOperation

def validateReader (source : Source) : Bool :=
  [.mangaDex, .weebCentral, .nhentai, .mangaLib, .ranobeLib, .royalRoad, .kakuyomu, .syosetu, .estar,
    .ranobeHub, .localBook].contains source

def validateLanguage (source : Source) (language : Option String) : Bool :=
  match language with
  | some language => source = .mangaDex && Translation.canonicalLanguage language
  | none => source ≠ .mangaDex

variable {F : Type} (C : Checks F)

def SourceOperation.validate : SourceOperation → Bool
  | .search source query category language =>
    !(query.isEmpty || Rust.trim query.toList ≠ query.toList || query.length > 500 ||
        query.toList.any Rust.isControl || !source.categories.contains category) &&
      validateLanguage source language
  | .inspect reference language =>
    C.publication reference && validateLanguage reference.source language
  | .resolve reference => C.variant reference
  | .chapters reference => C.variant reference && validateReader reference.publication.source
  | .chapter reference => C.chapter reference
  | .readerPage reference page => C.chapter reference && page < 2000

/-! ### Rows -/

/-- `LibraryError`, as far as these calls report it. -/
inductive SourcesError where
  | sqlite
  | invalidSchema
  | corruptEntry (message : String)
  | invalidEntry (message : String)
  deriving DecidableEq

/-- A row, as its columns are. -/
structure SourceRow where
  enabled : Bool
  revision : ℕ
  failure : Option SourceFailure
  deriving DecidableEq

structure SourceSettings where
  source : Source
  enabled : Bool
  revision : ℕ
  failure : Option SourceFailure
  deriving DecidableEq

abbrev SourceRows := Source → Option SourceRow

def validateFailure (failure : SourceFailure) : Except SourcesError Unit :=
  if !failure.operation.validate C then .error (.invalidEntry "source operation")
  else
    match failure.reason with
    | .http status =>
      if 100 ≤ status && status ≤ 599 then .ok () else .error (.invalidEntry "source HTTP status")
    | _ => .ok ()

def decodeSettings (source : Source) (row : SourceRow) : Except SourcesError SourceSettings :=
  match row.failure with
  | none => .ok ⟨source, row.enabled, row.revision, none⟩
  | some failure => do
    (validateFailure C failure).mapError fun _ => .corruptEntry "source failure"
    if failure.operation.source ≠ source then .error (.corruptEntry "source failure identity")
    else .ok ⟨source, row.enabled, row.revision, some failure⟩

def readSettings (rows : SourceRows) (source : Source) : Except SourcesError SourceSettings :=
  match rows source with
  | none => .error .sqlite
  | some row => decodeSettings C source row

/-- Update a row and count the change; the column does not take a revision that is too large. -/
def bump (rows : SourceRows) (source : Source) (row : SourceRow) : Except SourcesError SourceRows :=
  if row.revision + 1 < 2 ^ 63 then
    .ok (Function.update rows source (some { row with revision := row.revision + 1 }))
  else .error .sqlite

/-! ### Calls -/

def updateEnabled (rows : SourceRows) (source : Source) (enabled : Bool) :
    Except SourcesError SourceRows :=
  match rows source with
  | some row =>
    if row.enabled ≠ enabled then bump rows source { row with enabled := enabled } else .ok rows
  | none => .ok rows

/-- The update of a failure; `missing` is what there is to say of a source without a row. -/
def updateFailure (rows : SourceRows) (source : Source) (failure : Option SourceFailure)
    (missing : Except SourcesError SourceRows) : Except SourcesError SourceRows :=
  match rows source with
  | some row => bump rows source { row with failure := failure }
  | none => missing

def setSourceEnabled (rows : SourceRows) (source : Source) (enabled : Bool) :
    Except SourcesError (SourceRows × SourceSettings) := do
  let rows ← updateEnabled rows source enabled
  let settings ← readSettings C rows source
  return (rows, settings)

def recordSourceFailure (rows : SourceRows) (failure : SourceFailure) :
    Except SourcesError (SourceRows × SourceSettings) := do
  validateFailure C failure
  let rows ← updateFailure rows failure.operation.source (some failure) (.error .invalidSchema)
  let settings ← readSettings C rows failure.operation.source
  return (rows, settings)

def dropFailure (rows : SourceRows) (source : Source) :
    Except SourcesError (SourceRows × SourceSettings) := do
  let rows ← updateFailure rows source none (.ok rows)
  let settings ← readSettings C rows source
  return (rows, settings)

def clearSourceFailure (rows : SourceRows) (operation : SourceOperation) (observedRevision : ℤ) :
    Except SourcesError (SourceRows × SourceSettings) :=
  if !operation.validate C then .error (.invalidEntry "source operation")
  else if observedRevision < 0 then .error (.invalidEntry "source revision")
  else do
    let source := operation.source
    let settings ← readSettings C rows source
    if settings.revision = observedRevision ∧
        settings.failure.map SourceFailure.operation = some operation then
      dropFailure C rows source
    else return (rows, settings)

def retireSourceSearchFailure (rows : SourceRows) (source : Source) :
    Except SourcesError (SourceRows × SourceSettings) := do
  let settings ← readSettings C rows source
  if settings.failure.any fun failure => failure.operation.isSearch then dropFailure C rows source
  else return (rows, settings)

/-! ### Runs -/

inductive SourceCall where
  | setSourceEnabled (source : Source) (enabled : Bool)
  | recordSourceFailure (failure : SourceFailure)
  | clearSourceFailure (operation : SourceOperation) (observedRevision : ℤ)
  | retireSourceSearchFailure (source : Source)

def SourceCall.run (rows : SourceRows) : SourceCall →
    Except SourcesError (SourceRows × SourceSettings)
  | .setSourceEnabled source enabled => Library.setSourceEnabled C rows source enabled
  | .recordSourceFailure failure => Library.recordSourceFailure C rows failure
  | .clearSourceFailure operation observedRevision =>
    Library.clearSourceFailure C rows operation observedRevision
  | .retireSourceSearchFailure source => Library.retireSourceSearchFailure C rows source

/-- The rows after a call, which the transaction leaves as they were if the call fails: by itself, or
in the database (`broken`). -/
def SourceCall.rowsAfter (rows : SourceRows) (call : SourceCall) (broken : Bool) : SourceRows :=
  match call.run C rows with
  | .ok (rows', _) => if broken then rows else rows'
  | .error _ => rows

def sourcesSystem : System SourceRows (SourceCall × Bool) where
  initial _ := True
  step rows label := some (label.1.rowsAfter C rows label.2)

end Qbutt.Library
