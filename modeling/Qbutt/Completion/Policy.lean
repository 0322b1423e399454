import Qbutt.Algorithm.Interruptible
import Qbutt.Algorithm.Table
import Qbutt.Algorithm.Transition
import Qbutt.Completion.Configuration

/-!
# The completion policy

`CompletionPolicy`: the event loop that drains a torrent, claims the actions of its rules in the
journal, dispatches them and records that it did, together with the crashes that separate these
steps.  A step of the system is a call or the handling of one event.  `finish` writes and dispatches
in between, so it is a program whose effects can fail or be cut short one by one.

The rest of a session (what happens to the torrents, which file operations they are in, what the user
does) is free: it enters through the labels.
-/

namespace Qbutt.Completion

/-- The identifier of the rule that `finish` adds for the option to remove completed torrents. -/
def builtinId : String := "qbutt-auto-remove-completed"

/-- The rule that `finish` adds. -/
def builtinRule : JsonObject :=
  [("actions", .array [.string "remove_torrent"]), ("enabled", .bool true),
    ("id", .string builtinId), ("match", .object [])]

/-- What outlives a session: the saved rules and the saved journal.  `performed` are the claim keys
and actions that were dispatched, for the statements only. -/
structure Store where
  rules : Option JsonObject
  journal : Option (List JsonObject)
  performed : List (String × String)

/-- `CompletionPolicy` in a session, with what it works on.  `waiting` says that the watcher has an
unfinished future, and `error` is `none` where `m_error` is empty.  `held` are the torrents that
were put into preview when the session was restored, for the statements only. -/
structure Policy extends Store where
  restored : Bool
  configuration : JsonObject
  entries : List JsonObject
  error : Option String
  executed : List String
  pending : Table String Bool
  current : Option String
  waiting : Bool
  persisting : Bool
  acknowledging : Bool
  nativeEvent : Bool
  notifySession : Bool
  torrents : Table String Torrent
  held : List String

/-- Between two sessions only the store is left. -/
inductive World where
  | down (store : Store)
  | running (policy : Policy)

/-- The store in either case. -/
def World.store : World → Store
  | .down store => store
  | .running policy => policy.toStore

def entryKey (entry : JsonObject) : String := (entry.get "key").toStr

def entryStatus (entry : JsonObject) : String := (entry.get "status").toStr

/-- A digit of the digest as Qt writes it. -/
def isHexDigit (c : Char) : Bool := ('0' ≤ c && c ≤ '9') || ('a' ≤ c && c ≤ 'f')

/-- Whether a text is a decimal number that `toLongLong` accepts. -/
def isLongLong (text : String) : Bool :=
  match text.toInt? with
  | some number => -(2 ^ 63) ≤ number && number < 2 ^ 63
  | none => false

/-- The check of a journal entry in the constructor. -/
def validEntry (entry : JsonObject) : Bool :=
  qsize (entryKey entry) = 64 && (entryKey entry).toList.all isHexDigit &&
    isLongLong (entry.get "added_at").toStr && (entry.get "reason").isObject &&
    (entry.get "actions").isArray &&
    (entryStatus entry = "claimed" || entryStatus entry = "dispatched" ||
      entryStatus entry = "blocked")

namespace Policy

/-- The constructor; `readable` says whether the file of the rules and that of the journal can be
read.  The torrents are those that the session restores. -/
def construct (store : Store) (torrents : List Torrent) (rulesReadable journalReadable : Bool) :
    Policy :=
  let rulesError :=
    store.rules.bind fun rules =>
      if rulesReadable then validateConfiguration rules
      else some "Cannot read completion policy rules."
  let configuration := if rulesError.isSome then none else store.rules
  -- the loop over the files stops at the first error
  let journal := if rulesError.isSome then none else store.journal
  let journalError :=
    journal.bind fun entries =>
      if !journalReadable then some "Cannot read completion policy journal."
      else refuse (!entries.all validEntry) "Invalid completion policy journal entry."
  let entries := if journalReadable then journal.getD [] else []
  { store with
    restored := false
    configuration := configuration.getD defaultConfiguration
    entries := entries
    error := rulesError.or journalError
    executed := entries.map entryKey
    pending := ∅
    current := none
    waiting := false
    persisting := false
    acknowledging := false
    nativeEvent := false
    notifySession := false
    torrents := torrents.foldl
      (fun table torrent => table.insert torrent.id { torrent with completing := false }) ∅
    held := [] }

def updateTorrent (policy : Policy) (id : String) (change : Torrent → Torrent) : Policy :=
  { policy with
    torrents :=
      match policy.torrents.lookup id with
      | some torrent => policy.torrents.insert id (change torrent)
      | none => policy.torrents }

def setPreview (policy : Policy) (id : String) (enabled : Bool) : Policy :=
  policy.updateTorrent id fun torrent => { torrent with isCompletionPolicyPreview := enabled }

/-- `endCompletion`; a torrent that is not resumed stays stopped. -/
def endCompletion (policy : Policy) (id : String) (resume : Bool) : Policy :=
  policy.updateTorrent id fun torrent =>
    { torrent with completing := false, isStopped := torrent.isStopped && !resume }

def isBusy (policy : Policy) : Bool := policy.current.isSome

def hasError (policy : Policy) : Bool := policy.error.isSome

def evaluate (E : Environment) (policy : Policy) (torrent : Torrent) (rules : List Json) :
    List JsonObject :=
  if policy.hasError then [] else evaluateRules E policy.executed torrent rules

def activeRules (policy : Policy) : List Json :=
  if (policy.configuration.get "enabled").toBool then (policy.configuration.get "rules").toArray
  else []

/-- Whether the torrents have to be put into preview when the session is restored because of this
entry: its action was interrupted, or removed a torrent that is there again. -/
def isUnsettled (entry : JsonObject) : Bool :=
  !(entryStatus entry = "dispatched" && !hasAction entry "remove_torrent" &&
    !hasAction entry "delete_data")

def isAbout (entry : JsonObject) (torrent : Torrent) : Bool :=
  (entry.get "hash").toStr = torrent.id &&
    (entry.get "added_at").toStr = toString torrent.addedTime

/-- Whether the handler of `restored` puts a torrent into preview. -/
def holds (policy : Policy) (torrent : Torrent) : Bool :=
  policy.hasError ||
    policy.entries.any fun entry => isUnsettled entry && isAbout entry torrent

/-- The handler of `restored`. -/
def restore (policy : Policy) : Policy :=
  { policy with
    restored := true
    torrents := policy.torrents.mapValues fun _ torrent =>
      { torrent with
        isCompletionPolicyPreview := torrent.isCompletionPolicyPreview || policy.holds torrent }
    held := (policy.torrents.values.filter policy.holds).map Torrent.id }

/-- `configure`; `saved` says whether the file could be written. -/
def configure (E : Environment) (policy : Policy) (configuration : JsonObject) (saved : Bool) :
    Option String × Policy :=
  if policy.isBusy then (some "Wait for the current completion action to finish.", policy)
  else
    match validateConfiguration configuration with
    | some error => (some error, policy)
    | none =>
      match policy.error with
      | some error => (some error, policy)
      | none =>
        if !saved then (some E.errorString, policy)
        else (none, { policy with rules := some configuration, configuration := configuration })

def enqueue (policy : Policy) (id : String) (nativeEvent : Bool) : Policy :=
  { policy with
    pending := policy.pending.insert id ((policy.pending.lookup id).getD false || nativeEvent) }

def drain (policy : Policy) (torrent : Torrent) (nativeEvent acknowledging : Bool) : Policy :=
  { policy.updateTorrent torrent.id fun torrent =>
      { torrent with completing := true, isStopped := true } with
    current := some torrent.id
    nativeEvent := nativeEvent
    acknowledging := acknowledging
    persisting := false
    waiting := true }

/-- `acknowledgePreview`; `free` says whether `beginCompletion` finds the files free. -/
def acknowledgePreview (policy : Policy) (id : String) (free : Bool) : Option String × Policy :=
  match policy.error with
  | some error => (some error, policy)
  | none =>
    match (policy.torrents.lookup id).filter Torrent.isCompletionPolicyPreview with
    | none => (some "This torrent does not require a completion policy preview.", policy)
    | some torrent =>
      if policy.isBusy || !torrent.isStopped || torrent.completing || !free then
        (some "Stop the torrent and wait for its file operations before accepting the preview.",
          policy)
      else (none, policy.drain torrent policy.nativeEvent true)

/-- Whether `process` starts with this torrent. -/
def starts (E : Environment) (policy : Policy) (free : String → Bool) (torrent : Torrent) : Bool :=
  let actionable := (policy.evaluate E torrent policy.activeRules).any fun entry =>
    !(entry.get "already_claimed").toBool
  !torrent.isCompletionPolicyPreview && torrent.isReadyForCompletion &&
    ((policy.pending.lookup torrent.id).isSome || actionable) && free torrent.id

/-- `process`; `free` says whether `beginCompletion` finds the files of a torrent free, `canRun`
whether the session is done with all torrents. -/
def process (E : Environment) (policy : Policy) (free : String → Bool) (canRun : Bool) : Policy :=
  if policy.isBusy || policy.hasError || !policy.restored then policy
  else
    let policy := { policy with notifySession := policy.notifySession && !canRun }
    match policy.torrents.values.find? (policy.starts E free) with
    | none => policy
    | some torrent =>
      let nativeEvent := (policy.pending.lookup torrent.id).getD false
      { policy with pending := policy.pending.erase torrent.id }.drain torrent nativeEvent false

/-! ### `finish` -/

def claims (E : Environment) (policy : Policy) (torrent : Torrent) (removeCompleted : Bool)
    (time : String) : List JsonObject :=
  let rules := policy.activeRules ++ if removeCompleted then [.object builtinRule] else []
  ((policy.evaluate E torrent rules).filter fun entry =>
    !(entry.get "already_claimed").toBool).map fun entry =>
      ((entry.drop "already_claimed").set "time" (.string time)).set "status" (.string "claimed")

/-- `saveJournal`, with the assignment of its error. -/
def saveJournal (E : Environment) (entries : List JsonObject) : Prog Empty Policy Bool := do
  let saved ← Prog.tryEffect fun policy =>
    { policy with journal := some entries, entries := entries, error := none }
  Prog.when (!saved) do
    Prog.modify fun policy => { policy with error := some E.errorString }
  pure saved

/-- `terminal`: the last terminal action of the claims. -/
def terminalOf (claims : List JsonObject) : Option String :=
  claims.foldl (fun terminal claim =>
    ["stop", "remove_torrent", "delete_data"].foldl (fun terminal action =>
      if hasAction claim action then some action else terminal) terminal) none

/-- Whether an action removes the torrent. -/
def isDestructive (action : String) : Bool := action = "remove_torrent" || action = "delete_data"

def performing (claims : List JsonObject) (action : String) : List (String × String) :=
  (claims.filter fun claim => hasAction claim action).map fun claim => (entryKey claim, action)

def markLast (entries : List JsonObject) (n : ℕ) (status : String) : List JsonObject :=
  entries.take (entries.length - n) ++
    (entries.drop (entries.length - n)).map fun entry => entry.set "status" (.string status)

/-- After the claims are saved: notify, and give the torrent back unless it is stopped or removed. -/
def release (policy : Policy) (id : String) (success notifyFinished : Bool)
    (claims : List JsonObject) : Policy :=
  let terminal := if success then terminalOf claims else none
  let policy :=
    if success then
      { policy with
        executed := claims.map entryKey ++ policy.executed
        performed := performing claims "notify" ++
          (if terminal = some "stop" then performing claims "stop" else []) ++ policy.performed }
    else policy
  { policy.endCompletion id (success && terminal.isNone) with
    current := none
    notifySession := policy.notifySession || (success && notifyFinished) }

/-- Remove the torrent, if it is still there and still ready. -/
def dispatch (id : String) (claims : List JsonObject) (terminal : String) :
    Prog Empty Policy Bool := do
  let policy ← Prog.get
  match policy.torrents.lookup id with
  | none => pure true
  | some torrent =>
    let dispatched ←
      (if torrent.isReadyForCompletion then
        Prog.tryEffect fun policy =>
          { policy with
            torrents := policy.torrents.erase id
            pending := policy.pending.erase id
            held := policy.held.filter (· ≠ id)
            performed := performing claims terminal ++ policy.performed }
      else pure false)
    Prog.when (!dispatched) do
      Prog.modify fun policy => policy.setPreview id true
    pure dispatched

/-- `finish` for a completed torrent; `autoRemove` is the option to remove completed torrents. -/
def finishClaims (E : Environment) (torrent : Torrent) (notifyFinished autoRemove : Bool)
    (time : String) (success : Bool) : Prog Empty Policy Unit := do
  let policy ← Prog.get
  let claims :=
    if success && !torrent.isCompletionPolicyPreview then
      claims E policy torrent (notifyFinished && autoRemove) time
    else []
  let saved ← (if claims.isEmpty then pure true else saveJournal E (policy.entries ++ claims))
  let success := success && saved
  Prog.modify fun policy => policy.release torrent.id success notifyFinished claims
  let terminal := if success then (terminalOf claims).filter isDestructive else none
  let dispatched ←
    (match terminal with
    | some action => dispatch torrent.id claims action
    | none => pure true)
  let policy ← Prog.get
  Prog.when (success && !claims.isEmpty) do
    let _ ← saveJournal E
      (markLast policy.entries claims.length (if dispatched then "dispatched" else "blocked"))
    pure ()
  Prog.when (!success) do
    Prog.modify fun policy => policy.setPreview torrent.id true

def finishAcknowledging (policy : Policy) (id : String) (success : Bool) : Policy :=
  let policy := if success then policy else policy.setPreview id true
  { policy.endCompletion id false with
    current := none
    held := if success then policy.held.filter (· ≠ id) else policy.held }

def finish (E : Environment) (autoRemove : Bool) (time : String) (success : Bool) :
    Prog Empty Policy Unit := do
  let policy ← Prog.get
  Prog.modify fun policy => { policy with nativeEvent := false, waiting := false }
  match policy.current.bind policy.torrents.lookup with
  | none => Prog.modify fun policy => { policy with current := none }
  | some torrent =>
    if policy.acknowledging then
      Prog.modify fun policy => policy.finishAcknowledging torrent.id success
    else finishClaims E torrent policy.nativeEvent autoRemove time success

/-- The handler of the watcher: first the disk is drained, then the resume data persisted. -/
def watch (E : Environment) (result autoRemove : Bool) (time : String) :
    Prog Empty Policy Unit := do
  let policy ← Prog.get
  match policy.current with
  | none => finish E autoRemove time false
  | some id =>
    if !result then finish E autoRemove time false
    else if !policy.persisting then
      Prog.modify fun policy =>
        let policy := { policy with persisting := true }
        if policy.acknowledging then policy.setPreview id false else policy
    else finish E autoRemove time true

/-! ### The rest of the session -/

def add (policy : Policy) (torrent : Torrent) : Policy :=
  if (policy.torrents.lookup torrent.id).isSome then policy
  else
    { policy with torrents := policy.torrents.insert torrent.id { torrent with completing := false } }

/-- Anything about a torrent changes but its incarnation, its preview and the completion job. -/
def change (policy : Policy) (torrent : Torrent) : Policy :=
  policy.updateTorrent torrent.id fun old =>
    { torrent with
      addedTime := old.addedTime
      completing := old.completing
      isCompletionPolicyPreview := old.isCompletionPolicyPreview }

/-- A torrent is removed by someone else. -/
def remove (policy : Policy) (id : String) : Policy :=
  { policy with
    torrents := policy.torrents.erase id
    pending := policy.pending.erase id
    current := if policy.current = some id then none else policy.current
    held := policy.held.filter (· ≠ id) }

end Policy

/-- The labels of the system. -/
inductive Act where
  | start (torrents : List Torrent) (rulesReadable journalReadable : Bool)
  | restored
  | configure (configuration : JsonObject) (saved : Bool)
  | enqueue (id : String) (nativeEvent : Bool)
  | process (free : String → Bool) (canRun : Bool)
  | acknowledgePreview (id : String) (free : Bool)
  | watch (result autoRemove : Bool) (time : String) (script : List Fate)
  | add (torrent : Torrent)
  | change (torrent : Torrent)
  | remove (id : String)
  | crash

def step (E : Environment) : World → Act → Option World
  | .down store, .start torrents rulesReadable journalReadable =>
    some (.running (.construct store torrents rulesReadable journalReadable))
  | .running policy, .restored =>
    if policy.restored then none else some (.running policy.restore)
  | .running policy, .configure configuration saved =>
    some (.running (policy.configure E configuration saved).2)
  | .running policy, .enqueue id nativeEvent => some (.running (policy.enqueue id nativeEvent))
  | .running policy, .process free canRun => some (.running (policy.process E free canRun))
  | .running policy, .acknowledgePreview id free =>
    some (.running (policy.acknowledgePreview id free).2)
  | .running policy, .watch result autoRemove time script =>
    if !policy.waiting then none
    else
      match Policy.watch E result autoRemove time ⟨policy, script, []⟩ with
      | (.ok _, run) => some (.running run.state)
      | (.error _, run) => some (.down run.state.toStore)
  | .running policy, .add torrent => some (.running (policy.add torrent))
  | .running policy, .change torrent => some (.running (policy.change torrent))
  | .running policy, .remove id => some (.running (policy.remove id))
  | .running policy, .crash => some (.down policy.toStore)
  | _, _ => none

/-- Runs over any number of sessions, from a new installation. -/
def policySystem (E : Environment) : System World Act where
  initial w := w = .down ⟨none, none, []⟩
  step := step E

end Qbutt.Completion
