import Qbutt.Algorithm.Except
import Qbutt.Algorithm.Table
import Qbutt.Algorithm.Transition

/-!
# Messages between the broker and browsers

What a browser's extension sends over its connection: first a `Hello` that names the browser, then
responses to commands.  Both are checked before they reach the actor; a connection that sends
anything else ends.  JSON values of replies are of a type `ν`, decoded replies of a type `ρ`.
-/

namespace Qbutt.Browser

inductive BrowserError where
  | ownerExists | startFailed | browserRequired | choiceRequired | busy | updateRequired
  | invalidRequest | invalidResponse | responseTooLarge | selectionChanged | selectionUnavailable
  | disconnected | timeout | stopped | verificationRequired | browserCheckRequired | loginRequired
  | unsupportedMultiAudio | unsupportedPrivateTracks | captureExpired | sourceUnavailable
  deriving DecidableEq

inductive BrowserId where
  | edge | chrome
  deriving DecidableEq

inductive BrowserChoice where
  | auto | edge | chrome
  deriving DecidableEq

/-- What a connected browser said of itself. -/
structure BrowserConnection where
  browser : BrowserId
  userAgent : String
  capabilities : List String
  deriving DecidableEq

structure BrowserStatus where
  connections : List BrowserConnection := []
  stopped : Bool := false
  deriving DecidableEq

/-- A command, with its options as their JSON text. -/
inductive BrowserCommand where
  | cookies (url : String)
  | libSession (url : String)
  | fetch (url init : String)
  | resolve (url options : String)
  | vkSearch (url query : String)
  deriving DecidableEq

def BrowserCommand.capability : BrowserCommand → Option String
  | vkSearch _ _ => some "vk-search"
  | libSession _ => some "lib-session"
  | _ => none

/-! ### Greetings -/

structure Hello where
  kind : String
  browser : BrowserId
  version : ℕ
  userAgent : String
  capabilities : List String

/-- `validation::text`, with the blank and control characters of the language. -/
def text (isWhitespace isControl : Char → Bool) (value : String) (max : ℕ) : Bool :=
  !value.toList.all isWhitespace && value.length ≤ max && !value.toList.any isControl

def capabilityValid (value : String) : Bool :=
  !(value = "" || value.utf8ByteSize > 40 ||
    !value.toList.all fun c => ('a' ≤ c && c ≤ 'z') || c = '-')

def Hello.connection (isWhitespace isControl : Char → Bool) (hello : Hello) :
    Except BrowserError BrowserConnection :=
  if hello.kind ≠ "hello" || hello.version ≠ 1 ||
      !text isWhitespace isControl hello.userAgent 1024 || hello.capabilities.length > 16 ||
      hello.capabilities.any fun value => !capabilityValid value then
    .error .invalidResponse
  else
    .ok
      { browser := hello.browser
        userAgent := hello.userAgent
        capabilities := hello.capabilities }

/-! ### Responses -/

structure RemoteError where
  code : String
  message : String
  url : Option String

def RemoteError.error (remote : RemoteError) : BrowserError :=
  if remote.code.utf8ByteSize > 64 || remote.message.utf8ByteSize > 4096 ||
      remote.url.any fun value => value.utf8ByteSize > 8192 then .invalidResponse
  else
    match remote.code with
    | "verification_required" => .verificationRequired
    | "browser_check_required" => .browserCheckRequired
    | "login_required" => .loginRequired
    | "browser_timeout" => .timeout
    | "unsupported_multi_audio" => .unsupportedMultiAudio
    | "unsupported_private_tracks" => .unsupportedPrivateTracks
    | "capture_expired" => .captureExpired
    | "selected_content_changed" => .selectionChanged
    | "selection_unavailable" => .selectionUnavailable
    | "browser_busy" => .busy
    | "browser_required" => .browserRequired
    | "response_too_large" => .responseTooLarge
    | _ => .sourceUnavailable

/-- The largest identifier that JavaScript represents exactly. -/
def maxId : ℕ := 9007199254740991

structure Response (ν : Type) where
  id : ℕ
  result : Option ν
  error : Option RemoteError

/-- A response as the actor gets it: it has an error or a result. -/
inductive Payload (ν : Type) where
  | result (value : ν)
  | error (error : RemoteError)

/-- What `transport` tells the actor. -/
inductive Event (ν : Type) where
  | hello (connection : ℕ) (metadata : BrowserConnection)
  | response (connection : ℕ) (id : ℕ) (payload : Payload ν)

/-- The first frame of a connection: a hello that is in order, or the connection ends. -/
def greet {ν : Type} (isWhitespace isControl : Char → Bool) (connection : ℕ) (hello : Hello) :
    Option (Event ν) :=
  match hello.connection isWhitespace isControl with
  | .error _ => none
  | .ok metadata => some (.hello connection metadata)

/-- A later frame, as `read_responses` checks it: the identifier is in range and there is either a
result or an error, or the connection ends. -/
def readResponse {ν : Type} (connection : ℕ) (response : Response ν) : Option (Event ν) :=
  if response.id = 0 || response.id > maxId then none
  else
    match response.result, response.error with
    | some value, none => some (.response connection response.id (.result value))
    | none, some error => some (.response connection response.id (.error error))
    | _, _ => none

end Qbutt.Browser

/-!
## The broker of browser requests

`browser::actor::run` as a transition system.  A step is one turn of the actor's loop, in which the
scheduler picks a ready branch of `select!`, or something outside happens: a caller submits a request
or goes away, a connection sends a frame, takes a command or ends, or the broker is stopped.

What the actor did is written down in the state: the requests it took from the queue (`taken`), the
commands it sent (`sent`), the responses that ended a request (`heard`) and the result of each request
(`answers`).  A request whose sender is dropped gives its caller `Stopped`, as `request_inner` makes of
it.  Clocks are read anew for every request that is looked at.
-/

namespace Qbutt.Browser

variable {ν ρ : Type}

/-- What the program takes from other modules: the characters of Unicode, and how a command decodes
the value of its reply. -/
structure Env (ν ρ : Type) where
  isWhitespace : Char → Bool
  isControl : Char → Bool
  reply : BrowserCommand → ν → Except BrowserError ρ

structure Request where
  caller : ℕ
  choice : BrowserChoice
  connection : Option ℕ
  command : BrowserCommand
  deadline : ℕ
  deriving DecidableEq

structure Outcome (ρ : Type) where
  identity : ℕ
  connection : BrowserConnection
  reply : ρ

structure Client where
  metadata : Option BrowserConnection

structure Pending where
  connection : ℕ
  metadata : BrowserConnection
  request : Request

inductive WireMessage where
  | command (id : ℕ) (command : BrowserCommand)
  | cancel (id : ℕ)

inductive TaskPhase where
  | greeting | serving | ended
  deriving DecidableEq

/-- The task of a connection, with the queue of its outgoing messages. -/
structure Task where
  phase : TaskPhase := .greeting
  outgoing : List WireMessage := []
  stop : Bool := false

/-- A command that was put into the queue of a connection. -/
structure Sent where
  connection : ℕ
  id : ℕ
  request : Request

/-- A response that ended a request, and whether its connection was registered then. -/
structure Heard where
  connection : ℕ
  id : ℕ
  registered : Bool

structure State (ν ρ : Type) where
  clients : Table ℕ Client := ∅
  pending : Table ℕ Pending := ∅
  tasks : Table ℕ Task := ∅
  nextConnection : ℕ := 0
  nextRequest : ℕ := 0
  status : BrowserStatus := {}
  running : Bool := true
  /-- The channels of events and of requests, and the stop signal. -/
  received : List (Event ν) := []
  incoming : List Request := []
  stopping : Bool := false
  /-- The requests that were submitted, and the callers that went away. -/
  submitted : ℕ := 0
  gone : List ℕ := []
  taken : List Request := []
  sent : List Sent := []
  heard : List Heard := []
  answers : List (ℕ × Except BrowserError (Outcome ρ)) := []

namespace State

/-! ### The parts of a turn -/

/-- `reply.send`. -/
def answer (s : State ν ρ) (caller : ℕ) (result : Except BrowserError (Outcome ρ)) : State ν ρ :=
  { s with answers := s.answers ++ [(caller, result)] }

/-- Remove a pending request and answer it. -/
def settle (s : State ν ρ) (id : ℕ) (result : Pending → Except BrowserError (Outcome ρ)) :
    State ν ρ :=
  match s.pending.lookup id with
  | none => s
  | some request =>
    { s with pending := s.pending.erase id }.answer request.request.caller (result request)

/-- Unregister a connection and tell its task to stop. -/
def release (s : State ν ρ) (connection : ℕ) : State ν ρ :=
  match s.clients.lookup connection with
  | none => s
  | some _ =>
    { s with
      clients := s.clients.erase connection
      tasks :=
        match s.tasks.lookup connection with
        | none => s.tasks
        | some task => s.tasks.insert connection { task with stop := true } }

/-- Answer pending requests with one error. -/
def settleAll (s : State ν ρ) (ids : List ℕ) (error : BrowserError) : State ν ρ :=
  ids.foldl (fun s id => s.settle id fun _ => .error error) s

def disconnect (s : State ν ρ) (connection : ℕ) : State ν ρ :=
  let s := s.release connection
  let affected := (s.pending.ordered.filter fun entry => entry.2.connection = connection).map Prod.fst
  s.settleAll affected .disconnected

/-- What the registered connections said of themselves. -/
def connections (s : State ν ρ) : List BrowserConnection :=
  s.clients.ordered.filterMap fun entry => entry.2.metadata

def publishStatus (s : State ν ρ) : State ν ρ :=
  { s with status := { connections := s.connections, stopped := false } }

/-- `outgoing.try_send`: a queue of sixteen messages that is there as long as the task runs. -/
def trySend (s : State ν ρ) (connection : ℕ) (message : WireMessage) : Option (State ν ρ) :=
  match s.tasks.lookup connection with
  | none => none
  | some task =>
    if task.phase = .ended || 16 ≤ task.outgoing.length then none
    else
      some
        { s with
          tasks := s.tasks.insert connection { task with outgoing := task.outgoing ++ [message] } }

def choose (choice : BrowserChoice) (clients : Table ℕ Client) : Except BrowserError ℕ :=
  let connected := clients.ordered.filterMap fun entry =>
    entry.2.metadata.map fun metadata => (entry.1, metadata.browser)
  let ofBrowser := fun browser =>
    match connected.find? fun entry => entry.2 = browser with
    | none => .error .browserRequired
    | some entry => .ok entry.1
  match choice with
  | .auto =>
    match connected with
    | [(id, _)] => .ok id
    | [] => .error .browserRequired
    | _ => .error .choiceRequired
  | .edge => ofBrowser .edge
  | .chrome => ofBrowser .chrome

def metadataOf (s : State ν ρ) (connection : ℕ) : Option BrowserConnection :=
  (s.clients.lookup connection).bind Client.metadata

/-- The connection that a request goes to. -/
def select (s : State ν ρ) (request : Request) : Except BrowserError ℕ :=
  match request.connection with
  | some connection =>
    if (s.metadataOf connection).isSome then .ok connection else .error .disconnected
  | none => choose request.choice s.clients

/-! ### The branches of a turn -/

/-- How a branch ends: with `continue`, with the sweep of expired requests, or with `break`. -/
inductive Flow (ν ρ : Type) where
  | again (s : State ν ρ)
  | sweep (s : State ν ρ)
  | leave (s : State ν ρ)

/-- A new connection. -/
def accept (s : State ν ρ) : Flow ν ρ :=
  let connection := s.nextConnection + 1
  .sweep
    { s with
      nextConnection := connection
      clients := s.clients.insert connection { metadata := none }
      tasks := s.tasks.insert connection {} }

def onHello (s : State ν ρ) (connection : ℕ) (metadata : BrowserConnection) : Flow ν ρ :=
  match s.clients.lookup connection with
  | none => .again s
  | some _ =>
    let replaced := (s.clients.ordered.filter fun entry =>
      entry.1 ≠ connection && entry.2.metadata.any fun old => old.browser = metadata.browser).map
        Prod.fst
    let s := replaced.foldl disconnect s
    .sweep
      ({ s with clients := s.clients.insert connection { metadata := some metadata } }.publishStatus)

/-- What a response makes of its request. -/
def resultOf (env : Env ν ρ) (connection : ℕ) (request : Pending) :
    Payload ν → Except BrowserError (Outcome ρ)
  | .error error => .error error.error
  | .result value =>
    (env.reply request.request.command value).map fun reply =>
      { identity := connection, connection := request.metadata, reply := reply }

def onResponse (env : Env ν ρ) (s : State ν ρ) (connection id : ℕ) (payload : Payload ν) :
    Flow ν ρ :=
  match s.pending.lookup id with
  | none => .again s
  | some request =>
    if request.connection ≠ connection then .again s
    else
      let heard :=
        { connection := connection
          id := id
          registered := (s.clients.lookup connection).isSome : Heard }
      .sweep
        ({ s with heard := s.heard ++ [heard] }.settle id fun request =>
          resultOf env connection request payload)

/-- A connection task that ended. -/
def onJoin (s : State ν ρ) (connection : ℕ) : Flow ν ρ :=
  .sweep (({ s with tasks := s.tasks.erase connection }.disconnect connection).publishStatus)

def dispatch (s : State ν ρ) (request : Request) (connection : ℕ) (metadata : BrowserConnection) :
    Flow ν ρ :=
  -- Identifiers must stay exact in JavaScript; the request is dropped with the loop.
  if maxId ≤ s.nextRequest then .leave (s.answer request.caller (.error .stopped))
  else
    let id := s.nextRequest + 1
    let s := { s with nextRequest := id }
    match s.trySend connection (.command id request.command) with
    | none =>
      .again (((s.answer request.caller (.error .disconnected)).disconnect connection).publishStatus)
    | some s =>
      .sweep
        { s with
          sent := s.sent ++ [{ connection := connection, id := id, request := request }]
          pending := s.pending.insert id
            { connection := connection, metadata := metadata, request := request } }

/-- A request from the queue, at a time. -/
def onRequest (s : State ν ρ) (request : Request) (now : ℕ) : Flow ν ρ :=
  if request.caller ∈ s.gone then .again s
  else if request.deadline ≤ now then .again (s.answer request.caller (.error .timeout))
  else
    match s.select request with
    | .error error => .again (s.answer request.caller (.error error))
    | .ok connection =>
      if 16 ≤ s.pending.size then .again (s.answer request.caller (.error .busy))
      else
        match s.metadataOf connection with
        | none => .again s
        | some metadata =>
          if request.command.capability.any fun required => !(metadata.capabilities.contains required)
          then .again (s.answer request.caller (.error .updateRequired))
          else s.dispatch request connection metadata

/-- Tell a connection that a request is canceled; a full queue disconnects it. -/
def cancel (s : State ν ρ) (connection id : ℕ) : State ν ρ :=
  match s.clients.lookup connection with
  | none => s
  | some _ =>
    match s.trySend connection (.cancel id) with
    | none => (s.disconnect connection).publishStatus
    | some s => s

/-- A request of the expired ones, unless it went with a disconnected connection. -/
def sweepOne (s : State ν ρ) (id : ℕ) : State ν ρ :=
  match s.pending.lookup id with
  | none => s
  | some request =>
    ({ s with pending := s.pending.erase id }.cancel request.connection id).answer
      request.request.caller (.error .timeout)

/-- The end of a turn: requests that expired or whose caller is gone are canceled.  `clock` is the
time at which each is looked at. -/
def sweep (s : State ν ρ) (clock : ℕ → ℕ) : State ν ρ :=
  let expired := (s.pending.ordered.filter fun entry =>
    entry.2.request.caller ∈ s.gone || entry.2.request.deadline ≤ clock entry.1).map Prod.fst
  expired.foldl sweepOne s

/-- After the loop: pending and queued requests are answered, connections are released. -/
def finish (s : State ν ρ) : State ν ρ :=
  let s := s.settleAll (s.pending.ordered.map Prod.fst) .stopped
  let s := s.incoming.foldl
    (fun s request => { s with taken := s.taken ++ [request] }.answer request.caller
      (.error .stopped)) s
  { s with
    incoming := []
    clients := ∅
    tasks := ∅
    running := false
    status := { connections := [], stopped := true } }

/-! ### Steps -/

/-- The branches of `select!`. -/
inductive Branch where
  | accepted
  | acceptFailed
  | event
  | joined (connection : ℕ)
  | joinFailed
  | request (now : ℕ)
  | canceled
  | expiry
  | stop

inductive Label (ν : Type) where
  | turn (branch : Branch) (clock : ℕ → ℕ)
  | submit (request : Request)
  | abandon (caller : ℕ)
  | greeting (connection : ℕ) (hello : Hello)
  | frame (connection : ℕ) (response : Response ν)
  | write (connection : ℕ)
  | endTask (connection : ℕ)
  | shutdown

/-- A branch that is ready, taken. -/
def branch (env : Env ν ρ) (s : State ν ρ) : Branch → Option (Flow ν ρ)
  | .accepted => if s.tasks.size < 4 then some s.accept else none
  | .acceptFailed => if s.tasks.size < 4 then some (.leave s) else none
  | .event =>
    match s.received with
    | [] => none
    | .hello connection metadata :: received =>
      some ({ s with received := received }.onHello connection metadata)
    | .response connection id payload :: received =>
      some ({ s with received := received }.onResponse env connection id payload)
  | .joined connection =>
    match s.tasks.lookup connection with
    | none => none
    | some task => if task.phase = .ended then some (s.onJoin connection) else none
  | .joinFailed => if s.tasks.size = 0 then none else some (.leave s)
  | .request now =>
    match s.incoming with
    | [] => none
    | request :: incoming =>
      some ({ s with incoming := incoming, taken := s.taken ++ [request] }.onRequest request now)
  | .canceled => some (.sweep s)
  | .expiry => some (.sweep s)
  | .stop => if s.stopping then some (.leave s) else none

/-- The turn, after its branch. -/
def complete (clock : ℕ → ℕ) : Flow ν ρ → State ν ρ
  | .again s => s
  | .sweep s => s.sweep clock
  | .leave s => s.finish

/-- What the task of a connection makes of a frame: an event for the actor, or the end of the
task. -/
def receive (s : State ν ρ) (connection : ℕ) (task : Task) : Option (Event ν) → State ν ρ
  | some event =>
    { s with
      received := s.received ++ [event]
      tasks := s.tasks.insert connection { task with phase := .serving } }
  | none => { s with tasks := s.tasks.insert connection { task with phase := .ended } }

def step (env : Env ν ρ) (s : State ν ρ) : Label ν → Option (State ν ρ)
  | .turn branch clock => if s.running then (s.branch env branch).map (complete clock) else none
  | .submit request =>
    -- The queue holds sixteen requests and is closed with the loop.
    if s.running && s.incoming.length < 16 && request.caller = s.submitted then
      some { s with incoming := s.incoming ++ [request], submitted := s.submitted + 1 }
    else none
  | .abandon caller => some { s with gone := caller :: s.gone }
  | .greeting connection hello =>
    match s.tasks.lookup connection with
    | none => none
    | some task =>
      if task.phase = .greeting && s.received.length < 32 then
        some (s.receive connection task (greet env.isWhitespace env.isControl connection hello))
      else none
  | .frame connection response =>
    match s.tasks.lookup connection with
    | none => none
    | some task =>
      if task.phase = .serving && s.received.length < 32 then
        some (s.receive connection task (readResponse connection response))
      else none
  | .write connection =>
    match s.tasks.lookup connection with
    | none => none
    | some task =>
      match task.outgoing with
      | [] => none
      | _ :: outgoing =>
        if task.phase = .serving then
          some { s with tasks := s.tasks.insert connection { task with outgoing := outgoing } }
        else none
  | .endTask connection =>
    match s.tasks.lookup connection with
    | none => none
    | some task =>
      some { s with tasks := s.tasks.insert connection { task with phase := .ended } }
  | .shutdown => some { s with stopping := true }

end State

def broker (env : Env ν ρ) : System (State ν ρ) (State.Label ν) where
  initial s := s = {}
  step := State.step env

end Qbutt.Browser
