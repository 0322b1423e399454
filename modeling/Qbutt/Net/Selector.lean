import Mathlib.Algebra.Group.Int.Defs
import Mathlib.Algebra.Group.Nat.Defs
import Qbutt.Algorithm.Transition
import Qbutt.Net.Diagnostics

/-!
# The peer route selector

`PeerRouteSelector`: the choice of a route for every new peer connection, and what is remembered
about peers and routes to make it.  A selector takes over the history of its predecessor; only the
installed selector is called, so the history is kept in it.

Scores are numbers of a type `K` with the operations of `double` that the code uses, and nothing is
assumed about these.  `none` is the exception of `std::map::at`.
-/

namespace Qbutt.Net

/-- The arithmetic of the scores; `less` is `<`, and `decayFactor t` is the factor by which a window
of two minutes decays in the time `t`. -/
class Score (K : Type) extends Add K, Sub K, Mul K, Div K, IntCast K where
  less : K → K → Bool
  isZero : K → Bool
  decayFactor : Time → K

def maxPeerHistory : ℕ := 16384

/-- `PeerKey`: a torrent and an endpoint. -/
abbrev PeerKey (η : Type) := η × Endpoint

structure Failure where
  retryAfter : Time := 0
  count : ℕ := 0
  deriving DecidableEq, Repr

structure PeerHistory where
  touched : Time := 0
  failures : Table RouteKey Failure := ∅

structure RouteHistory (K : Type) where
  updated : Time
  verifiedBytes : K
  demandMilliseconds : K
  failurePressure : K
  recentAssignments : K

structure History (K η : Type) where
  peers : Table (PeerKey η) PeerHistory
  routes : Table RouteKey (RouteHistory K)
  nextMaintenance : Time
  attempts : UInt64

structure Selector (K η : Type) where
  routes : List Route
  mixed : Bool
  history : History K η
  diagnosticHistory : DiagnosticHistory
  catalogApplied : Bool

variable {K η : Type} [Score K]

/-- The time for which a failed peer is kept off a route. -/
def cooldown (count : ℕ) : Time := seconds (15 * 2 ^ count)

def PeerHistory.fail (peer : PeerHistory) (key : RouteKey) (now : Time) : PeerHistory :=
  let count := min 4 (((peer.failures.lookup key).getD {}).count + 1)
  { touched := now
    failures := peer.failures.insert key ⟨now + cooldown count, count⟩ }

namespace RouteHistory

def new (now : Time) : RouteHistory K where
  updated := now
  verifiedBytes := (0 : ℤ)
  demandMilliseconds := (0 : ℤ)
  failurePressure := (0 : ℤ)
  recentAssignments := (0 : ℤ)

def decay (history : RouteHistory K) (now : Time) : RouteHistory K :=
  let factor := Score.decayFactor (now - history.updated)
  { updated := now
    verifiedBytes := history.verifiedBytes * factor
    demandMilliseconds := history.demandMilliseconds * factor
    failurePressure := history.failurePressure * factor
    recentAssignments := history.recentAssignments * factor }

/-- Count an admission. -/
def assign (history : RouteHistory K) : RouteHistory K :=
  { history with recentAssignments := history.recentAssignments + (1 : ℤ) }

def usefulRate (history : RouteHistory K) : K :=
  let unmeasured : K := ((16 * 1024 : ℤ) : K)
  if Score.less ((0 : ℤ) : K) history.verifiedBytes &&
      Score.less ((0 : ℤ) : K) history.demandMilliseconds then
    let bytesPerSecond :=
      history.verifiedBytes * ((1000 : ℤ) : K) / history.demandMilliseconds
    let sampled := history.demandMilliseconds / ((1000 : ℤ) : K)
    let one : K := (1 : ℤ)
    unmeasured + (bytesPerSecond - unmeasured) * (if Score.less sampled one then sampled else one)
  else unmeasured

def score (history : RouteHistory K) : K :=
  let one : K := (1 : ℤ)
  let threeQuarters : K := ((3 : ℤ) : K) / ((4 : ℤ) : K)
  history.usefulRate * (one - threeQuarters * history.failurePressure) /
    (one + history.recentAssignments)

end RouteHistory

/-- `eligible`: whether a route may carry a connection to a peer of this family. -/
def eligible (request : Request η) (entry : Route) : Bool :=
  let route := entry.binding
  let ipv4 := request.peer.isV4
  (route.type = .socks5 || route.type = .native) &&
    (if ipv4 then entry.supportsIPv4 else entry.supportsIPv6) &&
    (route.type ≠ .native || route.localEndpoint.isV4 == ipv4)

namespace Selector

/-- The constructor; it takes over the history of the previous selector, if there is one. -/
def new (routes : List Route) (mixed : Bool) (diagnostics : Option DiagnosticHistory)
    (previous : Option (Selector K η)) (now : Time) : Selector K η where
  routes := routes
  mixed := mixed
  history := (previous.map Selector.history).getD ⟨∅, ∅, 0, 0⟩
  diagnosticHistory := (diagnostics.getD {}).configure routes now
  catalogApplied := false

/-- The first part of `maintain`: bring the history in line with a new catalog. -/
def applyCatalog [DecidableEq η] (selector : Selector K η) (now : Time) : Selector K η :=
  if selector.catalogApplied then selector
  else
    let kept := selector.history.routes.eraseIf fun key _ =>
      selector.routes.all fun route => key ≠ route.key
    let routes := selector.routes.foldl (fun routes route => routes.tryEmplace route.key (.new now))
      kept
    let peers := selector.history.peers.mapValues fun _ peer =>
      { peer with failures := peer.failures.eraseIf fun key _ => !(routes.lookup key).isSome }
    { selector with
      history := { selector.history with routes := routes, peers := peers }
      catalogApplied := true }

def maintain [DecidableEq η] (selector : Selector K η) (now : Time) : Selector K η :=
  let selector := selector.applyCatalog now
  let history := selector.history
  if now < history.nextMaintenance then selector
  else
    { selector with
      history :=
        { history with
          peers := history.peers.eraseIf fun _ peer => now - peer.touched > historyTtl
          nextMaintenance := now + minutes 1 } }

/-- Report a decision to the diagnostics. -/
def selected (selector : Selector K η) (route : PeerRouteContext) (decision : Decision)
    (now : Time) : Selector K η :=
  { selector with
    diagnosticHistory := selector.diagnosticHistory.selected route decision now }

def noContext : PeerRouteContext := ⟨0, 0⟩

def blocked : PeerRoute := ⟨.blocked, noContext, ⟨false, 0, 0, 0⟩⟩

/-- The choice outside of mixed mode and for torrents not known to be public: a route with the
context of the first entry of the catalog. -/
def selectPinned (selector : Selector K η) (request : Request η) (first : Route)
    (now later : Time) : Option (PeerRoute × Selector K η) :=
  match selector.routes.find? fun entry =>
      entry.binding.context = first.binding.context && eligible request entry with
  | none => some (blocked, selector.selected noContext .blockedNoRoute later)
  | some pinned =>
    let route := pinned.binding
    match selector.history.routes.lookup pinned.key with
    | none => none
    | some history =>
      let routes := selector.history.routes.insert pinned.key (history.decay now).assign
      let selector := { selector with history := { selector.history with routes := routes } }
      some (route, selector.selected route.context .pinned later)

/-- The entry of a peer, which is new or touched; the oldest one makes room for a new one. -/
def touchPeer [LinearOrder η] (peers : Table (PeerKey η) PeerHistory) (key : PeerKey η)
    (now : Time) : PeerHistory × Table (PeerKey η) PeerHistory :=
  match peers.lookup key with
  | some peer =>
    let peer := { peer with touched := now }
    (peer, peers.insert key peer)
  | none =>
    let kept :=
      if peers.size ≥ maxPeerHistory then
        match peers.argmin fun key peer => toLex (peer.touched, toLex key) with
        | some oldest => peers.erase oldest
        | none => peers
      else peers
    let peer : PeerHistory := { touched := now }
    (peer, kept.insert key peer)

/-- What the loop over the catalog carries along: the histories of the routes, the best route so far
with its score and its number of failures, and the least tried one. -/
structure Candidates (K : Type) where
  routes : Table RouteKey (RouteHistory K)
  selected : Option (Route × K × ℕ)
  leastTried : Option Route

/-- Whether a route takes the place of the best one so far. -/
def better (selected : Option (Route × K × ℕ)) (score : K) (failures : ℕ) : Bool :=
  match selected with
  | none => true
  | some (_, bestScore, fewestFailures) =>
    failures < fewestFailures || (failures = fewestFailures && Score.less bestScore score)

/-- Take a route into account that is neither unusable for the peer nor in a cooldown. -/
def admitRoute (now : Time) (failures : ℕ) (candidates : Candidates K) (entry : Route) :
    Option (Candidates K) :=
  match candidates.routes.lookup entry.key with
  | none => none
  | some history =>
    let history := history.decay now
    let routes := candidates.routes.insert entry.key history
    let selected :=
      if better candidates.selected history.score failures then
        some (entry, history.score, failures)
      else candidates.selected
    match candidates.leastTried with
    | none => some ⟨routes, selected, some entry⟩
    | some leastTried =>
      match routes.lookup leastTried.key with
      | none => none
      | some least =>
        some ⟨routes, selected,
          if Score.less history.recentAssignments least.recentAssignments then some entry
          else some leastTried⟩

/-- One round of the loop over the catalog. -/
def consider (request : Request η) (failures : Table RouteKey Failure) (now : Time)
    (candidates : Candidates K) (entry : Route) : Option (Candidates K) :=
  if !eligible request entry then some candidates
  else
    match failures.lookup entry.key with
    | none => admitRoute now 0 candidates entry
    | some failure =>
      if failure.retryAfter > now then some candidates
      else admitRoute now failure.count candidates entry

/-- The choice in mixed mode. -/
def selectMixed [LinearOrder η] (selector : Selector K η) (request : Request η)
    (now later : Time) : Option (PeerRoute × Selector K η) :=
  let (peer, peers) := touchPeer selector.history.peers (request.infoHashes, request.peer) now
  match selector.routes.foldlM (consider request peer.failures now)
      ⟨selector.history.routes, none, none⟩ with
  | none => none
  | some ⟨routes, none, _⟩ =>
    let selector :=
      { selector with history := { selector.history with peers := peers, routes := routes } }
    some (blocked, selector.selected noContext .blockedCooldown later)
  | some ⟨_, some _, none⟩ => none
  | some ⟨routes, some (best, _, _), some leastTried⟩ =>
    let attempts := selector.history.attempts + 1
    match routes.lookup leastTried.key with
    | none => none
    | some least =>
      let explore := Score.isZero least.recentAssignments || attempts % 10 == 0
      let entry := if explore then leastTried else best
      match routes.lookup entry.key with
      | none => none
      | some history =>
        let selector :=
          { selector with
            history :=
              { selector.history with
                peers := peers
                routes := routes.insert entry.key history.assign
                attempts := attempts } }
        some (entry.binding, selector.selected entry.binding.context
          (if explore then .exploration else .bestScore) later)

/-- Whether the torrent of a request has to stay with the first route of the catalog. -/
def isPinned (selector : Selector K η) (request : Request η) : Bool :=
  !selector.mixed || request.privateTorrent || !request.hasMetadata

/-- `select`; `now` is the reading of the clock it starts with, `later` that of the diagnostics. -/
def select [LinearOrder η] (selector : Selector K η) (request : Request η) (now later : Time) :
    Option (PeerRoute × Selector K η) :=
  let selector := selector.maintain now
  match selector.routes with
  | [] => some (blocked, selector.selected noContext .blockedNoRoute later)
  | first :: _ =>
    if selector.isPinned request then selector.selectPinned request first now later
    else selector.selectMixed request now later

/-- Whether an observation shows that the connection got past its handshake. -/
def isProductive (observation : Observation η) : Bool :=
  observation.event = .activity &&
    (observation.payloadDownload > 0 || observation.payloadUpload > 0 ||
      observation.demandDurationMs > 0 || observation.chokedDurationMs > 0)

/-- Whether a closed connection counts against the whole route. -/
def penalizesRoute (observation : Observation η) : Bool :=
  isConnectionFailure observation.error observation.operation &&
    (observation.operation = .connect || observation.error = .networkDown ||
      observation.error = .networkReset || observation.error = .networkUnreachable ||
      observation.error = .hostUnreachable)

/-- Whether a closed connection counts against the route for this peer. -/
def penalizesPeer (observation : Observation η) : Bool :=
  isConnectionFailure observation.error observation.operation ||
    isEstablishmentFailure observation.error observation.operation ||
    observation.error = .timedOutNoHandshake || observation.error = .eof

def learn (observation : Observation η) (now : Time) (history : RouteHistory K)
    (peer : Option PeerHistory) : RouteHistory K × Option PeerHistory :=
  let key := observation.route.key
  let fourFifths : K := ((4 : ℤ) : K) / ((5 : ℤ) : K)
  let decayed := history.decay now
  let history :=
    { decayed with
      verifiedBytes := decayed.verifiedBytes + (observation.verifiedDownload : K)
      demandMilliseconds := decayed.demandMilliseconds + (observation.demandDurationMs : K) }
  if isProductive observation then
    ({ history with failurePressure := history.failurePressure * fourFifths },
      peer.map fun peer => { peer with failures := peer.failures.erase key })
  else if observation.event = .closed ∧ penalizesPeer observation then
    (if penalizesRoute observation then
        { history with
          failurePressure :=
            fourFifths * history.failurePressure + ((1 : ℤ) : K) / ((5 : ℤ) : K) }
      else history,
      peer.map fun peer => peer.fail key now)
  else (history, peer)

def observe [DecidableEq η] (selector : Selector K η) (observation : Observation η)
    (now later : Time) : Selector K η :=
  let maintained := selector.maintain now
  let selector :=
    { maintained with
      diagnosticHistory := maintained.diagnosticHistory.observe observation later }
  let key : PeerKey η := (observation.infoHashes, observation.peer)
  match selector.history.routes.lookup observation.route.key with
  | none => selector
  | some history =>
    let (history, peer) := learn observation now history (selector.history.peers.lookup key)
    { selector with
      history :=
        { selector.history with
          routes := selector.history.routes.insert observation.route.key history
          peers :=
            match peer with
            | some peer => selector.history.peers.insert key peer
            | none => selector.history.peers } }

end Selector

/-! ### Chains of selectors -/

structure Installed (K η : Type) where
  selector : Selector K η
  clock : Time

/-- The labels of the system: install a selector, with or without the diagnostics and the history of
the previous one, or call the installed one. -/
inductive Act (η : Type) where
  | install (routes : List Route) (mixed diagnostics inherit : Bool) (now : Time)
  | retire (now : Time)
  | select (request : Request η) (now later : Time)
  | observe (observation : Observation η) (now later : Time)

/-- The clock never goes backwards. -/
def Monotone (s : Installed K η) : Act η → Prop
  | .install _ _ _ _ now | .retire now => s.clock ≤ now
  | .select _ now later | .observe _ now later => s.clock ≤ now ∧ now ≤ later

def step [LinearOrder η] (s : Installed K η) : Act η → Option (Installed K η)
  | .install routes mixed diagnostics inherit now =>
    let kept := if diagnostics then some s.selector.diagnosticHistory else none
    let previous := if inherit then some s.selector else none
    some ⟨.new routes mixed kept previous now, now⟩
  | .retire now =>
    some ⟨{ s.selector with diagnosticHistory := s.selector.diagnosticHistory.retire now }, now⟩
  | .select request now later =>
    (s.selector.select request now later).map fun result => ⟨result.2, later⟩
  | .observe observation now later =>
    some ⟨s.selector.observe observation now later, later⟩

/-- Chains of selectors and runs of their calls, from any first selector. -/
def selectorSystem [LinearOrder η] : System (Installed K η) (Act η) where
  initial s := ∃ routes mixed now, s = ⟨.new routes mixed none none now, now⟩
  step := step

end Qbutt.Net

/-!
## Runs of all operations of the selector

The runs of `Qbutt.Net.Selector` with two more labels: maintenance by itself, and a report of a
decision to the diagnostics by itself.  A history variable holds the events that fell to the size
limit of the installed selector's diagnostics; the code does not keep them.
-/

namespace Qbutt.Net

variable {K η : Type} [Score K]

namespace DiagnosticHistory

/-- The events that fall to the size limit when another one is recorded. -/
def overflow (history : DiagnosticHistory) : List EventRecord :=
  if history.events.length ≥ maxDiagnosticEvents then history.events.head?.toList else []

end DiagnosticHistory

/-- An installed selector, and the events that fell to the size limit of its diagnostics. -/
structure Memory (K η : Type) where
  installed : Installed K η
  dropped : List EventRecord

inductive Call (η : Type) where
  | act (a : Act η)
  | maintain (now : Time)
  | selected (route : PeerRouteContext) (decision : Decision) (now : Time)

namespace Memory

/-- The diagnostics of the installed selector. -/
def diagnostics (m : Memory K η) : DiagnosticHistory := m.installed.selector.diagnosticHistory

/-- The clock never goes backwards. -/
def Monotone (m : Memory K η) : Call η → Prop
  | .act a => Net.Monotone m.installed a
  | .maintain now | .selected _ _ now => m.installed.clock ≤ now

def droppedAfter (m : Memory K η) : Act η → List EventRecord
  | .install _ _ diagnostics _ _ => if diagnostics then m.dropped else []
  | .select .. => m.dropped ++ m.diagnostics.overflow
  | .retire _ | .observe .. => m.dropped

def step [LinearOrder η] (m : Memory K η) : Call η → Option (Memory K η)
  | .act a => (Net.step m.installed a).map fun installed => ⟨installed, m.droppedAfter a⟩
  | .maintain now => some ⟨⟨m.installed.selector.maintain now, now⟩, m.dropped⟩
  | .selected route decision now =>
    some ⟨⟨m.installed.selector.selected route decision now, now⟩,
      m.dropped ++ m.diagnostics.overflow⟩

end Memory

/-- Chains of selectors and runs of all operations, from any first selector. -/
def memorySystem [LinearOrder η] : System (Memory K η) (Call η) where
  initial m := selectorSystem.initial m.installed ∧ m.dropped = []
  step := Memory.step

end Qbutt.Net
