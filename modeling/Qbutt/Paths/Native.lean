import Qbutt.Paths.System

/-!
# Runs on the direct connection

The operations that give the direct endpoints their generations, in any order and with any lists of
endpoints that the adapters may have.
-/

namespace Qbutt.Paths

open Action

/-- What `nativeEndpointsForInterface` returns: at most one direct endpoint for each address family. -/
structure NativeEndpoints where
  list : List PeerRouteEndpoint
  native : ∀ endpoint ∈ list, endpoint.type = .native ∧ endpoint.pathId = 1 ∧
    endpoint.supportsIPv6 = !endpoint.supportsIPv4
  families : (list.map PeerRouteEndpoint.supportsIPv4).Nodup

/-- The operations; `refreshNativeRoute` finds the endpoints, and the others are given them. -/
inductive NativeCall where
  | refresh (force : Bool) (endpoints : NativeEndpoints)
  | apply (mode nativeInterface : String) (endpoints : NativeEndpoints)
  | stop (pathId : Option ℕ)

/-- What an operation does. -/
def NativeCall.run : NativeCall → Action State Unit
  | .refresh force endpoints => do
    modify fun s =>
      { s with surroundings :=
          { s.surroundings with nativeEndpointsForSessionBinding := fun _ _ => endpoints.list } }
    forget (refreshNativeRoute force)
  | .apply mode nativeInterface endpoints =>
    forget (applyPolicy mode nativeInterface endpoints.list)
  | .stop pathId => handle (.stopPath pathId)

/-- A step: the operation, what is found then, and the answers of the environment. -/
structure NativeLabel where
  call : NativeCall
  surroundings : Surroundings
  answers : List (Query × Bool)

/-- A step is taken when all questions of the manager, and no others, are answered. -/
def nativeStep (s : State) (label : NativeLabel) : Option State :=
  let s' := (label.call.run { s with
    surroundings := label.surroundings, answers := label.answers, asked := [] }).2
  if s'.asked = label.answers then some s' else none

/-- The direct endpoints that the session ever accepted. -/
def State.inForce (s : State) : List PeerRouteEndpoint :=
  s.session.installed.filter fun endpoint => endpoint.type = .native

/-- Runs that start before there is any direct endpoint. -/
def nativeRuns : System State NativeLabel where
  initial s := s.nativeEndpoints = [] ∧ s.inForce = [] ∧
    ∀ path ∈ s.paths, path.endpoint.type ≠ .native
  step := nativeStep

/-! ### Generations that are given to another address -/

def SameAddress (left right : PeerRouteEndpoint) : Prop :=
  left.interfaceIndex = right.interfaceIndex ∧ left.localAddress = right.localAddress

instance (left right : PeerRouteEndpoint) : Decidable (SameAddress left right) :=
  inferInstanceAs (Decidable (_ ∧ _))

/-- The generation of the direct endpoints. -/
def State.currentGeneration (s : State) : ℕ :=
  (s.nativeEndpoints.head?.map PeerRouteEndpoint.generation).getD 0

/-- `assignNativeGeneration` keeps the generation. -/
def State.reuses (s : State) (endpoints : List PeerRouteEndpoint) : Bool :=
  !endpoints.isEmpty && retainedAddress s.nativeEndpoints endpoints &&
    !changedFamily s.nativeEndpoints endpoints

/-- The generation is kept for a family that had another address under it. -/
def State.Returns (s : State) (endpoints : List PeerRouteEndpoint) : Prop :=
  s.reuses endpoints = true ∧ ∃ endpoint ∈ endpoints, ∃ earlier ∈ s.inForce,
    earlier.generation = s.currentGeneration ∧ earlier.supportsIPv4 = endpoint.supportsIPv4 ∧
      ¬ SameAddress earlier endpoint

end Qbutt.Paths
