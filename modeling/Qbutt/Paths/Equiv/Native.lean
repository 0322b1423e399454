import Mathlib.Data.List.Nodup
import Mathlib.Order.Nat
import Qbutt.Paths.Native

/-!
# The generations of the direct connection

Two direct endpoints of one family that were ever in force under one generation have the same interface
and the same address, and before a family has another address all endpoints of the earlier generation are
invalidated (`native_generations`), in every run in which no generation is kept for a family that comes
back elsewhere, no routes are refused to a refresh, and the mixed policy is not left again before it was
saved.
-/

namespace Qbutt.Paths

open Action List

/-! ### The view -/

/-- What there is of direct endpoints. -/
structure NativeView where
  types : List EndpointType
  endpoints : List PeerRouteEndpoint
  generation : ℕ
  installed : List PeerRouteEndpoint
  invalidated : List (ℕ × ℕ)

def nativeView (s : State) : NativeView where
  types := s.paths.map fun path => path.endpoint.type
  endpoints := s.nativeEndpoints
  generation := s.nativeGeneration
  installed := s.session.installed
  invalidated := s.session.invalidated

variable {endpoints kept : List PeerRouteEndpoint} {generation : ℕ}
  {s : State} {endpoint : PeerRouteEndpoint}

namespace NativeView

variable {v v' : NativeView} {kept kept' : List PeerRouteEndpoint}

/-- The direct endpoints that the session ever accepted. -/
def inForce (v : NativeView) : List PeerRouteEndpoint :=
  v.installed.filter fun endpoint => endpoint.type = .native

/-- The endpoints that were in force, those of the manager, and some that it has just replaced. -/
def known (v : NativeView) (kept : List PeerRouteEndpoint) : List PeerRouteEndpoint :=
  v.inForce ++ (kept ++ v.endpoints)

/-- A generation names one address for each family, and endpoints that were in force are invalidated
unless their generation is still that of a known endpoint. -/
structure Sound (kept : List PeerRouteEndpoint) (v : NativeView) : Prop where
  types : EndpointType.native ∉ v.types
  native : ∀ endpoint ∈ v.known kept, endpoint.type = .native ∧ endpoint.pathId = 1
  uniform : ∀ endpoint ∈ v.endpoints, ∀ other ∈ v.endpoints, endpoint.generation = other.generation
  bound : ∀ endpoint ∈ v.known kept, endpoint.generation ≤ v.generation
  law : ∀ endpoint ∈ v.known kept, ∀ other ∈ v.known kept,
    endpoint.generation = other.generation → endpoint.supportsIPv4 = other.supportsIPv4 →
      SameAddress endpoint other
  retired : ∀ endpoint ∈ v.inForce, (1, endpoint.generation) ∈ v.invalidated ∨
    ∃ other ∈ kept ++ v.endpoints, other.generation = endpoint.generation

theorem Sound.shrink (h : Sound kept v) (hknown : v'.known kept' ⊆ v.known kept)
    (types : EndpointType.native ∉ v'.types)
    (uniform : ∀ endpoint ∈ v'.endpoints, ∀ other ∈ v'.endpoints,
      endpoint.generation = other.generation)
    (hgeneration : v.generation ≤ v'.generation)
    (retired : ∀ endpoint ∈ v'.inForce, (1, endpoint.generation) ∈ v'.invalidated ∨
      ∃ other ∈ kept' ++ v'.endpoints, other.generation = endpoint.generation) :
    Sound kept' v' where
  types := types
  native endpoint h' := h.native endpoint (hknown h')
  uniform := uniform
  bound endpoint h' := (h.bound endpoint (hknown h')).trans hgeneration
  law endpoint h' other h'' := h.law endpoint (hknown h') other (hknown h'')
  retired := retired

/-- Routes are accepted whose direct endpoints are the manager's. -/
theorem Sound.install (h : Sound kept v)
    (hnative : ∀ endpoint ∈ endpoints, endpoint.type = .native → endpoint ∈ v.endpoints) :
    Sound kept { v with installed := v.installed ++ endpoints } := by
  have hforce : ∀ endpoint ∈ inForce { v with installed := v.installed ++ endpoints },
      endpoint ∈ v.inForce ∨ endpoint ∈ v.endpoints := by
    intro endpoint hendpoint
    rw [inForce, mem_filter, mem_append] at hendpoint
    obtain ⟨hold | hnew, htype⟩ := hendpoint
    · exact .inl (mem_filter.mpr ⟨hold, htype⟩)
    · exact .inr (hnative endpoint hnew (of_decide_eq_true htype))
  refine h.shrink ?_ h.types h.uniform le_rfl fun endpoint hendpoint => ?_
  · intro endpoint hendpoint
    rcases mem_append.mp hendpoint with hin | hout
    · rcases hforce endpoint hin with hold | hnew
      · exact mem_append_left _ hold
      · exact mem_append_right _ (mem_append_right _ hnew)
    · exact mem_append_right _ hout
  · rcases hforce endpoint hendpoint with hold | hnew
    · exact h.retired endpoint hold
    · exact .inr ⟨endpoint, mem_append_right _ hnew, rfl⟩

theorem Sound.invalidate (h : Sound kept v) {types : List EndpointType}
    (htypes : EndpointType.native ∉ types) (routes : List (ℕ × ℕ)) :
    Sound kept { v with types := types, invalidated := v.invalidated ++ routes } := by
  refine h.shrink (List.Subset.refl _) htypes h.uniform le_rfl fun endpoint hendpoint => ?_
  rcases h.retired endpoint hendpoint with hdone | hlive
  · exact .inl (mem_append_left _ hdone)
  · exact .inr hlive

theorem Sound.raise (h : Sound kept v) (hgeneration : v.generation ≤ generation) :
    Sound kept { v with generation := generation } :=
  h.shrink (List.Subset.refl _) h.types h.uniform hgeneration h.retired

/-- The endpoints of the manager are dropped and invalidated. -/
theorem Sound.retire (h : Sound [] v) :
    Sound [] { v with
      endpoints := []
      invalidated := v.invalidated ++
        v.endpoints.map fun endpoint => (endpoint.pathId, endpoint.generation) } := by
  refine h.shrink ?_ h.types nofun le_rfl fun endpoint hendpoint => ?_
  · intro endpoint hendpoint
    rw [known, append_nil, append_nil] at hendpoint
    exact mem_append_left _ hendpoint
  · refine .inl (mem_append.mpr ?_)
    rcases h.retired endpoint hendpoint with hdone | ⟨other, hother, hgeneration⟩
    · exact .inl hdone
    · refine .inr (mem_map.mpr ⟨other, hother, ?_⟩)
      rw [(h.native other (mem_append_right _ hother)).2, hgeneration]

/-- The endpoints before are in force again, with a generation that the new ones share. -/
theorem Sound.restore (h : Sound kept v)
    (uniform : ∀ endpoint ∈ kept, ∀ other ∈ kept, endpoint.generation = other.generation)
    (hshare : ∀ endpoint ∈ v.endpoints, ∃ other ∈ kept, other.generation = endpoint.generation) :
    Sound [] { v with endpoints := kept } := by
  refine h.shrink ?_ h.types uniform le_rfl fun endpoint hendpoint => ?_
  · intro endpoint hendpoint
    rcases mem_append.mp hendpoint with hin | hkept
    · exact mem_append_left _ hin
    · exact mem_append_right _ (mem_append_left _ hkept)
  · rcases h.retired endpoint hendpoint with hdone | ⟨other, hother, hgeneration⟩
    · exact .inl hdone
    · refine .inr ?_
      rcases mem_append.mp hother with hkept | hnew
      · exact ⟨other, hkept, hgeneration⟩
      · obtain ⟨old, hold, hsame⟩ := hshare other hnew
        exact ⟨old, hold, hsame.trans hgeneration⟩

/-- The endpoints before are invalidated as far as their generation is not the new one. -/
theorem Sound.finish (h : Sound kept v) {routes : List (ℕ × ℕ)}
    (hroutes : ∀ endpoint ∈ kept, (endpoint.pathId, endpoint.generation) ∈ routes ∨
      ∃ other ∈ v.endpoints, other.generation = endpoint.generation) :
    Sound [] { v with invalidated := v.invalidated ++ routes } := by
  refine h.shrink ?_ h.types h.uniform le_rfl fun endpoint hendpoint => ?_
  · intro endpoint hendpoint
    rcases mem_append.mp hendpoint with hin | hnew
    · exact mem_append_left _ hin
    · exact mem_append_right _ (mem_append_right _ hnew)
  · rcases h.retired endpoint hendpoint with hdone | ⟨other, hother, hgeneration⟩
    · exact .inl (mem_append_left _ hdone)
    · rcases mem_append.mp hother with hkept | hnew
      · rcases hroutes other hkept with hdone | ⟨new, hnew, hsame⟩
        · rw [(h.native other (mem_append_right _ hother)).2, hgeneration] at hdone
          exact .inl (mem_append_right _ hdone)
        · exact .inr ⟨new, hnew, hsame.trans hgeneration⟩
      · exact .inr ⟨other, hnew, hgeneration⟩

end NativeView

/-! ### Actions that leave the direct endpoints alone -/

section Actions

variable {kept : List PeerRouteEndpoint} {α β : Type} {m : Action State α}

def NativeSound (kept : List PeerRouteEndpoint) (s : State) : Prop := (nativeView s).Sound kept

/-- An action keeps what is sound, whichever endpoints are known. -/
def Settles {α : Type} (m : Action State α) : Prop :=
  ∀ kept, Spec (NativeSound kept) m fun _ => NativeSound kept

theorem settles_of_frame (h : Action.Frame nativeView m) : Settles m :=
  fun kept => h.spec (NativeView.Sound kept)

theorem settles_bind {k : α → Action State β} (hm : Settles m) (hk : ∀ a, Settles (k a)) :
    Settles (m >>= k) :=
  fun kept => spec_bind (hm kept) fun a => hk a kept

theorem settles_read {k : State → Action State β} (hk : ∀ s, Settles (k s)) : Settles (get >>= k) :=
  fun kept => spec_read fun s => hk s kept

theorem settles_ite {c : Prop} [Decidable c] {m' : Action State α} (hm : Settles m)
    (hm' : Settles m') : Settles (if c then m else m') :=
  fun kept => spec_ite (fun _ => hm kept) fun _ => hm' kept

theorem settles_pure (a : α) : Settles (pure a : Action State α) := settles_of_frame (frame_pure a)

theorem settles_forget (hm : Settles m) : Settles (forget m) := hm

theorem settles_when {c : Bool} {m : Action State Unit} (hm : Settles m) : Settles (when c m) :=
  settles_ite hm (settles_pure ())

theorem settles_modify {f : State → State} (h : ∀ s, nativeView (f s) = nativeView s) :
    Settles (modify f) :=
  settles_of_frame (frame_modify h)

theorem settles_reportError (message : String) : Settles (reportError message) :=
  settles_modify fun _ => rfl

theorem settles_storePolicy (mode nativeInterface : String) :
    Settles (storePolicy mode nativeInterface) :=
  settles_modify fun _ => rfl

theorem frame_ask {γ : Type} {f : State → γ}
    (hf : ∀ s answers asked, f { s with answers := answers, asked := asked } = f s) (query : Query) :
    Action.Frame f (ask query) := by
  intro s
  unfold ask
  split
  · split_ifs
    · exact hf s _ _
    · exact hf s s.answers _
  · exact hf s s.answers _

theorem frame_native_ask (query : Query) : Action.Frame nativeView (ask query) :=
  frame_ask (fun _ _ _ => rfl) query

theorem frame_native_save : Action.Frame nativeView save := by
  refine frame_bind frame_get fun s => frame_ite (frame_pure _) ?_
  refine frame_bind (frame_native_ask _) fun saved => ?_
  exact frame_bind (frame_modify fun _ => rfl) fun _ => frame_pure _

theorem frame_native_setRuntimeProxy (config : ProxyConfiguration) :
    Action.Frame nativeView (setRuntimeProxy config) := by
  refine frame_bind frame_get fun s => frame_ite ?_ ?_
  · refine frame_bind (frame_modify fun _ => rfl) fun _ => frame_bind frame_native_save fun saved => ?_
    exact frame_ite (frame_bind (frame_modify fun _ => rfl) fun _ => frame_pure _)
      (frame_bind (frame_modify fun _ => rfl) fun _ => frame_pure _)
  · exact frame_bind (frame_modify fun _ => rfl) fun _ => frame_pure _

theorem frame_native_startManaged (enteringMixed : Bool) :
    Action.Frame nativeView (startManaged enteringMixed) := by
  refine frame_bind frame_get fun s => frame_ite ?_ (frame_pure _)
  refine frame_bind (frame_native_setRuntimeProxy _) fun saved => ?_
  exact frame_bind (frame_when (frame_modify fun _ => rfl)) fun _ => frame_pure _

theorem frame_native_savePolicy (changed enteringMixed : Bool) :
    Action.Frame nativeView (savePolicy changed enteringMixed) :=
  frame_ite frame_native_save (frame_pure _)

theorem frame_native_finishMixed (enteringMixed : Bool) : Action.Frame nativeView (finishMixed enteringMixed) :=
  frame_ite (frame_native_setRuntimeProxy _) (frame_pure _)

theorem frame_native_waitForFinished : Action.Frame nativeView waitForFinished := by
  refine frame_bind frame_get fun s => frame_ite (frame_pure _) ?_
  refine frame_bind (frame_native_ask _) fun stopped => ?_
  exact frame_bind (frame_when (frame_modify fun _ => rfl)) fun _ => frame_pure _

theorem frame_native_blockRuntimeProxy : Action.Frame nativeView blockRuntimeProxy :=
  frame_bind frame_get fun _ =>
    frame_when (frame_forget (frame_native_setRuntimeProxy blockedRuntimeProxy))

/-! ### Changes of routes -/

theorem native_mem_managedEndpoints (hpaths : EndpointType.native ∉ (nativeView s).types)
    (h : endpoint ∈ s.managedEndpoints) (hnative : endpoint.type = .native) :
    endpoint ∈ s.nativeEndpoints := by
  have hpath : endpoint ∉ (if (s.paths.map ActivePath.endpoint).isEmpty then [{}]
      else s.paths.map ActivePath.endpoint) := by
    intro hmem
    split_ifs at hmem with hempty
    · rw [mem_singleton.mp hmem] at hnative
      exact absurd hnative (by decide)
    · obtain ⟨path, hpath, rfl⟩ := mem_map.mp hmem
      exact hpaths (mem_map.mpr ⟨path, hpath, hnative⟩)
  simp only [State.managedEndpoints] at h
  by_cases hmixed : s.currentPolicy = "mixed"
  · rw [if_pos hmixed] at h
    exact (mem_append.mp h).resolve_left hpath
  · rw [if_neg hmixed] at h
    exact absurd h hpath

/-- What a change of routes does to the view: it grows by the endpoints if the session accepts them. -/
theorem setNetworkRoutes_native (endpoints : List PeerRouteEndpoint) (policy : RoutePolicy) (s : State) :
    nativeView (setNetworkRoutes endpoints policy s).2 =
      if (setNetworkRoutes endpoints policy s).1 then
        { nativeView s with installed := (nativeView s).installed ++ endpoints }
      else nativeView s := by
  have hask := frame_native_ask .setNetworkRoutes s
  show nativeView (when (ask .setNetworkRoutes s).1 _ (ask .setNetworkRoutes s).2).2 =
    if (ask .setNetworkRoutes s).1 then _ else _
  cases (ask .setNetworkRoutes s).1 with
  | true =>
    rw [if_pos rfl, ← hask]
    rfl
  | false => exact hask

theorem resetNetworkRoutes_native (s : State) :
    nativeView (resetNetworkRoutes s).2 = nativeView s := by
  have hask := frame_native_ask .resetNetworkRoutes s
  show nativeView (when (ask .resetNetworkRoutes s).1 _ (ask .resetNetworkRoutes s).2).2 = _
  cases (ask .resetNetworkRoutes s).1 with
  | true => exact hask
  | false => exact hask

/-- A change of routes to endpoints of the manager leaves the view sound, and as it is if it is refused. -/
structure NativeChange (s s' : State) (accepted : Bool) : Prop where
  endpoints : s'.nativeEndpoints = s.nativeEndpoints
  sound : ∀ kept, NativeSound kept s → NativeSound kept s'
  refused : accepted = false → nativeView s' = nativeView s

theorem nativeChange_set (policy : RoutePolicy)
    (hnative : EndpointType.native ∉ (nativeView s).types → ∀ endpoint ∈ endpoints,
      endpoint.type = .native → endpoint ∈ s.nativeEndpoints) :
    NativeChange s (setNetworkRoutes endpoints policy s).2 (setNetworkRoutes endpoints policy s).1 := by
  have hview := setNetworkRoutes_native endpoints policy s
  cases haccepted : (setNetworkRoutes endpoints policy s).1 with
  | true =>
    rw [haccepted, if_pos rfl] at hview
    refine ⟨congrArg NativeView.endpoints hview, fun kept hs => ?_, nofun⟩
    rw [NativeSound, hview]
    exact hs.install (hnative hs.types)
  | false =>
    rw [haccepted, if_neg Bool.false_ne_true] at hview
    refine ⟨congrArg NativeView.endpoints hview, fun kept hs => ?_, fun _ => hview⟩
    rw [NativeSound, hview]
    exact hs

theorem nativeChange_reset (s : State) :
    NativeChange s (resetNetworkRoutes s).2 (resetNetworkRoutes s).1 := by
  have hview := resetNetworkRoutes_native s
  refine ⟨congrArg NativeView.endpoints hview, fun kept hs => ?_, fun _ => hview⟩
  rw [NativeSound, hview]
  exact hs

theorem applyRoutes_native (activateManaged : Bool) (s : State) :
    NativeChange s (applyRoutes activateManaged s).2 (applyRoutes activateManaged s).1 := by
  refine (spec_get (P := (· = s)) (R := fun accepted s' => NativeChange s s' accepted)
    fun t ht => ?_) s rfl
  subst ht
  refine spec_ite (fun _ => spec_ite (fun _ => spec_ite (fun _ => ?_) fun _ => ?_) fun _ => ?_) fun _ => ?_
  · rintro _ rfl
    exact nativeChange_set .pinned fun _ _ h => absurd h not_mem_nil
  · rintro _ rfl
    exact nativeChange_reset _
  · rintro _ rfl
    exact nativeChange_set .mixed fun _ _ h _ => h
  · rintro s rfl
    exact nativeChange_set _ fun hpaths _ h hnative => native_mem_managedEndpoints hpaths h hnative

theorem settles_applyRoutes (activateManaged : Bool) : Settles (applyRoutes activateManaged) :=
  fun kept s hs => (applyRoutes_native activateManaged s).sound kept hs

theorem settles_setNetworkRoutes_nil (policy : RoutePolicy) : Settles (setNetworkRoutes [] policy) :=
  fun kept _ hs => (nativeChange_set policy fun _ _ h => absurd h not_mem_nil).sound kept hs

theorem settles_invalidate (routes : List (ℕ × ℕ)) :
    Settles (modify fun s => { s with session :=
      { s.session with invalidated := s.session.invalidated ++ routes } }) :=
  fun _ => spec_modify fun _ hs => hs.invalidate hs.types routes

theorem settles_stop {change : ActivePath → ActivePath}
    (hchange : ∀ path, change path = path ∨ change path = path.stopped) :
    Settles (modify fun s => { s with paths := s.paths.map change }) := by
  refine fun kept => spec_modify fun s hs => ?_
  have htypes : EndpointType.native ∉ (s.paths.map change).map fun path => path.endpoint.type := by
    rw [map_map, mem_map]
    rintro ⟨path, hpath, htype⟩
    rcases hchange path with hsame | hstopped
    · rw [Function.comp_apply, hsame] at htype
      exact hs.types (mem_map.mpr ⟨path, hpath, htype⟩)
    · rw [Function.comp_apply, hstopped] at htype
      cases (show EndpointType.blocked = .native from htype)
  have hsound := hs.invalidate htypes []
  rw [append_nil] at hsound
  exact hsound

theorem settles_retireRoutes : Settles retireRoutes :=
  settles_read fun _ => settles_ite (settles_applyRoutes false) (settles_pure _)

theorem settles_shutdown : Settles shutdown := by
  refine settles_bind (settles_modify fun _ => rfl) fun _ => ?_
  refine settles_bind (m := modify _) ?_ fun _ => ?_
  · exact fun kept => (settles_stop fun _ => .inr rfl) kept
  refine settles_bind ?_ fun trusted => settles_bind settles_retireRoutes fun routes => ?_
  · exact settles_bind (settles_modify fun _ => rfl) fun _ => settles_of_frame (frame_native_ask _)
  refine settles_read fun s => settles_bind (settles_invalidate _) fun _ => ?_
  refine settles_bind (settles_modify fun _ => rfl) fun _ => ?_
  refine settles_bind (settles_of_frame frame_native_waitForFinished) fun stopped => ?_
  exact settles_bind (settles_modify fun _ => rfl) fun _ => settles_pure _

theorem settles_fail (message : String) : Settles (fail message) := by
  refine settles_bind (settles_modify fun _ => rfl) fun _ => ?_
  refine settles_bind (settles_of_frame frame_native_blockRuntimeProxy) fun _ => ?_
  refine settles_bind (settles_forget settles_shutdown) fun _ => ?_
  exact settles_bind (settles_modify fun _ => rfl) fun _ => settles_modify fun _ => rfl

end Actions

/-! ### Assigned generations -/

section Assign

variable {s t : State} {endpoints : List PeerRouteEndpoint}

def withGeneration (generation : ℕ) (endpoints : List PeerRouteEndpoint) : List PeerRouteEndpoint :=
  endpoints.map fun endpoint => { endpoint with generation := generation }

/-- There are no endpoints, the generation is kept, or it is a new one. -/
theorem assignNativeEndpoints_cases (endpoints : List PeerRouteEndpoint) (s : State) :
    (endpoints = [] ∧ (assignNativeEndpoints endpoints s).2 = { s with nativeEndpoints := [] }) ∨
    (s.reuses endpoints = true ∧ (assignNativeEndpoints endpoints s).2 =
      { s with nativeEndpoints := withGeneration s.currentGeneration endpoints }) ∨
    (endpoints ≠ [] ∧ s.reuses endpoints = false ∧ (assignNativeEndpoints endpoints s).2 =
      { s with
        nativeGeneration := s.nativeGeneration + 1
        nativeEndpoints := withGeneration (s.nativeGeneration + 1) endpoints }) := by
  have hassign : (assignNativeEndpoints endpoints s).2 =
      if endpoints.isEmpty then { s with nativeEndpoints := [] }
      else if retainedAddress s.nativeEndpoints endpoints &&
          !changedFamily s.nativeEndpoints endpoints then
        { s with nativeEndpoints := withGeneration s.currentGeneration endpoints }
      else
        { s with
          nativeGeneration := s.nativeGeneration + 1
          nativeEndpoints := withGeneration (s.nativeGeneration + 1) endpoints } := rfl
  rw [hassign, State.reuses]
  cases hempty : endpoints.isEmpty with
  | true => exact .inl ⟨isEmpty_iff.mp hempty, if_pos rfl⟩
  | false =>
    have hne : endpoints ≠ [] := fun h => Bool.false_ne_true (hempty.symm.trans (isEmpty_iff.mpr h))
    rw [if_neg Bool.false_ne_true, Bool.not_false, Bool.true_and]
    cases hreuse : retainedAddress s.nativeEndpoints endpoints &&
        !changedFamily s.nativeEndpoints endpoints with
    | true => exact .inr (.inl ⟨rfl, if_pos rfl⟩)
    | false => exact .inr (.inr ⟨hne, rfl, if_neg Bool.false_ne_true⟩)

theorem assignNativeEndpoints_view (endpoints : List PeerRouteEndpoint) (s : State) :
    s.nativeGeneration ≤ (assignNativeEndpoints endpoints s).2.nativeGeneration ∧
    (assignNativeEndpoints endpoints s).2.answers = s.answers ∧
    nativeView (assignNativeEndpoints endpoints s).2 =
      { nativeView s with
        endpoints := (assignNativeEndpoints endpoints s).2.nativeEndpoints
        generation := (assignNativeEndpoints endpoints s).2.nativeGeneration } := by
  rcases assignNativeEndpoints_cases endpoints s with ⟨-, h⟩ | ⟨-, h⟩ | ⟨-, -, h⟩
  · rw [h]
    exact ⟨le_rfl, rfl, rfl⟩
  · rw [h]
    exact ⟨le_rfl, rfl, rfl⟩
  · rw [h]
    exact ⟨Nat.le_succ _, rfl, rfl⟩

/-- A kept generation is that of an endpoint of the manager, which no family of the list contradicts. -/
theorem reuses_spec (h : s.reuses endpoints = true) :
    (∃ other ∈ s.nativeEndpoints, other.generation = s.currentGeneration) ∧
    ∀ endpoint ∈ endpoints, ∀ other ∈ s.nativeEndpoints,
      other.supportsIPv4 = endpoint.supportsIPv4 → SameAddress other endpoint := by
  simp only [State.reuses, Bool.and_eq_true, Bool.not_eq_true', retainedAddress, changedFamily,
    any_eq_true, any_eq_false] at h
  obtain ⟨⟨-, endpoint, -, other, hother, -⟩, hchanged⟩ := h
  refine ⟨?_, fun endpoint hendpoint other hother hfamily => ?_⟩
  · cases hs : s.nativeEndpoints with
    | nil => exact absurd (hs ▸ hother) not_mem_nil
    | cons first rest =>
      refine ⟨first, mem_cons_self, ?_⟩
      rw [State.currentGeneration, hs]
      rfl
  · by_contra hdiffers
    refine hchanged endpoint hendpoint ⟨other, hother, decide_eq_true hfamily, ?_⟩
    rw [SameAddress, not_and_or] at hdiffers
    exact Bool.or_eq_true_iff.mpr (hdiffers.imp decide_eq_true decide_eq_true)

/-- Endpoints that take a generation under which nothing contradicts them. -/
theorem NativeView.Sound.assign {v : NativeView} (h : v.Sound []) (L : NativeEndpoints) {bound : ℕ}
    (hbound : generation ≤ bound) (hraise : v.generation ≤ bound)
    (hlaw : ∀ endpoint ∈ L.list, ∀ other ∈ v.known [], other.generation = generation →
      other.supportsIPv4 = endpoint.supportsIPv4 → SameAddress other endpoint) :
    NativeView.Sound v.endpoints
      { v with endpoints := withGeneration generation L.list, generation := bound } := by
  have hknown : ∀ {endpoint}, endpoint ∈ NativeView.known
        { v with endpoints := withGeneration generation L.list, generation := bound } v.endpoints →
      endpoint ∈ v.known [] ∨
        ∃ other ∈ L.list, { other with generation := generation } = endpoint := by
    intro endpoint hendpoint
    rcases mem_append.mp hendpoint with hin | hout
    · exact .inl (mem_append_left _ hin)
    · rcases mem_append.mp hout with hold | hnew
      · exact .inl (mem_append_right _ hold)
      · exact .inr (mem_map.mp hnew)
  constructor
  case types => exact h.types
  case native =>
    intro endpoint hendpoint
    rcases hknown hendpoint with hold | ⟨other, hother, rfl⟩
    · exact h.native endpoint hold
    · exact ⟨(L.native other hother).1, (L.native other hother).2.1⟩
  case uniform =>
    intro endpoint hendpoint other hother
    obtain ⟨_, -, rfl⟩ := mem_map.mp hendpoint
    obtain ⟨_, -, rfl⟩ := mem_map.mp hother
    rfl
  case bound =>
    intro endpoint hendpoint
    rcases hknown hendpoint with hold | ⟨other, -, rfl⟩
    · exact (h.bound endpoint hold).trans hraise
    · exact hbound
  case law =>
    intro endpoint hendpoint other hother hgeneration hfamily
    rcases hknown hendpoint with hold | ⟨left, hleft, rfl⟩
    · rcases hknown hother with hold' | ⟨right, hright, rfl⟩
      · exact h.law endpoint hold other hold' hgeneration hfamily
      · exact hlaw right hright endpoint hold hgeneration hfamily
    · rcases hknown hother with hold' | ⟨right, hright, rfl⟩
      · obtain ⟨hindex, haddress⟩ := hlaw left hleft other hold' hgeneration.symm hfamily.symm
        exact ⟨hindex.symm, haddress.symm⟩
      · obtain rfl := inj_on_of_nodup_map L.families hleft hright hfamily
        exact ⟨rfl, rfl⟩
  case retired =>
    intro endpoint hendpoint
    rcases h.retired endpoint hendpoint with hdone | ⟨other, hother, hgeneration⟩
    · exact .inl hdone
    · exact .inr ⟨other, mem_append_left _ hother, hgeneration⟩

/-- The endpoints of the manager are replaced, unless one of them would come back elsewhere. -/
theorem sound_assignNativeEndpoints (hs : NativeSound [] s) (L : NativeEndpoints)
    (hreturns : ¬ s.Returns L.list) :
    NativeSound s.nativeEndpoints (assignNativeEndpoints L.list s).2 := by
  rcases assignNativeEndpoints_cases L.list s with ⟨-, h⟩ | ⟨hreuse, h⟩ | ⟨-, -, h⟩
  · rw [h]
    refine hs.shrink ?_ hs.types nofun le_rfl fun endpoint hendpoint => ?_
    · show _ ++ (s.nativeEndpoints ++ []) ⊆ _
      rw [append_nil]
      exact List.Subset.refl _
    · show _ ∨ ∃ other ∈ s.nativeEndpoints ++ [], _
      rw [append_nil]
      exact hs.retired endpoint hendpoint
  · rw [h]
    obtain ⟨⟨first, hfirst, hgeneration⟩, hsame⟩ := reuses_spec hreuse
    refine hs.assign L ?_ le_rfl fun endpoint hendpoint other hother hcurrent hfamily => ?_
    · exact hgeneration ▸ hs.bound first (mem_append_right _ hfirst)
    · rcases mem_append.mp hother with hin | hold
      · by_contra hdiffers
        exact hreturns ⟨hreuse, endpoint, hendpoint, other, hin, hcurrent, hfamily, hdiffers⟩
      · exact hsame endpoint hendpoint other hold hfamily
  · rw [h]
    refine hs.assign L le_rfl (Nat.le_succ _) fun endpoint _ other hother hnew _ => ?_
    have hbound := hs.bound other hother
    rw [hnew] at hbound
    exact absurd hbound (Nat.not_succ_le_self _)

theorem returns_congr (h : nativeView t = nativeView s) : t.Returns endpoints ↔ s.Returns endpoints := by
  have hendpoints : t.nativeEndpoints = s.nativeEndpoints := congrArg NativeView.endpoints h
  have hinstalled : t.session.installed = s.session.installed := congrArg NativeView.installed h
  unfold State.Returns State.reuses State.inForce State.currentGeneration
  rw [hendpoints, hinstalled]

theorem reuses_congr (h : nativeView t = nativeView s) : t.reuses endpoints = s.reuses endpoints := by
  have hendpoints : t.nativeEndpoints = s.nativeEndpoints := congrArg NativeView.endpoints h
  rw [State.reuses, State.reuses, hendpoints]

end Assign

/-! ### Operations -/

section Operations

variable {s : State} {all : List (Query × Bool)}

/-- The answers that are left were given for the step. -/
def Left (all : List (Query × Bool)) (s : State) : Prop := s.answers ⊆ all

/-- A call that fails was answered so. -/
theorem ask_left (query : Query) : Spec (Left all) (ask query) fun answer s =>
    Left all s ∧ (answer = false → (query, false) ∈ all) := by
  intro s hs
  unfold ask
  split
  case h_1 query' answer answers heq =>
    split_ifs with hquery
    · refine ⟨fun a ha => hs (heq ▸ mem_cons_of_mem _ ha), fun hfalse => ?_⟩
      obtain rfl : answer = false := hfalse
      exact hs (heq ▸ hquery ▸ mem_cons_self)
    · exact ⟨hs, nofun⟩
  case h_2 => exact ⟨hs, nofun⟩

theorem ask_when_left {change : State → State} (query : Query)
    (h : ∀ s, Left all s → Left all (change s)) :
    Spec (Left all) (do
      let accepted ← ask query
      when accepted (modify change)
      return accepted) fun accepted s =>
        Left all s ∧ (accepted = false → ∃ query, (query, false) ∈ all) := by
  refine spec_bind (ask_left query) fun accepted => ?_
  refine spec_bind (Q := fun _ s => Left all s ∧ (accepted = false → (query, false) ∈ all)) ?_
    fun _ => spec_pure fun _ h => ⟨h.1, fun hrefused => ⟨_, h.2 hrefused⟩⟩
  exact spec_when (fun _ => spec_modify fun s hs => ⟨h s hs.1, hs.2⟩) fun _ _ h => h

theorem setNetworkRoutes_left (endpoints : List PeerRouteEndpoint) (policy : RoutePolicy) :
    Spec (Left all) (setNetworkRoutes endpoints policy) fun accepted s =>
      Left all s ∧ (accepted = false → ∃ query, (query, false) ∈ all) :=
  ask_when_left _ fun _ h => h

theorem resetNetworkRoutes_left : Spec (Left all) resetNetworkRoutes fun accepted s =>
    Left all s ∧ (accepted = false → ∃ query, (query, false) ∈ all) :=
  ask_when_left _ fun _ h => h

theorem applyRoutes_left (activateManaged : Bool) :
    Spec (Left all) (applyRoutes activateManaged) fun accepted s =>
      Left all s ∧ (accepted = false → ∃ query, (query, false) ∈ all) := by
  refine spec_read fun s => spec_ite (fun _ => spec_ite (fun _ => ?_) fun _ => ?_) fun _ => ?_
  · exact spec_ite (fun _ => setNetworkRoutes_left _ _) fun _ => resetNetworkRoutes_left
  · exact setNetworkRoutes_left _ _
  · exact setNetworkRoutes_left _ _

theorem setRuntimeProxy_left (config : ProxyConfiguration) :
    Spec (Left all) (setRuntimeProxy config) fun saved _ => saved = false → (.save, false) ∈ all := by
  refine spec_get fun s hs => spec_ite (fun hrequired => ?_) fun _ => ?_
  · -- The marker has changed, so the storage is dirty and is written.
    refine spec_bind (Q := fun _ t => Left all t ∧ t.dirty = true) ?_ fun _ => ?_
    · rintro t rfl
      refine ⟨hs, ?_⟩
      show (t.dirty || decide _) = true
      rw [decide_eq_true, Bool.or_true]
      intro hsame
      rw [congrArg Settings.runtimeRequired hsame.symm] at hrequired
      cases hrequired
    refine spec_bind (Q := fun saved _ => saved = false → (Query.save, false) ∈ all) ?_ fun saved => ?_
    · refine spec_get fun t ht => spec_ite (fun hclean => ?_) fun _ => ?_
      · rw [ht.2] at hclean
        cases hclean
      · refine spec_bind ((ask_left .save).at ht.1) fun saved => ?_
        exact spec_bind (Q := fun _ _ => saved = false → (Query.save, false) ∈ all)
          (spec_modify fun _ h => h.2) fun _ => spec_pure fun _ h => h
    · refine spec_ite (fun _ => ?_) fun hfailed => ?_
      · exact spec_bind (Q := fun _ _ => True) (spec_modify fun _ _ => trivial)
          fun _ => spec_pure fun _ _ => nofun
      · exact spec_bind (Q := fun _ _ => (Query.save, false) ∈ all)
          (spec_modify fun _ h => h (Bool.eq_false_iff.mpr hfailed)) fun _ => spec_pure fun _ h _ => h
  · exact spec_bind (Q := fun _ _ => True) (spec_modify fun _ _ => trivial)
      fun _ => spec_pure fun _ _ => nofun

/-! ### The direct routes -/

theorem applyNativeRoute_native (s : State) :
    NativeChange s (applyNativeRoute s).2 (applyNativeRoute s).1 := by
  refine (spec_get (P := (· = s)) (R := fun accepted s' => NativeChange s s' accepted)
    fun t ht => ?_) s rfl
  subst ht
  refine spec_ite (fun _ => ?_) fun _ => ?_
  · rintro _ rfl
    exact nativeChange_reset _
  · rintro _ rfl
    exact applyRoutes_native false _

theorem applyNativeRoute_left : Spec (Left all) applyNativeRoute fun accepted s =>
    Left all s ∧ (accepted = false → ∃ query, (query, false) ∈ all) :=
  spec_read fun _ => spec_ite (fun _ => resetNetworkRoutes_left) fun _ => applyRoutes_left false

theorem NativeSound.pathId (hs : NativeSound [] s) : ∀ e ∈ s.nativeEndpoints, e.pathId = 1 :=
  fun e he => (hs.native e (mem_append_right _ he)).2

/-- Some endpoints are invalidated under a condition, such that those before the change are. -/
theorem finish_invalidate {c : Bool} (hs : NativeSound kept s)
    (hroutes : ∀ e ∈ kept, (e.pathId, e.generation) ∈
        (if c then endpoints.map fun e => (e.pathId, e.generation) else []) ∨
      ∃ other ∈ s.nativeEndpoints, other.generation = e.generation) :
    Spec (· = s) (when c (invalidateNetworkRoutes endpoints)) fun _ => NativeSound [] := by
  have hfinish := hs.finish hroutes
  cases c with
  | true =>
    rintro _ rfl
    exact hfinish
  | false =>
    rintro t rfl
    have hnone : (nativeView t).invalidated ++ [] = (nativeView t).invalidated := append_nil _
    rw [if_neg Bool.false_ne_true, hnone] at hfinish
    exact hfinish

theorem head_invalidates {old current : List PeerRouteEndpoint} (hpath : ∀ e ∈ old, e.pathId = 1)
    (huniform : ∀ e ∈ old, ∀ e' ∈ old, e.generation = e'.generation) (h : endpoint ∈ old) :
    (endpoint.pathId, endpoint.generation) ∈
        (if !old.isEmpty && (current.isEmpty || old.head?.map PeerRouteEndpoint.generation ≠
            current.head?.map PeerRouteEndpoint.generation) then
          (old.take 1).map fun e => (e.pathId, e.generation) else []) ∨
      ∃ other ∈ current, other.generation = endpoint.generation := by
  cases old with
  | nil => exact absurd h not_mem_nil
  | cons first rest =>
    have hsame : (endpoint.pathId, endpoint.generation) = (first.pathId, first.generation) := by
      rw [hpath endpoint h, hpath first mem_cons_self, huniform endpoint h first mem_cons_self]
    cases current with
    | nil => exact .inl (hsame ▸ mem_cons_self)
    | cons other others =>
      by_cases hgeneration : first.generation = other.generation
      · refine .inr ⟨other, mem_cons_self, ?_⟩
        rw [← hgeneration, huniform endpoint h first mem_cons_self]
      · refine .inl ?_
        rw [if_pos, hsame]
        · exact mem_cons_self
        · exact decide_eq_true fun hsome => hgeneration (Option.some.inj hsome)

theorem refreshNativeRoute_sound (force : Bool) (L : NativeEndpoints) (hs : NativeSound [] s)
    (hlist : s.surroundings.nativeEndpointsForSessionBinding s.settings s.nativeEndpoints = L.list)
    (hleft : Left all s) (hreturns : ¬ s.Returns L.list)
    (hrefused : s.nativeEndpoints = [] ∨ ∀ query, (query, false) ∉ all) :
    Spec (· = s) (refreshNativeRoute force) fun _ => NativeSound [] := by
  refine spec_get fun t ht => ?_
  subst ht
  dsimp only
  rw [hlist]
  refine spec_ite (fun _ => spec_pure fun _ h => h ▸ hs) fun _ => spec_ite
    (fun _ => spec_pure fun _ h => h ▸ hs) fun _ => ?_
  set assigned := (assignNativeEndpoints L.list t).2 with hassigned
  have hsound : NativeSound t.nativeEndpoints assigned := sound_assignNativeEndpoints hs L hreturns
  obtain ⟨hraise, hanswers, hview⟩ := assignNativeEndpoints_view L.list t
  rw [← hassigned] at hraise hanswers hview
  have hleft' : Left all assigned := fun a ha => hleft (hanswers ▸ ha)
  refine spec_bind (Q := fun _ => (· = assigned)) (by rintro _ rfl; rfl) fun _ => ?_
  refine spec_bind (Q := fun applied u => NativeChange assigned u applied ∧
    (applied = false → ∃ query, (query, false) ∈ all)) ?_ fun applied => ?_
  · rintro _ rfl
    exact ⟨applyNativeRoute_native assigned, (applyNativeRoute_left assigned hleft').2⟩
  refine spec_ite (fun happlied => ?_) fun _ => ?_
  · -- The endpoints are dropped, which had none before them.
    refine spec_bind (Q := fun _ => NativeSound []) (spec_modify fun u hu => ?_) fun _ => ?_
    · obtain ⟨query, hquery⟩ := hu.2 (Bool.not_eq_true' _ ▸ happlied)
      have hnone : t.nativeEndpoints = [] := hrefused.resolve_right fun h => h query hquery
      have hview' := (hu.1.refused (Bool.not_eq_true' _ ▸ happlied)).trans hview
      have heq : nativeView { u with nativeEndpoints := [] } =
          { nativeView t with generation := assigned.nativeGeneration } := by
        show { nativeView u with endpoints := [] } = _
        rw [hview', ← hnone]
        rfl
      rw [NativeSound, heq]
      exact hs.raise hraise
    refine spec_bind (spec_forget (settles_setNetworkRoutes_nil .pinned [])) fun _ => ?_
    exact spec_bind (settles_reportError _ []) fun _ => spec_pure fun _ h => h
  · refine spec_get fun u hu => ?_
    refine spec_bind (finish_invalidate (hu.1.sound _ hsound) fun endpoint hendpoint => ?_)
      fun _ => spec_pure fun _ h => h
    exact head_invalidates hs.pathId hs.uniform hendpoint

/-! ### Policies -/

/-- The routes of a policy are refused: what was before it comes back, or is retired. -/
theorem undoPolicy_sound {t : State} (enteringMixed : Bool) (previous previousInterface : String)
    (hs : NativeSound [] s) (hraise : s.nativeGeneration ≤ generation)
    (hview : nativeView t = { nativeView s with endpoints := endpoints, generation := generation })
    : Spec (· = t) (undoPolicy enteringMixed previous previousInterface s.nativeEndpoints)
      fun _ => NativeSound [] := by
  refine spec_ite (fun _ => ?_) fun _ => ?_
  · refine spec_bind (Q := fun _ => NativeSound []) (spec_modify fun u hu => ?_) fun _ => ?_
    · have heq : nativeView { u with nativeEndpoints := s.nativeEndpoints } =
          { nativeView s with generation := generation } :=
        congrArg (fun v : NativeView => { v with endpoints := s.nativeEndpoints }) (hu ▸ hview)
      rw [NativeSound, heq]
      exact hs.raise hraise
    refine spec_bind (settles_storePolicy _ _ []) fun _ => ?_
    exact spec_bind (settles_applyRoutes false []) fun _ => settles_reportError _ []
  · refine spec_bind (Q := fun _ u => nativeView u = { nativeView s with
      endpoints := [], generation := generation }) (spec_modify fun u hu => ?_) fun _ => ?_
    · exact congrArg (fun v : NativeView => { v with endpoints := [] }) (hu ▸ hview)
    refine spec_bind (Q := fun _ => NativeSound []) (spec_modify fun u hu => ?_) fun _ => ?_
    · rw [NativeSound]
      convert (hs.raise hraise).retire using 1
      exact congrArg (fun v : NativeView => { v with
        invalidated := v.invalidated ++ s.nativeEndpoints.map fun endpoint : PeerRouteEndpoint =>
          (endpoint.pathId, endpoint.generation) }) hu
    refine spec_bind (settles_storePolicy _ _ []) fun _ => ?_
    refine spec_bind (spec_forget (settles_of_frame frame_native_save [])) fun _ => ?_
    refine spec_bind (settles_applyRoutes false []) fun _ => ?_
    exact spec_ite (fun _ => settles_reportError _ []) fun _ => settles_fail _ []

/-- The mixed policy is left again: what was before it comes back, whose generation is shared. -/
theorem undoMixed_sound (previous previousInterface : String)
    (uniform : ∀ e ∈ kept, ∀ e' ∈ kept, e.generation = e'.generation) :
    Spec (fun t => NativeSound kept t ∧
        ∀ e ∈ t.nativeEndpoints, ∃ other ∈ kept, other.generation = e.generation)
      (undoMixed previous previousInterface kept) fun _ => NativeSound [] := by
  refine spec_bind (Q := fun _ => NativeSound []) (spec_modify fun u hu => ?_) fun _ => ?_
  · exact hu.1.restore uniform hu.2
  refine spec_bind (settles_storePolicy _ _ []) fun _ => ?_
  exact spec_bind (settles_applyRoutes false []) fun _ => settles_reportError _ []

theorem finishPolicy_sound (mode : String) :
    Spec (NativeSound kept) (finishPolicy mode kept) fun _ => NativeSound [] := by
  refine spec_get fun t ht => spec_bind (Q := fun _ => NativeSound []) ?_
    fun _ => settles_modify (fun _ => rfl) []
  rintro t rfl
  refine ht.finish fun endpoint hendpoint => ?_
  by_cases hcurrent : t.nativeEndpoints.any fun other =>
      other.pathId = endpoint.pathId && other.generation = endpoint.generation
  · obtain ⟨other, hother, hsame⟩ := any_eq_true.mp hcurrent
    exact .inr ⟨other, hother, of_decide_eq_true (Bool.and_eq_true_iff.mp hsame).2⟩
  · refine .inl (mem_map_of_mem (mem_filter.mpr ⟨hendpoint, ?_⟩))
    rw [Bool.not_eq_true] at hcurrent
    exact Bool.not_eq_true' _ ▸ hcurrent

/-- The new endpoints share the generation of those before them, unless it is a new one. -/
theorem shares_assignNativeEndpoints (h : endpoints = [] ∨ s.reuses endpoints = true) :
    ∀ e ∈ (assignNativeEndpoints endpoints s).2.nativeEndpoints,
      ∃ other ∈ s.nativeEndpoints, other.generation = e.generation := by
  intro e he
  rcases assignNativeEndpoints_cases endpoints s with ⟨-, heq⟩ | ⟨hreuse, heq⟩ | ⟨hne, hnew, -⟩
  · rw [heq] at he
    exact absurd he not_mem_nil
  · rw [heq] at he
    obtain ⟨_, -, rfl⟩ := mem_map.mp he
    exact (reuses_spec hreuse).1
  · rcases h with hnil | hreuse
    · exact absurd hnil hne
    · rw [hnew] at hreuse
      cases hreuse

theorem installPolicy_sound (mode : String) (enteringMixed : Bool) (previous previousInterface : String)
    (L : NativeEndpoints) (hs : NativeSound [] s) (hreturns : ¬ s.Returns L.list)
    (hmixed : enteringMixed = true → Left all s ∧
      ((.save, false) ∈ all → L.list = [] ∨ s.reuses L.list = true)) :
    Spec (· = s) (installPolicy mode enteringMixed previous previousInterface L.list)
      fun _ => NativeSound [] := by
  refine spec_get fun t ht => ?_
  subst ht
  set assigned := (assignNativeEndpoints L.list t).2 with hassigned
  have hsound : NativeSound t.nativeEndpoints assigned := sound_assignNativeEndpoints hs L hreturns
  obtain ⟨hraise, hanswers, hview⟩ := assignNativeEndpoints_view L.list t
  rw [← hassigned] at hraise hanswers hview
  refine spec_bind (Q := fun _ => (· = assigned)) (by rintro _ rfl; rfl) fun _ => ?_
  refine spec_bind (Q := fun applied u => NativeChange assigned u applied ∧
    (enteringMixed = true → Left all u)) ?_ fun applied => ?_
  · rintro _ rfl
    refine ⟨applyRoutes_native enteringMixed assigned, fun hentering => ?_⟩
    refine (applyRoutes_left enteringMixed assigned fun a ha => ?_).1
    exact (hmixed hentering).1 (hanswers ▸ ha)
  refine spec_ite (fun happlied => ?_) fun _ => ?_
  · refine spec_of_forall fun u hu => spec_bind ?_ fun _ => spec_pure fun _ h => h
    have hview' := (hu.1.refused (Bool.not_eq_true' _ ▸ happlied)).trans hview
    exact undoPolicy_sound enteringMixed previous previousInterface hs hraise hview'
  · refine spec_bind (Q := fun entered u => NativeSound t.nativeEndpoints u ∧
      (entered = false → ∀ e ∈ u.nativeEndpoints, ∃ other ∈ t.nativeEndpoints,
        other.generation = e.generation)) ?_ fun entered => ?_
    · intro u hu
      have hframe := frame_native_finishMixed enteringMixed u
      have hsound' : NativeSound t.nativeEndpoints (finishMixed enteringMixed u).2 := by
        rw [NativeSound, hframe]
        exact hu.1.sound _ hsound
      refine ⟨hsound', fun hfailed => ?_⟩
      have hendpoints : (finishMixed enteringMixed u).2.nativeEndpoints = assigned.nativeEndpoints :=
        (congrArg NativeView.endpoints hframe).trans hu.1.endpoints
      rw [hendpoints]
      cases henter : enteringMixed with
      | false =>
        rw [henter] at hfailed
        cases hfailed
      | true =>
        rw [henter] at hfailed
        have hsave := setRuntimeProxy_left blockedRuntimeProxy u (hu.2 henter) hfailed
        exact shares_assignNativeEndpoints ((hmixed henter).2 hsave)
    refine spec_ite (fun hentered => ?_) fun _ => ?_
    · refine spec_bind ((undoMixed_sound previous previousInterface hs.uniform).mono
        (fun u hu => ⟨hu.1, hu.2 (Bool.not_eq_true' _ ▸ hentered)⟩) fun _ _ h => h) fun _ => ?_
      exact spec_pure fun _ h => h
    · refine spec_bind ((finishPolicy_sound mode).mono (fun _ h => h.1) fun _ _ h => h) fun _ => ?_
      exact spec_pure fun _ h => h

theorem changePolicy_sound (mode nativeInterface previous previousInterface : String)
    (enteringMixed : Bool) (L : NativeEndpoints) (hs : NativeSound [] s) (hreturns : ¬ s.Returns L.list)
    (hmixed : enteringMixed = true → Left all s ∧
      ((.save, false) ∈ all → L.list = [] ∨ s.reuses L.list = true)) :
    Spec (· = s) (changePolicy mode nativeInterface previous previousInterface enteringMixed L.list)
      fun _ => NativeSound [] := by
  -- Nothing is asked before the routes if the mixed policy is entered.
  refine spec_bind (Q := fun _ t => nativeView t = nativeView s ∧
    (enteringMixed = true → t.answers = s.answers)) ?_ fun ready => ?_
  · rintro t rfl
    refine ⟨frame_native_startManaged enteringMixed t, ?_⟩
    rintro rfl
    rfl
  refine spec_ite (fun _ => spec_pure fun t ht => ?_) fun _ => ?_
  · rw [NativeSound, ht.1]
    exact hs
  refine spec_bind (Q := fun _ t => nativeView t = nativeView s ∧
    (enteringMixed = true → t.answers = s.answers)) (spec_modify fun _ h => h) fun _ => ?_
  refine spec_bind (Q := fun _ t => nativeView t = nativeView s ∧
    (enteringMixed = true → t.answers = s.answers)) ?_ fun saved => ?_
  · intro t ht
    refine ⟨(frame_native_savePolicy _ enteringMixed t).trans ht.1, ?_⟩
    rintro rfl
    rw [savePolicy, Bool.not_true, Bool.and_false, if_neg Bool.false_ne_true]
    exact ht.2 rfl
  refine spec_of_forall fun t ht => ?_
  have hsound : NativeSound [] t := by
    rw [NativeSound, ht.1]
    exact hs
  refine spec_ite (fun _ => ?_) fun _ => ?_
  · refine spec_bind ((settles_storePolicy previous previousInterface []).at hsound) fun _ => ?_
    exact spec_bind (settles_reportError _ []) fun _ => spec_pure fun _ h => h
  · refine installPolicy_sound mode enteringMixed previous previousInterface L hsound
      (fun h => hreturns ((returns_congr ht.1).mp h))
      fun hentering => (⟨?_, fun hsave => ?_⟩ : Left all t ∧ _)
    · rw [Left, ht.2 hentering]
      exact (hmixed hentering).1
    · rw [reuses_congr ht.1]
      exact (hmixed hentering).2 hsave

theorem applyPolicy_sound (mode nativeInterface : String) (L : NativeEndpoints)
    (hs : NativeSound [] s) (hreturns : ¬ s.Returns L.list) (hleft : Left all s)
    (hmixed : mode = "mixed" → s.hasRuntimeProxy = false → (.save, false) ∈ all →
      L.list = [] ∨ s.reuses L.list = true) :
    Spec (· = s) (applyPolicy mode nativeInterface L.list) fun _ => NativeSound [] := by
  refine spec_get fun t ht => ?_
  subst ht
  refine spec_ite (fun _ => ?_) fun _ => ?_
  · refine spec_bind (Q := fun _ => NativeSound []) ?_ fun _ => spec_pure fun _ h => h
    exact spec_when (fun _ => spec_modify fun _ h => h ▸ hs) fun _ _ h => h ▸ hs
  · refine changePolicy_sound mode nativeInterface _ _ _ L hs hreturns fun hentering => ⟨hleft, ?_⟩
    rw [Bool.and_eq_true, decide_eq_true_eq, Bool.not_eq_true'] at hentering
    exact hmixed hentering.1 hentering.2

/-! ### Stopped paths -/

def noEndpoints : NativeEndpoints := ⟨[], nofun, nodup_nil⟩

theorem setPolicy_tunnels_sound : Spec (NativeSound []) (setPolicy "tunnels" "") fun _ => NativeSound [] := by
  refine spec_get fun t ht => ?_
  refine spec_ite (fun _ => spec_pure fun _ h => h ▸ ht) fun _ => ?_
  rw [if_neg (by decide), if_neg (by decide), if_neg (by simp)]
  refine applyPolicy_sound "tunnels" "" noEndpoints ht ?_ (List.Subset.refl t.answers) ?_
  · rintro ⟨hreuse, -⟩
    cases hreuse
  · intro h
    exact absurd h (by decide)

theorem settles_send (message : Request) : Settles (send message) := by
  refine settles_read fun s => settles_ite (settles_fail _) ?_
  refine settles_bind (settles_modify fun _ => rfl) fun _ => ?_
  refine settles_bind (settles_of_frame (frame_native_ask _)) fun written => ?_
  exact settles_ite (settles_modify fun _ => rfl) (settles_fail _)

theorem settles_sendQueuedRequest : Settles sendQueuedRequest := by
  refine settles_read fun s => ?_
  cases s.requestQueue with
  | nil => exact settles_pure _
  | cons message rest =>
    refine settles_ite (settles_pure _) ?_
    exact settles_bind (settles_modify fun _ => rfl) fun _ => settles_send message

theorem settles_request (message : Request) : Settles (request message) := by
  refine settles_bind (settles_modify fun _ => rfl) fun _ => settles_read fun s => ?_
  refine settles_ite ?_ settles_sendQueuedRequest
  refine settles_bind (settles_modify fun _ => rfl) fun _ => ?_
  refine settles_bind (settles_of_frame (frame_native_ask _)) fun started => ?_
  exact settles_ite (settles_modify fun _ => rfl) (settles_fail _)

theorem settles_stopResolution (pathId : ℕ) : Settles (stopResolution pathId) :=
  settles_read fun _ => settles_when (settles_modify fun _ => rfl)

theorem settles_revokePath (pathId generation : ℕ) : Settles (revokePath pathId generation) := by
  refine settles_bind (m := updatePath pathId ActivePath.stopped) ?_ fun _ => ?_
  · refine settles_stop fun path => ?_
    split_ifs
    · exact .inr rfl
    · exact .inl rfl
  refine settles_bind (settles_stopResolution pathId) fun _ => settles_bind ?_ fun applied => ?_
  · refine settles_bind ?_ fun trusted => settles_ite (settles_applyRoutes false) (settles_pure _)
    refine settles_read fun s => settles_bind (settles_modify fun _ => rfl) fun _ => ?_
    exact settles_of_frame (frame_native_ask _)
  refine settles_ite (settles_bind (settles_fail _) fun _ => settles_pure _) ?_
  refine settles_bind (settles_invalidate [(pathId, generation)]) fun _ => settles_bind ?_ fun _ => ?_
  · exact settles_read fun s => settles_when
      (settles_forget (settles_of_frame (frame_native_setRuntimeProxy _)))
  · exact settles_bind (settles_modify fun _ => rfl) fun _ => settles_pure _

theorem settles_finishStopPath (pathId : ℕ) : Settles (finishStopPath pathId) := by
  refine settles_read fun s => ?_
  cases s.path pathId with
  | none => exact settles_pure _
  | some path =>
    refine settles_ite (settles_pure _) (settles_bind (settles_revokePath _ _) fun revoked => ?_)
    refine settles_ite (settles_pure _) (settles_bind (settles_modify fun _ => rfl) fun _ => ?_)
    exact settles_bind (settles_request _) fun _ => settles_pure _

theorem stopSinglePath_sound (pathId : ℕ) :
    Spec (NativeSound []) (stopSinglePath pathId) fun _ => NativeSound [] := by
  refine spec_read fun s => spec_ite (fun _ => spec_pure fun _ h => h) fun _ => ?_
  refine spec_ite (fun _ => spec_forget setPolicy_tunnels_sound) fun _ => ?_
  cases s.path pathId with
  | none => exact settles_reportError _ []
  | some path =>
    refine spec_ite (fun _ => settles_reportError _ []) fun _ => spec_ite (fun _ => ?_) fun _ => ?_
    · refine spec_bind (Q := fun _ => NativeSound []) (spec_modify fun _ h => h) fun _ => ?_
      refine spec_bind (Q := fun _ => NativeSound []) (spec_modify fun _ h => h) fun _ => ?_
      refine spec_bind (Q := fun _ => NativeSound []) (spec_modify fun _ h => h) fun _ => ?_
      refine spec_bind (settles_when (settles_stopResolution _) []) fun _ => ?_
      exact settles_sendQueuedRequest []
    · exact spec_forget (settles_finishStopPath pathId [])

theorem dropNativeEndpoints_sound :
    Spec (NativeSound []) dropNativeEndpoints fun _ => NativeSound [] := by
  refine spec_get fun t ht => ?_
  refine spec_bind (Q := fun _ => NativeSound t.nativeEndpoints) (spec_modify fun u hu => ?_) fun _ => ?_
  · subst hu
    refine sound_assignNativeEndpoints ht noEndpoints ?_
    rintro ⟨hreuse, -⟩
    cases hreuse
  refine spec_bind (settles_when (settles_forget (settles_applyRoutes false)) _) fun _ => ?_
  refine spec_modify fun u hu => hu.finish fun endpoint hendpoint => .inl ?_
  exact mem_map_of_mem hendpoint

theorem stopAllPaths_sound : Spec (NativeSound []) stopAllPaths fun _ => NativeSound [] := by
  refine spec_bind dropNativeEndpoints_sound fun _ => ?_
  refine spec_bind (settles_of_frame frame_native_blockRuntimeProxy []) fun _ => ?_
  refine spec_bind (settles_shutdown []) fun stopped => ?_
  exact spec_ite (fun _ => settles_reportError _ []) fun _ => settles_modify (fun _ => rfl) []

end Operations

/-! ### Runs -/

/-- The condition on a step: no generation is kept for a family that comes back elsewhere, no routes are
refused to a refresh that replaces direct endpoints, and the mixed policy is not given up unsaved when the
session has accepted endpoints of a new generation for it. -/
def NativeLabel.isGood (s : State) (label : NativeLabel) : Prop :=
  match label.call with
  | .refresh _ endpoints => ¬ s.Returns endpoints.list ∧
      ¬ (s.nativeEndpoints ≠ [] ∧ ∃ query, (query, false) ∈ label.answers)
  | .apply mode _ endpoints => ¬ s.Returns endpoints.list ∧
      ¬ (mode = "mixed" ∧ s.hasRuntimeProxy = false ∧ (.save, false) ∈ label.answers ∧
        endpoints.list ≠ [] ∧ s.reuses endpoints.list = false)
  | .stop _ => True

theorem nativeStep_sound {s' : State} {label : NativeLabel} (hs : NativeSound [] s)
    (hgood : label.isGood s) (hstep : nativeStep s label = some s') : NativeSound [] s' := by
  rw [nativeStep, Option.ite_none_right_eq_some] at hstep
  obtain ⟨-, hstep⟩ := hstep
  cases hstep
  obtain ⟨call, surroundings, answers⟩ := label
  cases call with
  | refresh force endpoints =>
    refine refreshNativeRoute_sound (s := { s with
      surroundings := { surroundings with nativeEndpointsForSessionBinding := fun _ _ => endpoints.list }
      answers := answers
      asked := [] }) force endpoints hs rfl (List.Subset.refl answers) hgood.1 ?_ _ rfl
    by_contra hrefused
    rw [not_or, not_forall] at hrefused
    obtain ⟨hsome, query, hquery⟩ := hrefused
    exact hgood.2 ⟨hsome, query, not_not.mp hquery⟩
  | apply mode nativeInterface endpoints =>
    refine applyPolicy_sound (s := { s with
      surroundings := surroundings, answers := answers, asked := [] }) mode nativeInterface endpoints hs
      hgood.1 (List.Subset.refl answers) (fun hmode hproxy hsave => ?_) _ rfl
    by_contra hnew
    rw [not_or, Bool.not_eq_true] at hnew
    exact hgood.2 ⟨hmode, hproxy, hsave, hnew.1, hnew.2⟩
  | stop pathId =>
    cases pathId with
    | none => exact stopAllPaths_sound _ hs
    | some pathId => exact stopSinglePath_sound pathId _ hs

theorem nativeRuns_sound (h : nativeRuns.Reachable (fun s label => label.isGood s) s) :
    NativeSound [] s := by
  refine h.invariant (fun s hs => ?_) fun s label s' hs hgood hstep => nativeStep_sound hs hgood hstep
  obtain ⟨hendpoints, hforce, hpaths⟩ := hs
  have hknown : (nativeView s).known [] = [] := by
    show s.inForce ++ ([] ++ s.nativeEndpoints) = []
    rw [hendpoints, hforce]
    rfl
  have htypes : EndpointType.native ∉ (nativeView s).types := by
    intro hmem
    obtain ⟨path, hpath, htype⟩ := mem_map.mp hmem
    exact hpaths path hpath htype
  refine ⟨htypes, ?_, ?_, ?_, ?_, ?_⟩
  · rw [hknown]
    exact forall_mem_nil _
  · show ∀ endpoint ∈ s.nativeEndpoints, _
    rw [hendpoints]
    exact forall_mem_nil _
  · rw [hknown]
    exact forall_mem_nil _
  · rw [hknown]
    exact forall_mem_nil _
  · show ∀ endpoint ∈ s.inForce, _
    rw [hforce]
    exact forall_mem_nil _

/-- In every run whose steps all meet the condition, direct endpoints of one family that were ever in
force under one generation have the same interface and address, and when a family has another address
than one that was in force, every endpoint of that generation has been invalidated. -/
theorem native_generations {s : State}
    (h : nativeRuns.Reachable (fun s label => label.isGood s) s) :
    (∀ endpoint ∈ s.inForce, ∀ other ∈ s.inForce, endpoint.generation = other.generation →
      endpoint.supportsIPv4 = other.supportsIPv4 → SameAddress endpoint other) ∧
    ∀ endpoint ∈ s.inForce, ∀ current ∈ s.nativeEndpoints,
      endpoint.supportsIPv4 = current.supportsIPv4 → ¬ SameAddress endpoint current →
        ∀ other ∈ s.inForce, other.generation = endpoint.generation →
          (other.pathId, other.generation) ∈ s.session.invalidated := by
  have hsound := nativeRuns_sound h
  have hforce : ∀ {endpoint}, endpoint ∈ s.inForce → endpoint ∈ (nativeView s).known [] :=
    fun h => mem_append_left _ h
  refine ⟨fun endpoint he other ho => hsound.law endpoint (hforce he) other (hforce ho), ?_⟩
  intro endpoint he current hc hfamily hdiffers other ho hgeneration
  have hcurrent : current ∈ (nativeView s).known [] := mem_append_right _ hc
  rw [(hsound.native other (hforce ho)).2]
  refine (hsound.retired other ho).resolve_right ?_
  rintro ⟨live, hlive, hsame⟩
  -- The generation would still be the current one, under which the family has one address.
  have huniform := hsound.uniform live hlive current hc
  refine hdiffers (hsound.law endpoint (hforce he) current hcurrent ?_ hfamily)
  rw [← hgeneration, ← hsame, huniform]

/-! ### An adapter that loses an address -/

def directEndpoint (ipv4 : Bool) (localAddress : String) : PeerRouteEndpoint where
  type := .native
  pathId := 1
  localAddress := localAddress
  interfaceIndex := 7
  supportsIPv4 := ipv4
  supportsIPv6 := !ipv4
  supportsUdp := true

def singleStack (ipv4 : String) : NativeEndpoints where
  list := [directEndpoint true ipv4]
  native endpoint h := by
    obtain rfl := mem_singleton.mp h
    exact ⟨rfl, rfl, rfl⟩
  families := nodup_singleton _

def dualStack (ipv4 ipv6 : String) : NativeEndpoints where
  list := [directEndpoint true ipv4, directEndpoint false ipv6]
  native endpoint h := by
    rcases mem_cons.mp h with rfl | h
    · exact ⟨rfl, rfl, rfl⟩
    · obtain rfl := mem_singleton.mp h
      exact ⟨rfl, rfl, rfl⟩
  families := by
    show [true, false].Nodup
    decide

/-- The routes are refreshed, and the session accepts them. -/
def refreshed (endpoints : NativeEndpoints) : NativeLabel :=
  ⟨.refresh false endpoints, plainSurroundings endpoints.list, [(.setNetworkRoutes, true)]⟩

def newState : State := fresh newSettings false (plainSurroundings [])

theorem reachable_newState {allowed : State → NativeLabel → Prop} :
    nativeRuns.Reachable allowed newState :=
  .start ⟨rfl, rfl, forall_mem_nil _⟩

/-- Both addresses of an adapter change at once. -/
def renumbered : List NativeLabel :=
  [refreshed (dualStack "192.0.2.1" "2001:db8::1"), refreshed (dualStack "192.0.2.9" "2001:db8::9")]

theorem native_generations_renumbered :
    ∃ s, nativeRuns.runAll newState renumbered = some s ∧ s.inForce.length = 4 ∧
      ∀ endpoint ∈ s.inForce, ∀ other ∈ s.inForce, endpoint.generation = other.generation →
        endpoint.supportsIPv4 = other.supportsIPv4 → SameAddress endpoint other := by
  have hgood : nativeRuns.AllowedAll (fun s label => label.isGood s) newState renumbered := by
    refine ⟨⟨?_, ?_⟩, ⟨?_, ?_⟩, trivial⟩
    · rintro ⟨hreuse, -⟩
      cases hreuse
    · rintro ⟨hsome, -⟩
      exact hsome rfl
    · rintro ⟨hreuse, -⟩
      cases hreuse
    · rintro ⟨-, query, hquery⟩
      cases mem_singleton.mp hquery
  have hrun : ∃ s, nativeRuns.runAll newState renumbered = some s ∧ s.inForce.length = 4 :=
    ⟨_, rfl, rfl⟩
  obtain ⟨s, hs, hlength⟩ := hrun
  have hreachable := System.reachable_of_runAll renumbered reachable_newState hgood hs
  exact ⟨s, hs, hlength, (native_generations hreachable).1⟩

/-- The second family is lost, and comes back with another address. -/
def returning : List NativeLabel :=
  [refreshed (dualStack "192.0.2.1" "2001:db8::1"), refreshed (singleStack "192.0.2.1"),
    refreshed (dualStack "192.0.2.1" "2001:db8::9")]

/-- Both addresses of the second family were in force under the first generation. -/
theorem family_returns_elsewhere : ¬ ∀ s, nativeRuns.Reachable (fun _ _ => True) s →
    (∀ endpoint ∈ s.inForce, ∀ other ∈ s.inForce, endpoint.generation = other.generation →
      endpoint.supportsIPv4 = other.supportsIPv4 → SameAddress endpoint other) ∧
    ∀ endpoint ∈ s.inForce, ∀ current ∈ s.nativeEndpoints,
      endpoint.supportsIPv4 = current.supportsIPv4 → ¬ SameAddress endpoint current →
        ∀ other ∈ s.inForce, other.generation = endpoint.generation →
          (other.pathId, other.generation) ∈ s.session.invalidated := by
  intro hclaim
  have hrun : ∃ s, nativeRuns.runAll newState returning = some s ∧
      { directEndpoint false "2001:db8::1" with generation := 1 } ∈ s.inForce ∧
      { directEndpoint false "2001:db8::9" with generation := 1 } ∈ s.inForce :=
    ⟨_, rfl, by decide, by decide⟩
  obtain ⟨s, hs, hbefore, hafter⟩ := hrun
  have hreachable := System.reachable_of_runAll returning reachable_newState
    (System.allowedAll_of_forall (fun _ _ _ => trivial) _) hs
  have hsame := (hclaim s hreachable).1 _ hbefore _ hafter rfl rfl
  exact absurd hsame (by decide)

end Qbutt.Paths
