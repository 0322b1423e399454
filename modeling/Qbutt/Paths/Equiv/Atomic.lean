import Qbutt.Paths.System

/-!
# What a policy that fails leaves behind

`applyPolicy` restores what was there before when it fails without `fail`, unless no policy was saved
before, a runtime proxy was started for it, or the routes of the mixed policy cannot be taken back
(`applyPolicy_restores_iff`).
-/

namespace Qbutt.Paths

open Action List

/-! ### The statement -/

def State.routeChange (s : State) (activateManaged : Bool) : RouteChange :=
  if !activateManaged && !s.settings.managedEnabled && !s.hasRuntimeProxy then
    if s.nativeEndpoints.isEmpty then
      if s.hasNativeBindingIntent then .set [] .pinned else .reset
    else .set s.nativeEndpoints .mixed
  else .set s.managedEndpoints s.managedPolicy

def RouteChange.query : RouteChange → Query
  | .set _ _ => .setNetworkRoutes
  | .reset => .resetNetworkRoutes

/-- What `fail` reports if the direct routes cannot be retired. -/
def retireMessage : String := "Unable to retire unavailable Native routes safely."

/-- The policy, the adapter and the presence of the runtime proxy are what they were, and so are the
routes if they were those that these values denote; the direct endpoints may have been retired if a
change of routes was refused. -/
structure Restored (s s' : State) : Prop where
  policy : s'.settings.policy = s.settings.policy
  nativeInterface : s'.settings.nativeInterface = s.settings.nativeInterface
  proxy : s'.hasRuntimeProxy = s.hasRuntimeProxy
  routes : s.session.routes = some (s.routeChange false) →
    s'.session.routes = some (s'.routeChange false)
  native : s'.nativeEndpoints = s.nativeEndpoints ∨
    (s'.nativeEndpoints = [] ∧ (.setNetworkRoutes, false) ∈ s'.asked)

def State.stagedRoutes (s : State) (mode nativeInterface : String)
    (nativeEndpoints : List PeerRouteEndpoint) : RouteChange :=
  let staged := { s with settings :=
    { s.settings with policy := some mode, nativeInterface := nativeInterface } }
  (assignNativeEndpoints nativeEndpoints staged).2.routeChange true

/-- The mixed policy is entered. -/
def State.enters (s : State) (mode : String) : Bool := mode = "mixed" && !s.hasRuntimeProxy

/-- The answers after that about the marker of the runtime proxy, if it is asked for first. -/
def State.later (s : State) (answers : List (Query × Bool)) : List (Query × Bool) :=
  if s.hasRuntimeProxy || s.settings.runtimeRequired then answers else answers.tail

def anyRefused (answers : List (Query × Bool)) : Bool := answers.any fun answer => !answer.2

/-- The mixed policy is undone while no policy was saved before, or without the routes before it. -/
def State.StaysMixed (s : State) (mode nativeInterface : String)
    (nativeEndpoints : List PeerRouteEndpoint) (answers : List (Query × Bool)) : Prop :=
  anyRefused answers = true ∧ (s.settings.policy = none ∨
    ((∃ query, answers = [(.setNetworkRoutes, true), (.save, false), (query, false)]) ∧
      s.session.routes = some (s.routeChange false) ∧
      s.stagedRoutes mode nativeInterface nativeEndpoints ≠ s.routeChange false))

/-- Another policy is undone, but not by `fail`, while no policy was saved before, or after the runtime
proxy was started for it. -/
def State.StaysManaged (s : State) (answers : List (Query × Bool)) : Prop :=
  (s.hasRuntimeProxy || s.settings.runtimeRequired || answers.head? = some (.save, true)) = true ∧
    anyRefused (s.later answers) = true ∧
    (s.later answers).count (.setNetworkRoutes, false) ≤ 1 ∧
    (s.settings.policy = none ∨ s.hasRuntimeProxy = false)

/-- The answers after which `applyPolicy` leaves something behind. -/
def State.LeavesBehind (s : State) (mode nativeInterface : String)
    (nativeEndpoints : List PeerRouteEndpoint) (answers : List (Query × Bool)) : Prop :=
  if s.enters mode then s.StaysMixed mode nativeInterface nativeEndpoints answers
  else s.StaysManaged answers

/-! ### What is seen of a state -/

/-- What `applyPolicy` reads and restores. -/
structure Sight where
  settings : Settings
  proxied : Bool
  native : List PeerRouteEndpoint
  paths : List ActivePath
  surroundings : Surroundings
  status : String
  routes : Option RouteChange
  asked : List (Query × Bool)

def sight (s : State) : Sight where
  settings := s.settings
  proxied := s.hasRuntimeProxy
  native := s.nativeEndpoints
  paths := s.paths
  surroundings := s.surroundings
  status := s.statusText
  routes := s.session.routes
  asked := s.asked

variable {s t : State} {u t : State}
  {mode previous previousInterface nativeInterface : String} {kept : List PeerRouteEndpoint}
  {nativeEndpoints : List PeerRouteEndpoint} {marker more : List (Query × Bool)}

theorem routeChange_congr (settings : t.settings = s.settings)
    (proxied : t.hasRuntimeProxy = s.hasRuntimeProxy) (native : t.nativeEndpoints = s.nativeEndpoints)
    (paths : t.paths = s.paths) (surroundings : t.surroundings = s.surroundings)
    (activateManaged : Bool) : t.routeChange activateManaged = s.routeChange activateManaged := by
  unfold State.routeChange State.hasNativeBindingIntent State.managedEndpoints State.managedPolicy
    State.currentPolicy
  rw [settings, proxied, native, paths, surroundings]

theorem sight_ask (query : Query) : Spec (· = s) (ask query) fun answer t =>
    sight t = { sight s with asked := s.asked ++ [(query, answer)] } := by
  rintro _ rfl
  unfold ask
  split
  · split_ifs
    · rfl
    · rfl
  · rfl

theorem sight_save (hdirty : s.dirty = true) : Spec (· = s) save fun saved t =>
    sight t = { sight s with asked := s.asked ++ [(.save, saved)] } := by
  refine spec_get fun t ht => ?_
  subst ht
  rw [hdirty, Bool.not_true, if_neg Bool.false_ne_true]
  refine spec_bind (sight_ask .save) fun saved => ?_
  exact spec_bind (Q := fun _ u => sight u = { sight t with asked := t.asked ++ [(.save, saved)] })
    (spec_modify fun _ h => h) fun _ => spec_pure fun _ h => h

variable (endpoints : List PeerRouteEndpoint)

theorem sight_setNetworkRoutes (policy : RoutePolicy) :
    Spec (· = s) (setNetworkRoutes endpoints policy) fun accepted t => sight t = { sight s with
      asked := s.asked ++ [(.setNetworkRoutes, accepted)]
      routes := if accepted then some (.set endpoints policy) else s.session.routes } := by
  refine spec_bind (sight_ask .setNetworkRoutes) fun accepted => ?_
  refine spec_bind (Q := fun _ t => sight t = { sight s with
    asked := s.asked ++ [(.setNetworkRoutes, accepted)]
    routes := if accepted then some (.set endpoints policy) else s.session.routes }) ?_
    fun _ => spec_pure fun _ h => h
  cases accepted with
  | true => exact spec_modify fun t ht => congrArg (fun v : Sight => { v with
      routes := some (.set endpoints policy) }) ht
  | false => exact spec_pure fun t ht => ht

theorem sight_resetNetworkRoutes :
    Spec (· = s) resetNetworkRoutes fun accepted t => sight t = { sight s with
      asked := s.asked ++ [(.resetNetworkRoutes, accepted)]
      routes := if accepted then some .reset else s.session.routes } := by
  refine spec_bind (sight_ask .resetNetworkRoutes) fun accepted => ?_
  refine spec_bind (Q := fun _ t => sight t = { sight s with
    asked := s.asked ++ [(.resetNetworkRoutes, accepted)]
    routes := if accepted then some .reset else s.session.routes }) ?_ fun _ => spec_pure fun _ h => h
  cases accepted with
  | true => exact spec_modify fun t ht => congrArg (fun v : Sight => { v with routes := some .reset }) ht
  | false => exact spec_pure fun t ht => ht

theorem sight_applyRoutes (activateManaged : Bool) :
    Spec (· = s) (applyRoutes activateManaged) fun accepted t => sight t = { sight s with
      asked := s.asked ++ [((s.routeChange activateManaged).query, accepted)]
      routes := if accepted then some (s.routeChange activateManaged) else s.session.routes } := by
  refine spec_get fun t ht => ?_
  subst ht
  unfold State.routeChange
  split_ifs
  · exact sight_setNetworkRoutes [] .pinned
  · exact sight_resetNetworkRoutes
  · exact sight_setNetworkRoutes t.nativeEndpoints .mixed
  · exact sight_setNetworkRoutes t.managedEndpoints t.managedPolicy

theorem sight_setRuntimeProxy (config : ProxyConfiguration) :
    Spec (· = s) (setRuntimeProxy config) fun saved t =>
      (s.settings.runtimeRequired = true ∧ saved = true ∧ sight t = { sight s with proxied := true }) ∨
      (s.settings.runtimeRequired = false ∧ saved = true ∧ sight t = { sight s with
        settings := { s.settings with runtimeRequired := true }
        proxied := true
        asked := s.asked ++ [(.save, true)] }) ∨
      (s.settings.runtimeRequired = false ∧ saved = false ∧
        sight t = { sight s with asked := s.asked ++ [(.save, false)] }) := by
  refine spec_get fun t ht => ?_
  subst ht
  refine spec_ite (fun hrequired => ?_) fun hrequired => ?_
  · rw [Bool.not_eq_true'] at hrequired
    refine spec_bind (Q := fun _ u => u.dirty = true ∧ sight u = { sight t with
      settings := { t.settings with runtimeRequired := true } }) ?_ fun _ => ?_
    · rintro u rfl
      refine ⟨?_, rfl⟩
      show (u.dirty || decide _) = true
      rw [decide_eq_true, Bool.or_true]
      intro hsame
      rw [← congrArg Settings.runtimeRequired hsame] at hrequired
      cases hrequired
    refine spec_bind (Q := fun saved u => sight u = { sight t with
      settings := { t.settings with runtimeRequired := true }
      asked := t.asked ++ [(.save, saved)] }) (spec_of_forall fun u hu => ?_) fun saved => ?_
    · refine (sight_save hu.1).mono (fun _ h => h) fun saved w hw => ?_
      have hasked : u.asked = t.asked := congrArg Sight.asked hu.2
      rw [hw, hu.2, hasked]
    refine spec_ite (fun hsaved => ?_) fun hsaved => ?_
    · subst hsaved
      refine spec_bind (Q := fun _ u => sight u = { sight t with
        settings := { t.settings with runtimeRequired := true }
        proxied := true
        asked := t.asked ++ [(.save, true)] }) (spec_modify fun u hu => ?_)
        fun _ => spec_pure fun _ h => .inr (.inl ⟨hrequired, rfl, h⟩)
      exact congrArg (fun v : Sight => { v with proxied := true }) hu
    · rw [Bool.not_eq_true] at hsaved
      subst hsaved
      refine spec_bind (Q := fun _ u => sight u = { sight t with
        asked := t.asked ++ [(.save, false)] }) (spec_modify fun u hu => ?_)
        fun _ => spec_pure fun _ h => .inr (.inr ⟨hrequired, rfl, h⟩)
      have hmark : { t.settings with runtimeRequired := false } = t.settings := by
        rw [← hrequired]
      have hundo := congrArg (fun v : Sight => { v with
        settings := { v.settings with runtimeRequired := false } }) hu
      exact hundo.trans (congrArg (fun settings => { sight t with
        settings := settings, asked := t.asked ++ [(Query.save, false)] }) hmark)
  · refine spec_bind (Q := fun _ u => sight u = { sight t with proxied := true })
      (spec_modify fun u hu => hu ▸ rfl) fun _ => spec_pure fun _ h => ?_
    exact .inl ⟨by simpa using hrequired, rfl, h⟩

/-! ### Answers are kept -/

/-- An action adds to the answers. -/
def Grows {α : Type} (m : Action State α) : Prop := ∀ s, s.asked <+: (m s).2.asked

section Grows

variable {α β : Type}

theorem grows_bind {m : Action State α} {k : α → Action State β} (hm : Grows m)
    (hk : ∀ a, Grows (k a)) : Grows (m >>= k) :=
  fun s => (hm s).trans (hk _ _)

theorem grows_read {k : State → Action State β} (hk : ∀ s, Grows (k s)) : Grows (get >>= k) :=
  fun s => hk s s

theorem grows_of_frame {m : Action State α} (h : Action.Frame State.asked m) : Grows m :=
  fun s => (h s).symm ▸ prefix_rfl

theorem grows_pure (a : α) : Grows (pure a : Action State α) := fun _ => prefix_rfl

theorem grows_ite {c : Prop} [Decidable c] {m m' : Action State α} (hm : Grows m) (hm' : Grows m') :
    Grows (if c then m else m') := by
  split_ifs
  · exact hm
  · exact hm'

theorem grows_when {c : Bool} {m : Action State Unit} (hm : Grows m) : Grows (when c m) :=
  grows_ite hm (grows_pure ())

theorem grows_ask (query : Query) : Grows (ask query) := by
  intro s
  have hasked : (ask query s).2.asked = s.asked ++ _ := congrArg Sight.asked (sight_ask query s rfl)
  exact ⟨_, hasked.symm⟩

theorem grows_save : Grows save := by
  refine grows_read fun s => grows_ite (grows_pure _) (grows_bind (grows_ask _) fun saved => ?_)
  exact grows_bind (grows_of_frame fun _ => rfl) fun _ => grows_pure _

theorem grows_setRuntimeProxy (config : ProxyConfiguration) : Grows (setRuntimeProxy config) := by
  refine grows_read fun s => grows_ite ?_ ?_
  · refine grows_bind (grows_of_frame fun _ => rfl) fun _ => grows_bind grows_save fun saved => ?_
    exact grows_ite (grows_bind (grows_of_frame fun _ => rfl) fun _ => grows_pure _)
      (grows_bind (grows_of_frame fun _ => rfl) fun _ => grows_pure _)
  · exact grows_bind (grows_of_frame fun _ => rfl) fun _ => grows_pure _

theorem grows_applyRoutes (activateManaged : Bool) : Grows (applyRoutes activateManaged) := by
  intro s
  have hasked : (applyRoutes activateManaged s).2.asked = s.asked ++ _ :=
    congrArg Sight.asked (sight_applyRoutes activateManaged s rfl)
  exact ⟨_, hasked.symm⟩

theorem grows_shutdown : Grows shutdown := by
  refine grows_bind (grows_of_frame fun _ => rfl) fun _ => ?_
  refine grows_bind (grows_of_frame fun _ => rfl) fun _ => grows_bind ?_ fun trusted => ?_
  · exact grows_bind (grows_of_frame fun _ => rfl) fun _ => grows_ask _
  refine grows_bind ?_ fun routes => grows_read fun s => ?_
  · exact grows_read fun s => grows_ite (grows_applyRoutes false) (grows_pure _)
  refine grows_bind (grows_of_frame fun _ => rfl) fun _ => ?_
  refine grows_bind (grows_of_frame fun _ => rfl) fun _ => grows_bind ?_ fun stopped => ?_
  · refine grows_read fun s => grows_ite (grows_pure _) (grows_bind (grows_ask _) fun stopped => ?_)
    exact grows_bind (grows_when (grows_of_frame fun _ => rfl)) fun _ => grows_pure _
  exact grows_bind (grows_of_frame fun _ => rfl) fun _ => grows_pure _

theorem fail_report (message : String) :
    Spec (· = s) (fail message) fun _ t => t.statusText = message ∧ s.asked <+: t.asked := by
  have hgrows : Grows (fail message) := by
    refine grows_bind (grows_of_frame fun _ => rfl) fun _ => grows_bind ?_ fun _ => ?_
    · exact grows_read fun s => grows_when (grows_setRuntimeProxy blockedRuntimeProxy)
    refine grows_bind grows_shutdown fun _ => grows_bind (grows_of_frame fun _ => rfl) fun _ => ?_
    exact grows_of_frame fun _ => rfl
  rintro t rfl
  exact ⟨rfl, hgrows t⟩

end Grows

/-! ### Policies of a managed connection -/

/-- The ways that a change of the policy ends if there is a runtime proxy, and the answers to it. -/
inductive ManagedEnd (t : State) : Bool → State → List (Query × Bool) → Prop
  /-- The policy is in force. -/
  | done {u : State} {more : List (Query × Bool)} (answered : anyRefused more = false) :
      ManagedEnd t true u more
  /-- `fail` was called. -/
  | failed {u : State} {more : List (Query × Bool)} (status : u.statusText = retireMessage)
      (refused : 1 < more.count (.setNetworkRoutes, false)) : ManagedEnd t false u more
  /-- The policy could not be saved. -/
  | unsaved {u : State} (seen : sight u = { sight t with
        settings := { t.settings with policy := some t.currentPolicy }
        status := "Unable to save the network policy."
        asked := t.asked ++ [(.save, false)] }) : ManagedEnd t false u [(.save, false)]
  /-- The direct endpoints were retired. -/
  | retired {u : State} {more : List (Query × Bool)}
      (refused : more.count (.setNetworkRoutes, false) = 1)
      (seen : sight u = { sight t with
        settings := { t.settings with policy := some t.currentPolicy }
        native := []
        status := "Unable to apply the network policy."
        routes := some (u.routeChange false)
        asked := t.asked ++ more }) : ManagedEnd t false u more

/-- Saving a policy that has changed, or nothing. -/
theorem sight_forget_save : Spec (· = s) (forget save) fun _ t => ∃ more,
    sight t = { sight s with asked := s.asked ++ more } ∧ ∀ answer ∈ more, answer.1 = .save := by
  refine spec_forget (I := fun t => ∃ more,
    sight t = { sight s with asked := s.asked ++ more } ∧ ∀ answer ∈ more, answer.1 = .save) ?_
  cases hdirty : s.dirty with
  | true =>
    refine (sight_save hdirty).mono (fun _ h => h) fun saved t ht => ?_
    refine ⟨[(.save, saved)], ht, fun answer hanswer => ?_⟩
    rw [mem_singleton.mp hanswer]
  | false =>
    refine spec_get fun t ht => ?_
    subst ht
    rw [hdirty, Bool.not_false, if_pos rfl]
    refine spec_pure fun u hu => ⟨[], ?_, forall_mem_nil _⟩
    rw [hu, append_nil]
    rfl

theorem managed_query (hproxied : u.hasRuntimeProxy = true) (activateManaged : Bool) :
    (u.routeChange activateManaged).query = .setNetworkRoutes := by
  unfold State.routeChange
  rw [hproxied, Bool.not_true, Bool.and_false, if_neg Bool.false_ne_true]
  rfl

theorem undoPolicy_end (hproxied : s.hasRuntimeProxy = true) :
    Spec (· = s) (undoPolicy false previous previousInterface kept) fun _ u => ∃ more,
      (s.asked ++ more <+: u.asked ∧ u.statusText = retireMessage ∧
        0 < more.count (.setNetworkRoutes, false)) ∨
      (more.count (.setNetworkRoutes, false) = 0 ∧ sight u = { sight s with
        settings := { s.settings with policy := some previous, nativeInterface := previousInterface }
        native := []
        status := "Unable to apply the network policy."
        routes := some (u.routeChange false)
        asked := s.asked ++ more }) := by
  refine spec_bind (Q := fun _ t => sight t = { sight s with native := [] })
    (spec_modify fun t ht => ht ▸ rfl) fun _ => ?_
  refine spec_bind (Q := fun _ t => sight t = { sight s with native := [] })
    (spec_modify fun t ht => ht) fun _ => ?_
  refine spec_bind (Q := fun _ t => sight t = { sight s with
    settings := { s.settings with policy := some previous, nativeInterface := previousInterface }
    native := [] }) (spec_modify fun t ht => ?_) fun _ => ?_
  · exact congrArg (fun v : Sight => { v with settings :=
      { v.settings with policy := some previous, nativeInterface := previousInterface } }) ht
  refine spec_bind (Q := fun _ t => ∃ more, sight t = { sight s with
      settings := { s.settings with policy := some previous, nativeInterface := previousInterface }
      native := []
      asked := s.asked ++ more } ∧ ∀ answer ∈ more, answer.1 = .save)
    (spec_of_forall fun t ht => ?_) fun _ => ?_
  · refine sight_forget_save.mono (fun _ h => h) fun _ u ⟨more, hu, hmore⟩ => ⟨more, ?_, hmore⟩
    have hasked : t.asked = s.asked := congrArg Sight.asked ht
    rw [hu, ht, hasked]
  refine spec_of_forall fun t ⟨more, ht, hmore⟩ => ?_
  have hcount : more.count (.setNetworkRoutes, false) = 0 := by
    refine count_eq_zero.mpr fun hmem => ?_
    cases hmore _ hmem
  have hproxied' : t.hasRuntimeProxy = true := (congrArg Sight.proxied ht).trans hproxied
  have hasked : t.asked = s.asked ++ more := congrArg Sight.asked ht
  refine spec_bind (sight_applyRoutes false) fun applied => ?_
  rw [managed_query hproxied', hasked]
  cases applied with
  | true =>
    refine spec_modify fun u hu => ⟨more ++ [(.setNetworkRoutes, true)], .inr ⟨?_, ?_⟩⟩
    · rw [count_append, hcount]
      rfl
    · have hchange : State.routeChange { u with statusText := "Unable to apply the network policy." }
          false = t.routeChange false :=
        routeChange_congr (congrArg Sight.settings hu) (congrArg Sight.proxied hu)
          (congrArg Sight.native hu) (congrArg Sight.paths hu) (congrArg Sight.surroundings hu) false
      rw [hchange, ← append_assoc]
      have hseen := congrArg (fun v : Sight => { v with
        status := "Unable to apply the network policy." }) hu
      rw [ht] at hseen
      exact hseen
  | false =>
    refine spec_of_forall fun u hu => (fail_report retireMessage).mono (fun _ h => h) fun _ w hw => ?_
    refine ⟨more ++ [(.setNetworkRoutes, false)], .inl ⟨?_, hw.1, ?_⟩⟩
    · have hasked' : u.asked = s.asked ++ more ++ [(.setNetworkRoutes, false)] :=
        congrArg Sight.asked hu
      rw [← append_assoc, ← hasked']
      exact hw.2
    · rw [count_append, hcount]
      decide

theorem sight_assignNativeEndpoints :
    Spec (· = s) (assignNativeEndpoints endpoints) fun _ t =>
      sight t = { sight s with native := (assignNativeEndpoints endpoints s).2.nativeEndpoints } := by
  rintro t rfl
  show sight (assignNativeEndpoints endpoints t).2 = _
  unfold assignNativeEndpoints
  simp only [Action.modify]
  split_ifs
  · rfl
  · rfl
  · rfl

theorem frame_asked_finishPolicy (mode : String) (kept : List PeerRouteEndpoint) :
    Action.Frame State.asked (finishPolicy mode kept) :=
  frame_bind frame_get fun _ => frame_bind (frame_modify fun _ => rfl) fun _ => frame_modify fun _ => rfl

/-- The routes of another policy are accepted, refused and taken back, or refused twice. -/
theorem installPolicy_end (hproxied : s.hasRuntimeProxy = true) :
    Spec (· = s) (installPolicy mode false previous previousInterface nativeEndpoints) fun b u =>
      (b = true ∧ u.asked = s.asked ++ [(.setNetworkRoutes, true)]) ∨ (b = false ∧ ∃ more,
        (s.asked ++ more <+: u.asked ∧ u.statusText = retireMessage ∧
          1 < more.count (.setNetworkRoutes, false)) ∨
        (more.count (.setNetworkRoutes, false) = 1 ∧ sight u = { sight s with
          settings := { s.settings with policy := some previous, nativeInterface := previousInterface }
          native := []
          status := "Unable to apply the network policy."
          routes := some (u.routeChange false)
          asked := s.asked ++ more })) := by
  refine spec_get fun t ht => ?_
  subst ht
  refine spec_bind (sight_assignNativeEndpoints nativeEndpoints) fun _ => ?_
  refine spec_of_forall fun staged hstaged => ?_
  have hproxied' : staged.hasRuntimeProxy = true := (congrArg Sight.proxied hstaged).trans hproxied
  have hasked : staged.asked = t.asked := congrArg Sight.asked hstaged
  refine spec_bind (sight_applyRoutes false) fun applied => ?_
  rw [managed_query hproxied', hasked]
  cases applied with
  | true =>
    refine spec_bind (Q := fun entered u => entered = true ∧
      u.asked = t.asked ++ [(.setNetworkRoutes, true)]) (spec_pure fun u hu => ?_) fun entered => ?_
    · exact ⟨rfl, congrArg Sight.asked hu⟩
    refine spec_of_forall fun u hu => ?_
    rw [hu.1]
    refine spec_bind (Q := fun _ w => w.asked = t.asked ++ [(.setNetworkRoutes, true)]) ?_
      fun _ => spec_pure fun w hw => .inl ⟨rfl, hw⟩
    exact ((frame_asked_finishPolicy mode t.nativeEndpoints).spec
      (· = t.asked ++ [(.setNetworkRoutes, true)])).at hu.2
  | false =>
    refine spec_of_forall fun u hu => ?_
    have hproxied'' : u.hasRuntimeProxy = true := (congrArg Sight.proxied hu).trans hproxied'
    have hasked' : u.asked = t.asked ++ [(.setNetworkRoutes, false)] := congrArg Sight.asked hu
    refine spec_bind (undoPolicy_end hproxied'') fun _ => spec_pure fun w ⟨more, hw⟩ => ?_
    rw [hasked', append_assoc] at hw
    refine .inr ⟨rfl, (.setNetworkRoutes, false) :: more, ?_⟩
    rw [count_cons_self]
    rcases hw with ⟨hgrown, hstatus, hcount⟩ | ⟨hcount, hseen⟩
    · exact .inl ⟨hgrown, hstatus, Nat.succ_lt_succ hcount⟩
    · refine .inr ⟨by rw [hcount], hseen.trans ?_⟩
      have hback := congrArg (fun v : Sight => { v with
        settings := { v.settings with policy := some previous, nativeInterface := previousInterface }
        native := []
        status := "Unable to apply the network policy."
        routes := some (w.routeChange false)
        asked := t.asked ++ (Query.setNetworkRoutes, false) :: more }) (hu.trans (congrArg (fun v : Sight =>
          { v with asked := t.asked ++ [(Query.setNetworkRoutes, false)] }) hstaged))
      exact hback

/-- A policy that changes is to be saved. -/
theorem dirty_storePolicy {s : State} (hpolicy : s.settings.policy.getD "pinned" = previous)
    (hinterface : s.settings.nativeInterface = previousInterface)
    (hchanged : previous ≠ mode ∨ previousInterface ≠ nativeInterface) :
    (storePolicy mode nativeInterface s).2.dirty = true := by
  show (s.dirty || decide ({ s.settings with policy := some mode, nativeInterface := nativeInterface } ≠
    s.settings)) = true
  rw [Bool.or_eq_true, decide_eq_true_eq]
  refine .inr fun heq => ?_
  have hpolicy' : some mode = s.settings.policy := congrArg Settings.policy heq
  have hinterface' : nativeInterface = s.settings.nativeInterface := congrArg Settings.nativeInterface heq
  rw [← hpolicy', Option.getD_some] at hpolicy
  rw [← hinterface'] at hinterface
  exact hchanged.elim (fun h => h hpolicy.symm) fun h => h hinterface.symm

theorem managed_end (hproxied : t.hasRuntimeProxy = true) :
    Spec (· = t) (do
        storePolicy mode nativeInterface
        let saved ← savePolicy (t.currentPolicy ≠ mode || t.settings.nativeInterface ≠ nativeInterface) false
        if !saved then do
          storePolicy t.currentPolicy t.settings.nativeInterface
          reportError "Unable to save the network policy."
          return false
        else installPolicy mode false t.currentPolicy t.settings.nativeInterface nativeEndpoints)
      fun b u => ∃ more, u.asked = t.asked ++ more ∧ ManagedEnd t b u more := by
  refine spec_bind (Q := fun _ u => sight u = { sight t with settings := { t.settings with
      policy := some mode, nativeInterface := nativeInterface } } ∧
      ((t.currentPolicy ≠ mode ∨ t.settings.nativeInterface ≠ nativeInterface) → u.dirty = true))
    ?_ fun _ => ?_
  · rintro u rfl
    exact ⟨rfl, dirty_storePolicy rfl rfl⟩
  refine spec_bind (Q := fun saved u => ∃ before,
      sight u = { sight t with
        settings := { t.settings with policy := some mode, nativeInterface := nativeInterface }
        asked := t.asked ++ before } ∧
      (before = [] ∧ saved = true ∨ before = [(.save, saved)])) (spec_of_forall fun u hu => ?_)
    fun saved => ?_
  · refine spec_ite (fun hsaves => ?_) fun _ => ?_
    · have hchanged : t.currentPolicy ≠ mode ∨ t.settings.nativeInterface ≠ nativeInterface := by
        simp only [Bool.and_eq_true, Bool.or_eq_true, decide_eq_true_eq] at hsaves
        exact hsaves.1
      refine (sight_save (hu.2 hchanged)).mono (fun _ h => h) fun saved w hw => ?_
      have hasked : u.asked = t.asked := congrArg Sight.asked hu.1
      rw [hu.1, hasked] at hw
      exact ⟨_, hw, .inr rfl⟩
    · refine spec_pure fun w hw => ⟨[], ?_, .inl ⟨rfl, rfl⟩⟩
      rw [hw, hu.1, append_nil]
      rfl
  refine spec_of_forall fun u ⟨before, hu, hbefore⟩ => ?_
  have hproxied' : u.hasRuntimeProxy = true := (congrArg Sight.proxied hu).trans hproxied
  have hasked : u.asked = t.asked ++ before := congrArg Sight.asked hu
  cases saved with
  | false =>
    obtain rfl : before = [(.save, false)] := hbefore.resolve_left fun h => Bool.false_ne_true h.2
    refine spec_bind (Q := fun _ w => sight w = { sight t with
      settings := { t.settings with policy := some t.currentPolicy }
      asked := t.asked ++ [(.save, false)] }) (spec_modify fun w hw => ?_) fun _ => ?_
    · exact congrArg (fun v : Sight => { v with settings := { v.settings with
        policy := some t.currentPolicy, nativeInterface := t.settings.nativeInterface } }) (hw ▸ hu)
    refine spec_bind (Q := fun _ w => sight w = { sight t with
      settings := { t.settings with policy := some t.currentPolicy }
      status := "Unable to save the network policy."
      asked := t.asked ++ [(.save, false)] }) (spec_modify fun w hw => ?_) fun _ => spec_pure fun w hw => ?_
    · exact congrArg (fun v : Sight => { v with status := "Unable to save the network policy." }) hw
    · exact ⟨[(.save, false)], congrArg Sight.asked hw, .unsaved hw⟩
  | true =>
    have hcount : before.count (.setNetworkRoutes, false) = 0 ∧ anyRefused before = false := by
      rcases hbefore with ⟨rfl, -⟩ | rfl
      · exact ⟨rfl, rfl⟩
      · exact ⟨rfl, rfl⟩
    refine (installPolicy_end hproxied').mono (fun _ h => h) fun b w hw => ?_
    rw [hasked] at hw
    rcases hw with ⟨rfl, hdone⟩ | ⟨rfl, more, ⟨⟨rest, hgrown⟩, hstatus, hrefused⟩ | ⟨hrefused, hseen⟩⟩
    · refine ⟨before ++ [(.setNetworkRoutes, true)], hdone.trans (append_assoc _ _ _), .done ?_⟩
      rw [anyRefused, any_append, ← anyRefused, hcount.2]
      rfl
    · refine ⟨before ++ (more ++ rest), ?_, .failed hstatus ?_⟩
      · rw [← hgrown, append_assoc, append_assoc]
      · rw [count_append, count_append]
        omega
    · refine ⟨before ++ more, (congrArg Sight.asked hseen).trans (append_assoc _ _ _), .retired ?_ ?_⟩
      · rw [count_append, hcount.1, hrefused]
      · have hsettings : u.settings = { t.settings with
            policy := some mode, nativeInterface := nativeInterface } := congrArg Sight.settings hu
        rw [hu, hsettings, append_assoc] at hseen
        exact hseen

/-! ### The mixed policy -/

/-- The ways that the change to the mixed policy ends if there is no runtime proxy yet. -/
inductive MixedEnd (s : State) (staged : RouteChange) : Bool → State → Prop
  /-- The policy is in force. -/
  | done {u : State} (answered : anyRefused u.asked = false) : MixedEnd s staged true u
  /-- The routes were refused. -/
  | refused {u : State} {query : Query} {restored : Bool} {status : String}
      (hstatus : status ≠ retireMessage)
      (seen : sight u = { sight s with
        settings := { s.settings with policy := some s.currentPolicy }
        status := status
        routes := if restored then some (u.routeChange false) else s.session.routes
        asked := [(.setNetworkRoutes, false), (query, restored)] }) : MixedEnd s staged false u
  /-- The runtime proxy could not be saved. -/
  | unsaved {u : State} {query : Query} {restored : Bool} {status : String}
      (hstatus : status ≠ retireMessage)
      (seen : sight u = { sight s with
        settings := { s.settings with policy := some s.currentPolicy }
        status := status
        routes := some (if restored then u.routeChange false else staged)
        asked := [(.setNetworkRoutes, true), (.save, false), (query, restored)] }) :
      MixedEnd s staged false u

theorem mixed_query (u : State) : (u.routeChange true).query = .setNetworkRoutes := by
  unfold State.routeChange
  rw [Bool.not_true, Bool.false_and, Bool.false_and, if_neg Bool.false_ne_true]
  rfl

theorem takeBack_end {v : Sight} {yes no : String} (hsight : sight s = v) :
    Spec (· = s) (do
        modify fun s => { s with nativeEndpoints := kept }
        storePolicy previous previousInterface
        let routesRestored ← applyRoutes false
        reportError (if routesRestored then yes else no))
      fun _ u => ∃ query restored, sight u = { v with
        settings := { v.settings with policy := some previous, nativeInterface := previousInterface }
        native := kept
        status := if restored then yes else no
        routes := if restored then some (u.routeChange false) else v.routes
        asked := v.asked ++ [(query, restored)] } := by
  refine spec_bind (Q := fun _ t => sight t = { v with native := kept })
    (spec_modify fun t ht => ?_) fun _ => ?_
  · exact congrArg (fun v : Sight => { v with native := kept }) (ht ▸ hsight)
  refine spec_bind (Q := fun _ t => sight t = { v with
    settings := { v.settings with policy := some previous, nativeInterface := previousInterface }
    native := kept }) (spec_modify fun t ht => ?_) fun _ => ?_
  · exact congrArg (fun v : Sight => { v with settings :=
      { v.settings with policy := some previous, nativeInterface := previousInterface } }) ht
  refine spec_of_forall fun t ht => spec_bind (sight_applyRoutes false) fun restored => ?_
  have hasked : t.asked = v.asked := congrArg Sight.asked ht
  have hroutes : t.session.routes = v.routes := congrArg Sight.routes ht
  refine spec_modify fun u hu => ⟨(t.routeChange false).query, restored, ?_⟩
  have hchange : State.routeChange { u with statusText := if restored then yes else no } false =
      t.routeChange false :=
    routeChange_congr (congrArg Sight.settings hu) (congrArg Sight.proxied hu)
      (congrArg Sight.native hu) (congrArg Sight.paths hu) (congrArg Sight.surroundings hu) false
  rw [hchange]
  rw [ht, hasked, hroutes] at hu
  exact congrArg (fun v : Sight => { v with status := if restored then yes else no }) hu

theorem installMixed_end (hasked : s.asked = []) :
    Spec (· = s) (installPolicy mode true previous previousInterface nativeEndpoints) fun b u =>
      (b = true ∧ anyRefused u.asked = false) ∨ (b = false ∧ ∃ query restored status,
        status ≠ retireMessage ∧
        (sight u = { sight s with
          settings := { s.settings with policy := some previous, nativeInterface := previousInterface }
          status := status
          routes := if restored then some (u.routeChange false) else s.session.routes
          asked := [(.setNetworkRoutes, false), (query, restored)] } ∨
        sight u = { sight s with
          settings := { s.settings with policy := some previous, nativeInterface := previousInterface }
          status := status
          routes := some (if restored then u.routeChange false
            else (assignNativeEndpoints nativeEndpoints s).2.routeChange true)
          asked := [(.setNetworkRoutes, true), (.save, false), (query, restored)] })) := by
  refine spec_get fun t ht => ?_
  subst ht
  refine spec_bind (Q := fun _ => (· = (assignNativeEndpoints nativeEndpoints t).2))
    (by rintro _ rfl; rfl) fun _ => ?_
  have hassigned := sight_assignNativeEndpoints nativeEndpoints t rfl
  refine spec_bind (sight_applyRoutes true) fun applied => ?_
  have hasked' : (assignNativeEndpoints nativeEndpoints t).2.asked = [] :=
    (congrArg Sight.asked hassigned).trans hasked
  have hroutes : (assignNativeEndpoints nativeEndpoints t).2.session.routes = t.session.routes :=
    congrArg Sight.routes hassigned
  rw [mixed_query, hasked', hroutes, hassigned]
  generalize (assignNativeEndpoints nativeEndpoints t).2.routeChange true = staged
  cases applied with
  | true =>
    refine spec_bind (Q := fun entered u =>
        (entered = true ∧ anyRefused u.asked = false) ∨ (entered = false ∧ sight u = { sight t with
          native := (assignNativeEndpoints nativeEndpoints t).2.nativeEndpoints
          routes := some staged
          asked := [(.setNetworkRoutes, true), (.save, false)] })) (spec_of_forall fun u hu => ?_)
      fun entered => ?_
    · refine (sight_setRuntimeProxy blockedRuntimeProxy).mono (fun _ h => h) fun entered w hw => ?_
      have hseen : u.asked = [(.setNetworkRoutes, true)] := congrArg Sight.asked hu
      rw [hseen, hu] at hw
      rcases hw with ⟨-, rfl, hw⟩ | ⟨-, rfl, hw⟩ | ⟨-, rfl, hw⟩
      · have hlast : w.asked = [(.setNetworkRoutes, true)] := congrArg Sight.asked hw
        exact .inl ⟨rfl, by rw [hlast]; rfl⟩
      · have hlast : w.asked = [(.setNetworkRoutes, true), (.save, true)] := congrArg Sight.asked hw
        exact .inl ⟨rfl, by rw [hlast]; rfl⟩
      · exact .inr ⟨rfl, hw⟩
    refine spec_of_forall fun u hu => ?_
    rcases hu with ⟨rfl, hanswered⟩ | ⟨rfl, hu⟩
    · refine spec_bind (Q := fun _ w => anyRefused w.asked = false) ?_
        fun _ => spec_pure fun _ h => .inl ⟨rfl, h⟩
      exact ((frame_asked_finishPolicy mode t.nativeEndpoints).spec
        fun asked => anyRefused asked = false).at hanswered
    · refine spec_bind (takeBack_end hu) fun _ => spec_pure fun w ⟨query, restored, hw⟩ => ?_
      refine .inr ⟨rfl, query, restored, if restored then "Unable to save the managed startup policy."
        else "Unable to restore Native after the managed startup policy failed.", ?_,
        .inr (hw.trans ?_)⟩
      · cases restored with
        | true => decide
        | false => decide
      · cases restored with
        | true => rfl
        | false => rfl
  | false =>
    refine spec_of_forall fun u hu => spec_bind (takeBack_end hu) fun _ => ?_
    refine spec_pure fun w ⟨query, restored, hw⟩ => .inr ⟨rfl, query, restored,
      if restored then "Unable to apply the network policy."
        else "Unable to restore Native after the network policy failed.", ?_, .inl hw⟩
    cases restored with
    | true => decide
    | false => decide

/-- Only the endpoints and the counter of generations change, whether or not there is something to save. -/
theorem assignNativeEndpoints_dirty (dirty : Bool) (s : State) :
    (assignNativeEndpoints endpoints { s with dirty := dirty }).2 =
      { (assignNativeEndpoints endpoints s).2 with dirty := dirty } := by
  unfold assignNativeEndpoints
  simp only [Action.modify]
  split_ifs
  · rfl
  · rfl
  · rfl

theorem changeMixed_end (hasked : s.asked = []) :
    Spec (· = s) (changePolicy mode nativeInterface s.currentPolicy s.settings.nativeInterface true
      nativeEndpoints) (MixedEnd s (s.stagedRoutes mode nativeInterface nativeEndpoints)) := by
  refine spec_bind (Q := fun ready t => ready = true ∧ t = s) (by rintro _ rfl; exact ⟨rfl, rfl⟩)
    fun ready => ?_
  refine spec_of_forall fun t ht => ?_
  obtain ⟨rfl, rfl⟩ := ht
  refine spec_bind (Q := fun _ => (· = (storePolicy mode nativeInterface t).2)) (by rintro _ rfl; rfl)
    fun _ => ?_
  refine spec_bind (Q := fun saved u => saved = true ∧ u = (storePolicy mode nativeInterface t).2) ?_
    fun saved => ?_
  · rw [savePolicy, Bool.not_true, Bool.and_false, if_neg Bool.false_ne_true]
    exact spec_pure fun u hu => ⟨rfl, hu⟩
  refine spec_of_forall fun u hu => ?_
  obtain ⟨rfl, rfl⟩ := hu
  have hstaged : (assignNativeEndpoints nativeEndpoints (storePolicy mode nativeInterface t).2).2.routeChange
      true = t.stagedRoutes mode nativeInterface nativeEndpoints := by
    have hdirty : (storePolicy mode nativeInterface t).2 = { { t with settings :=
        { t.settings with policy := some mode, nativeInterface := nativeInterface } } with
      dirty := (storePolicy mode nativeInterface t).2.dirty } := rfl
    rw [hdirty, assignNativeEndpoints_dirty]
    rfl
  refine (installMixed_end (s := (storePolicy mode nativeInterface t).2) hasked).mono (fun _ h => h)
    fun b w hw => ?_
  rw [hstaged] at hw
  rcases hw with ⟨rfl, hanswered⟩ | ⟨rfl, query, restored, status, hstatus, hseen | hseen⟩
  · exact .done hanswered
  · exact .refused hstatus hseen
  · exact .unsaved hstatus hseen

/-- There is a runtime proxy, which was there before, needed no mark, or is marked now. -/
structure Started (s t : State) (marker : List (Query × Bool)) : Prop where
  seen : sight t = { sight s with
    settings := { s.settings with runtimeRequired := t.settings.runtimeRequired }
    proxied := true
    asked := marker }
  marked : (marker = [] ∧ (s.hasRuntimeProxy || s.settings.runtimeRequired) = true) ∨
    (marker = [(.save, true)] ∧ (s.hasRuntimeProxy || s.settings.runtimeRequired) = false)
  kept : s.hasRuntimeProxy = true → t.settings.runtimeRequired = s.settings.runtimeRequired

theorem startManaged_end (hasked : s.asked = []) :
    Spec (· = s) (startManaged false) fun ready t =>
      (ready = true ∧ ∃ marker, Started s t marker) ∨
      (ready = false ∧ (s.hasRuntimeProxy || s.settings.runtimeRequired) = false ∧
        sight t = { sight s with
          status := "Unable to save the managed startup policy.", asked := [(.save, false)] }) := by
  refine spec_get fun t ht => ?_
  subst ht
  refine spec_ite (fun hstart => ?_) fun hstart => ?_
  · have hproxied : t.hasRuntimeProxy = false := by simpa using hstart
    refine spec_bind (sight_setRuntimeProxy blockedRuntimeProxy) fun saved => ?_
    rw [hasked]
    refine spec_of_forall fun u hu => ?_
    rcases hu with ⟨hrequired, rfl, hseen⟩ | ⟨hrequired, rfl, hseen⟩ | ⟨hrequired, rfl, hseen⟩
    · refine spec_pure fun w hw => .inl ⟨rfl, [], ?_, .inl ⟨rfl, ?_⟩,
        fun h => absurd (hproxied.symm.trans h) Bool.false_ne_true⟩
      · have hsettings : u.settings = t.settings := congrArg Sight.settings hseen
        have hproxy : sight t = { sight t with asked := t.asked } := rfl
        rw [hw, hseen, hsettings, hproxy, hasked]
        rfl
      · rw [hrequired, Bool.or_true]
    · refine spec_pure fun w hw => .inl ⟨rfl, [(.save, true)], ?_, .inr ⟨rfl, ?_⟩,
        fun h => absurd (hproxied.symm.trans h) Bool.false_ne_true⟩
      · have hsettings : u.settings.runtimeRequired = true :=
          congrArg (fun v : Sight => v.settings.runtimeRequired) hseen
        rw [hw, hsettings, hseen]
        rfl
      · rw [hproxied, hrequired]
        rfl
    · refine spec_bind (Q := fun _ w => sight w = { sight t with
        status := "Unable to save the managed startup policy.", asked := [(.save, false)] })
        (spec_modify fun w hw => ?_) fun _ => spec_pure fun w hw => .inr ⟨rfl, ?_, hw⟩
      · exact congrArg (fun v : Sight => { v with
          status := "Unable to save the managed startup policy." }) (hw ▸ hseen)
      · rw [hproxied, hrequired]
        rfl
  · have hproxied : t.hasRuntimeProxy = true := by simpa using hstart
    refine spec_pure fun w hw => .inl ⟨rfl, [], ?_, .inl ⟨rfl, ?_⟩, fun _ => by rw [hw]⟩
    · subst hw
      have hsame : sight w = { sight w with proxied := w.hasRuntimeProxy, asked := w.asked } := rfl
      rw [hproxied, hasked] at hsame
      exact hsame
    · rw [hproxied, Bool.true_or]

theorem changeManaged_end (hasked : s.asked = []) :
    Spec (· = s) (changePolicy mode nativeInterface s.currentPolicy s.settings.nativeInterface false
      nativeEndpoints) fun b u =>
      (∃ t marker more, Started s t marker ∧ u.asked = marker ++ more ∧ ManagedEnd t b u more) ∨
      (b = false ∧ (s.hasRuntimeProxy || s.settings.runtimeRequired) = false ∧
        sight u = { sight s with
          status := "Unable to save the managed startup policy.", asked := [(.save, false)] }) := by
  refine spec_bind (startManaged_end hasked) fun ready => spec_of_forall fun t ht => ?_
  rcases ht with ⟨rfl, marker, hstarted⟩ | ⟨rfl, hunmarked, hseen⟩
  · have hpolicy : s.currentPolicy = t.currentPolicy :=
      congrArg (fun v : Sight => v.settings.policy.getD "pinned") hstarted.seen.symm
    have hinterface : s.settings.nativeInterface = t.settings.nativeInterface :=
      congrArg (fun v : Sight => v.settings.nativeInterface) hstarted.seen.symm
    have hmarker : t.asked = marker := congrArg Sight.asked hstarted.seen
    rw [hpolicy, hinterface]
    refine (managed_end (congrArg Sight.proxied hstarted.seen)).mono (fun _ h => h)
      fun b u ⟨more, hmore, hend⟩ => ?_
    exact .inl ⟨t, marker, more, hstarted, hmarker ▸ hmore, hend⟩
  · exact spec_pure fun u hu => .inr ⟨rfl, hunmarked, hu ▸ hseen⟩

/-! ### What is restored -/

/-- Putting the policy back changes nothing if one was saved. -/
theorem settings_putBack (h : s.settings.policy ≠ none) :
    { s.settings with policy := some s.currentPolicy } = s.settings := by
  cases hpolicy : s.settings.policy with
  | none => exact absurd hpolicy h
  | some policy =>
    rw [State.currentPolicy, hpolicy, Option.getD_some, ← hpolicy]

/-- Everything that is read is as it was, the direct endpoints included. -/
theorem restored_of_same (settings : u.settings = s.settings)
    (proxied : u.hasRuntimeProxy = s.hasRuntimeProxy)
    (native : u.nativeEndpoints = s.nativeEndpoints) (paths : u.paths = s.paths)
    (surroundings : u.surroundings = s.surroundings)
    (routes : s.session.routes = some (s.routeChange false) →
      u.session.routes = some (s.routeChange false)) : Restored s u where
  policy := by rw [settings]
  nativeInterface := by rw [settings]
  proxy := proxied
  routes h := by
    rw [routeChange_congr settings proxied native paths surroundings]
    exact routes h
  native := .inl native

theorem MixedEnd.restores_iff {b : Bool}
    (h : MixedEnd s (s.stagedRoutes mode nativeInterface nativeEndpoints) b u) :
    (b = false → u.statusText ≠ retireMessage → Restored s u) ↔
      ¬ s.StaysMixed mode nativeInterface nativeEndpoints u.asked := by
  cases h with
  | done answered =>
    refine ⟨fun _ hstays => ?_, fun _ => nofun⟩
    rw [State.StaysMixed, answered] at hstays
    cases hstays.1
  | @refused _ query restored status hstatus seen =>
    have hasked : u.asked = [(.setNetworkRoutes, false), (query, restored)] := congrArg Sight.asked seen
    have hsettings := congrArg Sight.settings seen
    have hroutes : u.session.routes =
        if restored then some (u.routeChange false) else s.session.routes := congrArg Sight.routes seen
    constructor
    · rintro hrestores ⟨-, hnone | ⟨⟨_, hanswers⟩, -⟩⟩
      · have hpolicy := (hrestores rfl ((congrArg Sight.status seen).trans_ne hstatus)).policy
        rw [hnone, show u.settings.policy = some s.currentPolicy from congrArg Settings.policy hsettings]
          at hpolicy
        cases hpolicy
      · rw [hasked] at hanswers
        cases hanswers
    · intro hstays _ _
      have hpolicy : s.settings.policy ≠ none := fun hnone =>
        hstays ⟨by rw [hasked]; rfl, .inl hnone⟩
      have hsame : u.settings = s.settings := hsettings.trans (settings_putBack hpolicy)
      refine restored_of_same hsame (congrArg Sight.proxied seen) (congrArg Sight.native seen)
        (congrArg Sight.paths seen) (congrArg Sight.surroundings seen) fun hbefore => ?_
      have hchange : u.routeChange false = s.routeChange false := routeChange_congr hsame
        (congrArg Sight.proxied seen) (congrArg Sight.native seen) (congrArg Sight.paths seen)
        (congrArg Sight.surroundings seen) false
      rw [hroutes, hchange, hbefore, ite_self]
  | @unsaved _ query restored status hstatus seen =>
    have hasked : u.asked = [(.setNetworkRoutes, true), (.save, false), (query, restored)] :=
      congrArg Sight.asked seen
    have hsettings := congrArg Sight.settings seen
    have hroutes : u.session.routes = some (if restored then u.routeChange false
      else s.stagedRoutes mode nativeInterface nativeEndpoints) := congrArg Sight.routes seen
    have hchange : s.settings.policy ≠ none → u.routeChange false = s.routeChange false := fun hpolicy =>
      routeChange_congr (hsettings.trans (settings_putBack hpolicy)) (congrArg Sight.proxied seen)
        (congrArg Sight.native seen) (congrArg Sight.paths seen) (congrArg Sight.surroundings seen) false
    constructor
    · rintro hrestores ⟨-, hleft⟩
      have hrestored := hrestores rfl ((congrArg Sight.status seen).trans_ne hstatus)
      have hpolicy : s.settings.policy ≠ none := by
        rw [← hrestored.policy, show u.settings.policy = some s.currentPolicy from
          congrArg Settings.policy hsettings]
        exact Option.some_ne_none _
      obtain ⟨⟨query', hanswers⟩, hbefore, hdiffers⟩ := hleft.resolve_left hpolicy
      rw [hasked] at hanswers
      have hrefused : restored = false := by
        cases hanswers
        rfl
      have hafter := hrestored.routes hbefore
      rw [hroutes, hchange hpolicy, hrefused, if_neg Bool.false_ne_true] at hafter
      exact hdiffers (Option.some.inj hafter)
    · intro hstays _ _
      have hrefused : anyRefused u.asked = true := by
        rw [hasked]
        rfl
      have hpolicy : s.settings.policy ≠ none := fun hnone => hstays ⟨hrefused, .inl hnone⟩
      refine restored_of_same (hsettings.trans (settings_putBack hpolicy)) (congrArg Sight.proxied seen)
        (congrArg Sight.native seen) (congrArg Sight.paths seen) (congrArg Sight.surroundings seen)
        fun hbefore => ?_
      rw [hroutes]
      cases restored with
      | true => rw [if_pos rfl, hchange hpolicy]
      | false =>
        rw [if_neg Bool.false_ne_true]
        by_contra hdiffers
        exact hstays ⟨hrefused, .inr ⟨⟨query, hasked⟩, hbefore, fun h => hdiffers (congrArg some h)⟩⟩

/-- What is undone without `fail` is restored if a policy and the runtime proxy were there before. -/
theorem undone_restores_iff (hstarted : Started s t marker) (hlater : s.later u.asked = more ∧
      (s.hasRuntimeProxy || s.settings.runtimeRequired || u.asked.head? = some (.save, true)) = true)
    (hrefused : anyRefused more = true) (hcount : more.count (.setNetworkRoutes, false) ≤ 1)
    (hstatus : u.statusText ≠ retireMessage)
    (hsettings : u.settings = { t.settings with policy := some t.currentPolicy })
    (hproxied : u.hasRuntimeProxy = true) (hnative : u.nativeEndpoints = s.nativeEndpoints ∨
      (u.nativeEndpoints = [] ∧ (.setNetworkRoutes, false) ∈ u.asked))
    (hroutes : s.hasRuntimeProxy = true → u.settings = s.settings →
      s.session.routes = some (s.routeChange false) → u.session.routes = some (u.routeChange false))
    : (false = false → u.statusText ≠ retireMessage → Restored s u) ↔ ¬ s.StaysManaged u.asked := by
  constructor
  · rintro hrestores ⟨-, -, -, hnone | hunproxied⟩
    · have hpolicy := (hrestores rfl hstatus).policy
      rw [hnone, hsettings] at hpolicy
      cases hpolicy
    · have hproxy := (hrestores rfl hstatus).proxy
      rw [hproxied, hunproxied] at hproxy
      cases hproxy
  · intro hstays _ _
    rw [State.StaysManaged, hlater.1, not_and, not_and, not_and, not_or] at hstays
    obtain ⟨hpolicy, hthere⟩ := hstays hlater.2 hrefused hcount
    rw [Bool.not_eq_false] at hthere
    -- The settings have not changed since before the call.
    have hstart : t.settings = s.settings := by
      have hseen : t.settings = { s.settings with runtimeRequired := t.settings.runtimeRequired } :=
        congrArg Sight.settings hstarted.seen
      rw [hseen, hstarted.kept hthere]
    have hcurrent : t.currentPolicy = s.currentPolicy := by
      rw [State.currentPolicy, State.currentPolicy, hstart]
    have hsame : u.settings = s.settings := by
      rw [hsettings, hstart, hcurrent]
      exact settings_putBack hpolicy
    exact ⟨by rw [hsame], by rw [hsame], hproxied.trans hthere.symm, hroutes hthere hsame, hnative⟩

theorem ManagedEnd.restores_iff {b : Bool} (h : ManagedEnd t b u more)
    (hstarted : Started s t marker) (hasked : u.asked = marker ++ more) :
    (b = false → u.statusText ≠ retireMessage → Restored s u) ↔ ¬ s.StaysManaged u.asked := by
  have hlater : s.later u.asked = more ∧
      (s.hasRuntimeProxy || s.settings.runtimeRequired || u.asked.head? = some (.save, true)) = true := by
    rw [hasked, State.later]
    rcases hstarted.marked with ⟨rfl, hthere⟩ | ⟨rfl, hnew⟩
    · rw [hthere]
      exact ⟨rfl, rfl⟩
    · rw [hnew]
      exact ⟨rfl, rfl⟩
  have hproxied : t.hasRuntimeProxy = true := congrArg Sight.proxied hstarted.seen
  have hnative : t.nativeEndpoints = s.nativeEndpoints := congrArg Sight.native hstarted.seen
  have hpaths : t.paths = s.paths := congrArg Sight.paths hstarted.seen
  have hsurroundings : t.surroundings = s.surroundings := congrArg Sight.surroundings hstarted.seen
  have hroutes : t.session.routes = s.session.routes := congrArg Sight.routes hstarted.seen
  cases h with
  | done answered =>
    refine ⟨fun _ hstays => ?_, fun _ => nofun⟩
    have hrefused := hstays.2.1
    rw [hlater.1, answered] at hrefused
    cases hrefused
  | failed status refused =>
    refine ⟨fun _ hstays => ?_, fun _ _ hstatus => absurd status hstatus⟩
    have hcount := hstays.2.2.1
    rw [hlater.1] at hcount
    omega
  | unsaved seen =>
    have hstatus : u.statusText = "Unable to save the network policy." := congrArg Sight.status seen
    have hproxied' : u.hasRuntimeProxy = t.hasRuntimeProxy := congrArg Sight.proxied seen
    have hnative' : u.nativeEndpoints = t.nativeEndpoints := congrArg Sight.native seen
    have hroutes' : u.session.routes = t.session.routes := congrArg Sight.routes seen
    refine undone_restores_iff hstarted hlater rfl (Nat.zero_le 1) (hstatus.trans_ne (by decide))
      (congrArg Sight.settings seen) (hproxied'.trans hproxied) (.inl (hnative'.trans hnative))
      fun hthere hsame hbefore => ?_
    rw [hroutes', hroutes, hbefore]
    exact congrArg some (routeChange_congr hsame (hproxied'.trans (hproxied.trans hthere.symm))
      (hnative'.trans hnative) ((congrArg Sight.paths seen).trans hpaths)
      ((congrArg Sight.surroundings seen).trans hsurroundings) false).symm
  | retired refused seen =>
    have hstatus : u.statusText = "Unable to apply the network policy." := congrArg Sight.status seen
    have hproxied' : u.hasRuntimeProxy = t.hasRuntimeProxy := congrArg Sight.proxied seen
    have hmem : (.setNetworkRoutes, false) ∈ more :=
      count_pos_iff.mp (refused.symm ▸ Nat.zero_lt_one)
    refine undone_restores_iff hstarted hlater ?_ (Nat.le_of_eq refused) (hstatus.trans_ne (by decide))
      (congrArg Sight.settings seen) (hproxied'.trans hproxied) (.inr ⟨congrArg Sight.native seen, ?_⟩)
      fun _ _ _ => congrArg Sight.routes seen
    · exact any_eq_true.mpr ⟨_, hmem, rfl⟩
    · rw [hasked]
      exact mem_append_right _ hmem

/-- A policy that fails without `fail` leaves everything as it was, the direct endpoints excepted, exactly
if the answers are none of those after which something stays behind. -/
theorem applyPolicy_restores_iff (mode nativeInterface : String) (nativeEndpoints : List PeerRouteEndpoint)
    (hasked : s.asked = [])
    (hanswers : (applyPolicy mode nativeInterface nativeEndpoints s).2.asked = s.answers) :
    ((applyPolicy mode nativeInterface nativeEndpoints s).1 = false →
      (applyPolicy mode nativeInterface nativeEndpoints s).2.statusText ≠ retireMessage →
        Restored s (applyPolicy mode nativeInterface nativeEndpoints s).2) ↔
      ¬ s.LeavesBehind mode nativeInterface nativeEndpoints s.answers := by
  rw [← hanswers]
  refine (spec_get (P := (· = s)) (R := fun b u => (b = false → u.statusText ≠ retireMessage →
    Restored s u) ↔ ¬ s.LeavesBehind mode nativeInterface nativeEndpoints u.asked) fun t ht => ?_) s rfl
  subst ht
  refine spec_ite (fun hsame => ?_) fun _ => ?_
  · -- The policy is in force already.
    simp only [Bool.and_eq_true] at hsame
    refine spec_bind (Q := fun _ u => u.asked = []) ?_ fun _ => spec_pure fun u hu => ⟨fun _ => ?_, fun _ => nofun⟩
    · exact spec_when (fun _ => spec_modify fun _ h => h ▸ hasked) fun _ _ h => h ▸ hasked
    rw [hu, State.LeavesBehind, State.enters, hsame.1.2, Bool.not_true, Bool.and_false,
      if_neg Bool.false_ne_true, State.StaysManaged, State.later, hsame.1.2]
    rintro ⟨-, hrefused, -⟩
    cases hrefused
  have henters : (decide (mode = "mixed") && !t.hasRuntimeProxy) = t.enters mode := rfl
  rw [henters]
  cases hmixed : t.enters mode with
  | true =>
    refine (changeMixed_end hasked).mono (fun _ h => h) fun b u hu => ?_
    rw [State.LeavesBehind, hmixed, if_pos rfl]
    exact hu.restores_iff
  | false =>
    refine (changeManaged_end hasked).mono (fun _ h => h) fun b u hu => ?_
    rw [State.LeavesBehind, hmixed, if_neg Bool.false_ne_true]
    rcases hu with ⟨started, marker, more, hstarted, hasked', hend⟩ | ⟨rfl, hunmarked, hseen⟩
    · exact hend.restores_iff hstarted hasked'
    · -- The runtime proxy could not be saved.
      have hrestored : Restored t u := restored_of_same (congrArg Sight.settings hseen)
        (congrArg Sight.proxied hseen) (congrArg Sight.native hseen) (congrArg Sight.paths hseen)
        (congrArg Sight.surroundings hseen) fun hbefore => (congrArg Sight.routes hseen).trans hbefore
      refine ⟨fun _ hstays => ?_, fun _ _ _ => hrestored⟩
      have hmarked := hstays.1
      rw [hunmarked, show u.asked = [(.save, false)] from congrArg Sight.asked hseen] at hmarked
      cases hmarked

/-! ### A policy that is not saved -/

/-- A new process in which the first node is pinned, with or without a runtime proxy. -/
def pinnedState (managed : Bool) (answers : List (Query × Bool)) : State :=
  { fresh { newSettings with policy := some "pinned", runtimeRequired := managed } false
      (plainSurroundings []) with answers := answers }

theorem applyPolicy_restores_iff_managed :
    Restored (pinnedState true [(.save, false)])
      (applyPolicy "tunnels" "" [] (pinnedState true [(.save, false)])).2 := by
  refine (applyPolicy_restores_iff "tunnels" "" [] rfl (by decide)).mpr ?_ (by decide) (by decide)
  rintro ⟨-, -, -, hnone | hunproxied⟩
  · cases hnone
  · cases hunproxied

/-- The runtime proxy that was started for a policy stays when this policy is not saved. -/
theorem runtime_proxy_stays : ¬ ∀ (s : State) (mode nativeInterface : String)
    (nativeEndpoints : List PeerRouteEndpoint),
    (applyPolicy mode nativeInterface nativeEndpoints s).1 = false →
      (applyPolicy mode nativeInterface nativeEndpoints s).2.statusText ≠ retireMessage →
        Restored s (applyPolicy mode nativeInterface nativeEndpoints s).2 := by
  intro hclaim
  have hrestored := hclaim (pinnedState false [(.save, true), (.save, false)]) "tunnels" "" []
    (by decide) (by decide)
  have hproxy : true = false := hrestored.proxy
  cases hproxy

end Qbutt.Paths
