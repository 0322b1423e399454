import Mathlib.Tactic.Linarith
import Qbutt.Net.Selector

/-!
# Which routes the selector returns

`Installed.Sound` is what holds whenever the installed selector is called: once it has applied its
catalog there is a history for every route of it, and no cooldown lasts longer than the peer it is
recorded for is remembered.  The pinned choice and the loop over the catalog then never miss a
history, and only admit routes that are `Admissible` (`select_policy_safe`).
-/

namespace Qbutt.Net

variable {K η : Type} [Score K] {catalog : List Route}
  {peers : Table (PeerKey η) PeerHistory} {entry : Route}

/-! ### What the invariant says -/

def Covers (routes : Table RouteKey (RouteHistory K)) (catalog : List Route) : Prop :=
  ∀ entry ∈ catalog, (routes.lookup entry.key).isSome

/-- A failure is retried at most four minutes after its peer was touched. -/
def PeerHistory.Timely (peer : PeerHistory) : Prop :=
  ∀ key failure, peer.failures.lookup key = some failure →
    failure.count ≤ 4 ∧ failure.retryAfter ≤ peer.touched + minutes 4

def Timely [DecidableEq η] (peers : Table (PeerKey η) PeerHistory) (clock : Time) : Prop :=
  ∀ key peer, peers.lookup key = some peer → peer.touched ≤ clock ∧ peer.Timely

/-- What holds between two calls of the installed selector. -/
structure Installed.Sound [DecidableEq η] (s : Installed K η) : Prop where
  covers : s.selector.catalogApplied → Covers s.selector.history.routes s.selector.routes
  timely : Timely s.selector.history.peers s.clock

omit [Score K] in
theorem Covers.insert {routes : Table RouteKey (RouteHistory K)} (h : Covers routes catalog)
    (key : RouteKey) (history : RouteHistory K) : Covers (routes.insert key history) catalog := by
  intro entry hentry
  rw [Table.lookup_insert_eq]
  split_ifs
  · rfl
  · exact h entry hentry

theorem cooldown_le {count : ℕ} (h : count ≤ 4) : cooldown count ≤ minutes 4 := by
  have hpow : 2 ^ count ≤ 2 ^ 4 := Nat.pow_le_pow_right (by omega) h
  have hpow' : (2 : ℤ) ^ count ≤ 16 := by exact_mod_cast hpow
  unfold cooldown minutes seconds
  linarith

/-! ### Maintenance -/

section Maintenance

variable [DecidableEq η] {selector : Selector K η} {now : Time}

/-- What maintenance does to the peers: it forgets peers that were idle for long, and failures on
routes outside of the catalog. -/
structure Maintained (catalog : List Route) (now : Time)
    (peers peers' : Table (PeerKey η) PeerHistory) : Prop where
  old : ∀ key peer', peers'.lookup key = some peer' → ∃ peer, peers.lookup key = some peer ∧
    peer'.touched = peer.touched ∧
    ∀ route failure, peer'.failures.lookup route = some failure →
      peer.failures.lookup route = some failure
  kept : ∀ key peer, peers.lookup key = some peer → now - peer.touched ≤ historyTtl →
    ∃ peer', peers'.lookup key = some peer' ∧ ∀ entry ∈ catalog,
      peer'.failures.lookup entry.key = peer.failures.lookup entry.key

theorem Maintained.refl : Maintained catalog now peers peers :=
  ⟨fun _ peer h => ⟨peer, h, rfl, fun _ _ h => h⟩, fun _ peer h _ => ⟨peer, h, fun _ _ => rfl⟩⟩

theorem Maintained.timely {peers' : Table (PeerKey η) PeerHistory} {clock : Time}
    (h : Maintained catalog now peers peers') (hpeers : Timely peers clock) :
    Timely peers' clock := by
  intro key peer' hpeer'
  obtain ⟨peer, hpeer, htouched, hfailures⟩ := h.old key peer' hpeer'
  obtain ⟨hclock, htimely⟩ := hpeers key peer hpeer
  refine ⟨htouched ▸ hclock, fun route failure hfailure => ?_⟩
  rw [htouched]
  exact htimely route failure (hfailures route failure hfailure)

theorem covers_foldl_tryEmplace (catalog : List Route) (routes : Table RouteKey (RouteHistory K)) :
    (∀ key, (routes.lookup key).isSome →
      ((catalog.foldl (fun routes route => routes.tryEmplace route.key (.new now))
        routes).lookup key).isSome) ∧
    Covers (catalog.foldl (fun routes route => routes.tryEmplace route.key (.new now)) routes)
      catalog := by
  induction catalog generalizing routes with
  | nil => exact ⟨fun _ h => h, fun _ h => by cases h⟩
  | cons route catalog ih =>
    obtain ⟨hkeep, hcovers⟩ := ih (routes.tryEmplace route.key (.new now))
    have hgrow : ∀ key, key = route.key ∨ (routes.lookup key).isSome →
        ((routes.tryEmplace route.key (.new now)).lookup key).isSome := by
      intro key hkey
      rw [Table.lookup_tryEmplace]
      split_ifs with heq
      · rfl
      · exact hkey.resolve_left heq
    refine ⟨fun key hkey => hkeep key (hgrow key (.inr hkey)), fun entry hentry => ?_⟩
    rcases List.mem_cons.mp hentry with rfl | hentry
    · exact hkeep _ (hgrow _ (.inl rfl))
    · exact hcovers entry hentry

theorem applyCatalog_spec (now : Time)
    (h : selector.catalogApplied → Covers selector.history.routes selector.routes) :
    (selector.applyCatalog now).routes = selector.routes ∧
      (selector.applyCatalog now).mixed = selector.mixed ∧
      (selector.applyCatalog now).catalogApplied ∧
      Covers (selector.applyCatalog now).history.routes selector.routes ∧
      Maintained selector.routes now selector.history.peers
        (selector.applyCatalog now).history.peers := by
  unfold Selector.applyCatalog
  by_cases happlied : selector.catalogApplied
  · rw [if_pos happlied]
    exact ⟨rfl, rfl, happlied, h happlied, .refl⟩
  · rw [if_neg happlied]
    extract_lets kept routes peers
    have hcovers : Covers routes selector.routes := (covers_foldl_tryEmplace selector.routes kept).2
    refine ⟨rfl, rfl, rfl, hcovers, fun key peer' hpeer' => ?_, fun key peer hpeer _ => ?_⟩
    · obtain ⟨peer, hpeer, rfl⟩ :=
        Option.map_eq_some_iff.mp ((Table.lookup_mapValues ..).symm.trans hpeer')
      refine ⟨peer, hpeer, rfl, fun route failure hfailure => ?_⟩
      rw [Table.lookup_eraseIf] at hfailure
      exact (Option.filter_eq_some_iff.mp hfailure).1
    · refine ⟨_, (Table.lookup_mapValues ..).trans (congrArg _ hpeer), fun entry hentry => ?_⟩
      rw [Table.lookup_eraseIf, hcovers entry hentry]
      cases peer.failures.lookup entry.key <;> rfl

theorem maintain_spec (now : Time)
    (h : selector.catalogApplied → Covers selector.history.routes selector.routes) :
    (selector.maintain now).routes = selector.routes ∧
      (selector.maintain now).mixed = selector.mixed ∧
      (selector.maintain now).catalogApplied ∧
      Covers (selector.maintain now).history.routes selector.routes ∧
      Maintained selector.routes now selector.history.peers
        (selector.maintain now).history.peers := by
  obtain ⟨hroutes, hmixed, happlied, hcovers, hpeers⟩ := applyCatalog_spec now h
  unfold Selector.maintain
  extract_lets applied history
  by_cases hnow : now < history.nextMaintenance
  · rw [if_pos hnow]
    exact ⟨hroutes, hmixed, happlied, hcovers, hpeers⟩
  · rw [if_neg hnow]
    refine ⟨hroutes, hmixed, happlied, hcovers, fun key peer' hpeer' => ?_,
      fun key peer hpeer hidle => ?_⟩
    · rw [Table.lookup_eraseIf] at hpeer'
      exact hpeers.old key peer' (Option.filter_eq_some_iff.mp hpeer').1
    · obtain ⟨peer', hpeer', hkept⟩ := hpeers.kept key peer hpeer hidle
      obtain ⟨peer'', hpeer'', htouched, -⟩ := hpeers.old key peer' hpeer'
      cases hpeer.symm.trans hpeer''
      refine ⟨peer', ?_, hkept⟩
      rw [Table.lookup_eraseIf, hpeer']
      simpa [htouched] using hidle

end Maintenance

/-! ### The loop over the catalog -/

section Loop

variable {catalog : List Route} {request : Request η} {failures : Table RouteKey Failure}
  {now : Time} {candidates : Selector.Candidates K}

def Admissible (catalog : List Route) (request : Request η) (failures : Table RouteKey Failure)
    (now : Time) (entry : Route) : Prop :=
  entry ∈ catalog ∧ eligible request entry ∧
    ∀ failure, failures.lookup entry.key = some failure → failure.retryAfter ≤ now

/-- What the loop has found so far: whenever there is a best route there is a least tried one, and
both are admissible. -/
structure Selector.Candidates.Good (catalog : List Route) (admissible : Route → Prop)
    (candidates : Selector.Candidates K) : Prop where
  covers : Covers candidates.routes catalog
  selected : ∀ entry score count, candidates.selected = some (entry, score, count) →
    admissible entry
  least : ∀ entry, candidates.leastTried = some entry → admissible entry
  both : candidates.selected.isSome → candidates.leastTried.isSome

theorem admit_good {admissible : Route → Prop} (hmem : ∀ entry, admissible entry → entry ∈ catalog)
    (h : candidates.Good catalog admissible) (hentry : admissible entry) (count : ℕ) :
    ∃ candidates', Selector.admitRoute now count candidates entry = some candidates' ∧
      candidates'.Good catalog admissible := by
  obtain ⟨history, hhistory⟩ := Option.isSome_iff_exists.mp (h.covers entry (hmem entry hentry))
  have hcovers := h.covers.insert entry.key (history.decay now)
  have hselected : ∀ entry' score' count', (if Selector.better candidates.selected
      (history.decay now).score count then some (entry, (history.decay now).score, count)
      else candidates.selected) = some (entry', score', count') → admissible entry' := by
    intro entry' score' count' heq
    split_ifs at heq
    · cases heq
      exact hentry
    · exact h.selected entry' score' count' heq
  unfold Selector.admitRoute
  rw [hhistory]
  dsimp only
  cases hleast : candidates.leastTried with
  | none =>
    exact ⟨_, rfl, hcovers, hselected, fun entry' heq => Option.some.inj heq ▸ hentry,
      fun _ => rfl⟩
  | some least =>
    have hadmissible := h.least least hleast
    obtain ⟨history', hhistory'⟩ :=
      Option.isSome_iff_exists.mp (hcovers least (hmem least hadmissible))
    dsimp only
    rw [hhistory']
    refine ⟨_, rfl, hcovers, hselected, fun entry' heq => ?_, fun _ => ?_⟩
    · dsimp only at heq
      split_ifs at heq
      · exact Option.some.inj heq ▸ hentry
      · exact Option.some.inj heq ▸ hadmissible
    · dsimp only
      split_ifs <;> rfl

theorem consider_good (h : candidates.Good catalog (Admissible catalog request failures now))
    (hentry : entry ∈ catalog) :
    ∃ candidates', Selector.consider request failures now candidates entry = some candidates' ∧
      candidates'.Good catalog (Admissible catalog request failures now) := by
  unfold Selector.consider
  by_cases heligible : eligible request entry
  · simp only [heligible, Bool.not_true, Bool.false_eq_true, if_false]
    cases hfailure : failures.lookup entry.key with
    | none =>
      refine admit_good (fun _ h => h.1) h ⟨hentry, heligible, fun failure heq => ?_⟩ 0
      rw [hfailure] at heq
      cases heq
    | some failure =>
      dsimp only
      by_cases hretry : failure.retryAfter > now
      · rw [if_pos hretry]
        exact ⟨candidates, rfl, h⟩
      · rw [if_neg hretry]
        refine admit_good (fun _ h => h.1) h ⟨hentry, heligible, fun failure' heq => ?_⟩ _
        cases hfailure.symm.trans heq
        exact not_lt.mp hretry
  · rw [Bool.eq_false_iff.mpr heligible]
    exact ⟨candidates, rfl, h⟩

/-- The loop over a part of the catalog. -/
theorem foldlM_consider_good (candidates : Selector.Candidates K) (request : Request η)
    (failures : Table RouteKey Failure) (now : Time) (entries : List Route)
    (hentries : entries ⊆ catalog)
    (h : candidates.Good catalog (Admissible catalog request failures now)) :
    ∃ candidates', entries.foldlM (Selector.consider request failures now) candidates =
      some candidates' ∧ candidates'.Good catalog (Admissible catalog request failures now) := by
  induction entries generalizing candidates with
  | nil => exact ⟨candidates, rfl, h⟩
  | cons entry entries ih =>
    obtain ⟨hentry, hentries⟩ := List.cons_subset.mp hentries
    obtain ⟨candidates', hconsider, h'⟩ := consider_good h hentry
    obtain ⟨candidates'', hfold, h''⟩ := ih _ hentries h'
    refine ⟨candidates'', ?_, h''⟩
    rw [List.foldlM_cons, hconsider]
    exact hfold

end Loop

/-! ### The choice of a route -/

/-- A route over which a connection to the peer may go: native or through a proxy, and for the
address family of the peer. -/
structure Supports (request : Request η) (entry : Route) : Prop where
  type : entry.binding.type = .native ∨ entry.binding.type = .socks5
  ipv4 : request.peer.isV4 → entry.supportsIPv4
  ipv6 : request.peer.isV4 = false → entry.supportsIPv6
  native : entry.binding.type = .native →
    entry.binding.localEndpoint.isV4 = request.peer.isV4

omit [Score K] in
theorem supports_of_eligible {request : Request η} (h : eligible request entry) :
    Supports request entry := by
  unfold eligible at h
  simp only [Bool.and_eq_true, Bool.or_eq_true, decide_eq_true_eq, beq_iff_eq] at h
  obtain ⟨⟨htype, hfamily⟩, hnative⟩ := h
  refine ⟨htype.symm, fun hv4 => ?_, fun hv6 => ?_, fun h => ?_⟩
  · rwa [hv4, if_pos rfl] at hfamily
  · rwa [hv6, if_neg Bool.false_ne_true] at hfamily
  · exact hnative.resolve_left fun hne => hne h

namespace Selector

section Choice

variable [DecidableEq η] {selector : Selector K η} {request : Request η} {now later clock : Time}

/-- What a returned binding has to satisfy, by the history before the call. -/
structure PolicySafe (selector : Selector K η) (request : Request η) (now : Time)
    (binding : PeerRoute) : Prop where
  own : binding.type = .blocked ∨
    ∃ entry ∈ selector.routes, entry.binding = binding ∧ Supports request entry
  pinned : selector.mixed = false ∨ request.privateTorrent ∨ request.hasMetadata = false →
    binding.type ≠ .blocked →
      ∃ first, selector.routes.head? = some first ∧ binding.context = first.binding.context
  cooldown : selector.mixed → request.privateTorrent = false → request.hasMetadata →
    binding.type ≠ .blocked → ∀ peer failure,
      selector.history.peers.lookup (request.infoHashes, request.peer) = some peer →
      peer.failures.lookup binding.context.key = some failure → failure.retryAfter ≤ now

omit [Score K] in
theorem policySafe_blocked : selector.PolicySafe request now blocked :=
  ⟨.inl rfl, fun _ h => absurd rfl h, fun _ _ _ h => absurd rfl h⟩

omit [DecidableEq η] in
theorem selectPinned_spec (request : Request η) (first : Route) (now later : Time)
    (hcovers : Covers selector.history.routes selector.routes) :
    ∃ binding selector', selector.selectPinned request first now later =
        some (binding, selector') ∧
      (binding = blocked ∨ ∃ entry ∈ selector.routes, entry.binding = binding ∧
        Supports request entry ∧ binding.context = first.binding.context) ∧
      selector'.routes = selector.routes ∧
      Covers selector'.history.routes selector.routes ∧
      selector'.catalogApplied = selector.catalogApplied ∧
      selector'.history.peers = selector.history.peers := by
  unfold selectPinned
  cases hfind : selector.routes.find? fun entry =>
      entry.binding.context = first.binding.context && eligible request entry with
  | none => exact ⟨_, _, rfl, .inl rfl, rfl, hcovers, rfl, rfl⟩
  | some entry =>
    have hentry := List.mem_of_find?_eq_some hfind
    have hchosen := List.find?_some hfind
    simp only [Bool.and_eq_true, decide_eq_true_eq] at hchosen
    obtain ⟨history, hhistory⟩ := Option.isSome_iff_exists.mp (hcovers entry hentry)
    dsimp only
    rw [hhistory]
    exact ⟨_, _, rfl, .inr ⟨entry, hentry, rfl, supports_of_eligible hchosen.2, hchosen.1⟩, rfl,
      hcovers.insert _ _, rfl, rfl⟩

end Choice

section Mixed

variable [LinearOrder η] {selector : Selector K η} {request : Request η} {now later clock : Time}

omit [Score K] in
theorem touchPeer_spec (peers : Table (PeerKey η) PeerHistory) (key : PeerKey η) (now : Time) :
    (touchPeer peers key now).1.touched = now ∧
      (∀ route failure, (touchPeer peers key now).1.failures.lookup route = some failure ↔
        ∃ peer, peers.lookup key = some peer ∧ peer.failures.lookup route = some failure) ∧
      ∀ key' peer, (touchPeer peers key now).2.lookup key' = some peer →
        peer = (touchPeer peers key now).1 ∨ peers.lookup key' = some peer := by
  unfold touchPeer
  cases hpeer : peers.lookup key with
  | some peer =>
    refine ⟨rfl, fun route failure => ⟨fun h => ⟨peer, rfl, h⟩, ?_⟩, fun key' peer' hpeer' => ?_⟩
    · rintro ⟨peer', heq, h⟩
      cases heq
      exact h
    · dsimp only at hpeer' ⊢
      rw [Table.lookup_insert_eq] at hpeer'
      split_ifs at hpeer'
      · exact .inl (Option.some.inj hpeer').symm
      · exact .inr hpeer'
  | none =>
    dsimp only
    refine ⟨rfl, fun route failure => ⟨fun h => (by cases h), fun h => ?_⟩,
      fun key' peer' hpeer' => ?_⟩
    · obtain ⟨_, heq, -⟩ := h
      cases heq
    · rw [Table.lookup_insert_eq] at hpeer'
      split_ifs at hpeer' with heq hfull
      · exact .inl (Option.some.inj hpeer').symm
      · right
        cases holdest : peers.argmin fun key peer => toLex (peer.touched, toLex key) with
        | none =>
          rw [holdest] at hpeer'
          exact hpeer'
        | some oldest =>
          rw [holdest] at hpeer'
          dsimp only at hpeer'
          rw [Table.lookup_erase_eq] at hpeer'
          split_ifs at hpeer'
          exact hpeer'
      · exact .inr hpeer'

omit [Score K] in
theorem timely_touchPeer {key : PeerKey η} (h : Timely peers clock) (hnow : clock ≤ now) :
    Timely (touchPeer peers key now).2 now := by
  obtain ⟨htouched, hfailures, hpeers⟩ := touchPeer_spec peers key now
  intro key' peer hpeer
  rcases hpeers key' peer hpeer with rfl | hpeer
  · refine ⟨htouched.le, fun route failure hfailure => ?_⟩
    obtain ⟨peer, hpeer, hfailure⟩ := (hfailures route failure).mp hfailure
    obtain ⟨hclock, htimely⟩ := h key peer hpeer
    obtain ⟨hcount, hretry⟩ := htimely route failure hfailure
    exact ⟨hcount, by rw [htouched]; linarith⟩
  · obtain ⟨hclock, htimely⟩ := h key' peer hpeer
    exact ⟨hclock.trans hnow, htimely⟩

theorem selectMixed_spec (request : Request η) (now later : Time)
    (hcovers : Covers selector.history.routes selector.routes) :
    ∃ binding selector', selector.selectMixed request now later = some (binding, selector') ∧
      (binding = blocked ∨ ∃ entry ∈ selector.routes, entry.binding = binding ∧
        Supports request entry ∧ ∀ peer failure,
          selector.history.peers.lookup (request.infoHashes, request.peer) = some peer →
          peer.failures.lookup binding.context.key = some failure → failure.retryAfter ≤ now) ∧
      selector'.routes = selector.routes ∧
      Covers selector'.history.routes selector.routes ∧
      selector'.catalogApplied = selector.catalogApplied ∧
      selector'.history.peers =
        (touchPeer selector.history.peers (request.infoHashes, request.peer) now).2 := by
  obtain ⟨-, hfailures, -⟩ := touchPeer_spec selector.history.peers
    (request.infoHashes, request.peer) now
  unfold selectMixed
  generalize touchPeer selector.history.peers (request.infoHashes, request.peer) now = touched
    at hfailures ⊢
  obtain ⟨peer, peers⟩ := touched
  dsimp only at hfailures ⊢
  obtain ⟨⟨routes, selected, leastTried⟩, hfold, hgood⟩ :=
    foldlM_consider_good ⟨selector.history.routes, none, none⟩ request peer.failures now
      selector.routes (fun _ h => h)
      ⟨hcovers, fun _ _ _ h => (by cases h), fun _ h => (by cases h), fun h => (by cases h)⟩
  obtain ⟨hroutes, hselected, hleast, hboth⟩ := hgood
  rw [hfold]
  dsimp only at hroutes hselected hleast hboth ⊢
  cases selected with
  | none => exact ⟨_, _, rfl, .inl rfl, rfl, hroutes, rfl, rfl⟩
  | some best =>
    obtain ⟨best, score, count⟩ := best
    cases leastTried with
    | none => cases hboth rfl
    | some least =>
      have hadmissible := hleast least rfl
      obtain ⟨history, hhistory⟩ := Option.isSome_iff_exists.mp (hroutes least hadmissible.1)
      dsimp only
      rw [hhistory]
      dsimp only
      generalize hentry : (if (Score.isZero history.recentAssignments ||
        (selector.history.attempts + 1) % 10 == 0) = true then least else best) = entry
      -- both the best and the least tried route are admissible
      obtain ⟨hmem, heligible, hretry⟩ :
          Admissible selector.routes request peer.failures now entry := by
        rw [← hentry]
        split_ifs
        · exact hadmissible
        · exact hselected best score count rfl
      obtain ⟨history', hhistory'⟩ := Option.isSome_iff_exists.mp (hroutes entry hmem)
      rw [hhistory']
      refine ⟨_, _, rfl, .inr ⟨entry, hmem, rfl, supports_of_eligible heligible,
        fun peer' failure hpeer' hfailure => ?_⟩, rfl, hroutes.insert _ _, rfl, rfl⟩
      exact hretry failure ((hfailures _ _).mpr ⟨peer', hpeer', hfailure⟩)

omit [LinearOrder η] [Score K] in
theorem isPinned_iff : selector.isPinned request ↔
    selector.mixed = false ∨ request.privateTorrent ∨ request.hasMetadata = false := by
  simp [isPinned, or_assoc]

/-- A cooldown that outlasts the memory of its peer has expired. -/
theorem retry_le_of_idle (h : Timely peers clock) {key : PeerKey η} {peer : PeerHistory}
    (hpeer : peers.lookup key = some peer) (hidle : ¬ now - peer.touched ≤ historyTtl)
    {route : RouteKey} {failure : Failure} (hfailure : peer.failures.lookup route = some failure) :
    failure.retryAfter ≤ now := by
  obtain ⟨-, hretry⟩ := (h key peer hpeer).2 route failure hfailure
  have hlong : minutes 4 ≤ historyTtl := by decide
  linarith [not_le.mp hidle]

theorem select_spec {s : Installed K η} (request : Request η) (later : Time) (h : s.Sound) (hnow : s.clock ≤ now) :
    ∃ binding selector', s.selector.select request now later = some (binding, selector') ∧
      s.selector.PolicySafe request now binding ∧
      selector'.routes = s.selector.routes ∧
      Covers selector'.history.routes s.selector.routes ∧
      Timely selector'.history.peers now := by
  obtain ⟨hroutes, hmixed, happlied, hcovers, hpeers⟩ := maintain_spec now h.covers
  have htimely : Timely (s.selector.maintain now).history.peers now := by
    intro key peer hpeer
    obtain ⟨hclock, hpeer⟩ := hpeers.timely h.timely key peer hpeer
    exact ⟨hclock.trans hnow, hpeer⟩
  have hpinned : (s.selector.maintain now).isPinned request ↔ s.selector.isPinned request := by
    rw [isPinned_iff, isPinned_iff, hmixed]
  rw [← hroutes] at hcovers
  unfold select
  dsimp only
  cases hcatalog : (s.selector.maintain now).routes with
  | nil =>
    refine ⟨blocked, _, rfl, policySafe_blocked, hroutes, ?_, htimely⟩
    rw [← hroutes]
    exact hcovers
  | cons first rest =>
    dsimp only
    by_cases hpin : (s.selector.maintain now).isPinned request
    · rw [if_pos hpin]
      obtain ⟨binding, selector', hselect, hbinding, hroutes', hcovers', -, hpeers'⟩ :=
        selectPinned_spec request first now later
          hcovers
      refine ⟨binding, selector', hselect, ?_, hroutes'.trans hroutes, hroutes ▸ hcovers',
        hpeers' ▸ htimely⟩
      rcases hbinding with rfl | ⟨entry, hmem, rfl, hsupports, hcontext⟩
      · exact policySafe_blocked
      · refine ⟨.inr ⟨entry, hroutes ▸ hmem, rfl, hsupports⟩, fun _ _ => ⟨first, ?_, hcontext⟩,
          fun hmixed hpublic hmetadata => ?_⟩
        · rw [← hroutes, hcatalog, List.head?_cons]
        · have hnot := isPinned_iff.mp (hpinned.mp hpin)
          simp [hmixed, hpublic, hmetadata] at hnot
    · rw [if_neg hpin]
      obtain ⟨binding, selector', hselect, hbinding, hroutes', hcovers', -, hpeers'⟩ :=
        selectMixed_spec request now later hcovers
      refine ⟨binding, selector', hselect, ?_, hroutes'.trans hroutes, hroutes ▸ hcovers',
        hpeers' ▸ timely_touchPeer htimely le_rfl⟩
      rcases hbinding with rfl | ⟨entry, hmem, rfl, hsupports, hretry⟩
      · exact policySafe_blocked
      · refine ⟨.inr ⟨entry, hroutes ▸ hmem, rfl, hsupports⟩,
          fun hpin' => absurd (hpinned.mpr (isPinned_iff.mpr hpin')) hpin,
          fun _ _ _ _ peer failure hpeer hfailure => ?_⟩
        by_cases hidle : now - peer.touched ≤ historyTtl
        · obtain ⟨peer', hpeer', hkept⟩ := hpeers.kept _ peer hpeer hidle
          exact hretry peer' failure hpeer' ((hkept entry (hroutes ▸ hmem)).trans hfailure)
        · exact retry_le_of_idle h.timely hpeer hidle hfailure

end Mixed

/-! ### Observations -/

section Observe

variable [DecidableEq η] {selector : Selector K η} {observation : Observation η}
  {now later clock : Time}

theorem fail_timely {peer : PeerHistory} {key : RouteKey} (htouched : peer.touched ≤ now)
    (htimely : peer.Timely) : (peer.fail key now).Timely := by
  intro key' failure hfailure
  have hfailure := (Table.lookup_insert_eq ..).symm.trans hfailure
  change failure.count ≤ 4 ∧ failure.retryAfter ≤ now + minutes 4
  split_ifs at hfailure
  · cases hfailure
    exact ⟨min_le_left _ _, by linarith [cooldown_le (min_le_left 4
      (((peer.failures.lookup key).getD {}).count + 1))]⟩
  · obtain ⟨hcount, hretry⟩ := htimely key' failure hfailure
    exact ⟨hcount, by linarith⟩

omit [DecidableEq η] in
theorem learn_timely (observation : Observation η) (history : RouteHistory K) {peer : Option PeerHistory}
    (h : ∀ p, peer = some p → p.touched ≤ now ∧ p.Timely) :
    ∀ p, (learn observation now history peer).2 = some p → p.touched ≤ now ∧ p.Timely := by
  intro p' hp'
  unfold learn at hp'
  dsimp only at hp'
  by_cases hproductive : isProductive observation
  · rw [if_pos hproductive] at hp'
    obtain ⟨p, hp, rfl⟩ := Option.map_eq_some_iff.mp hp'
    obtain ⟨htouched, htimely⟩ := h p hp
    refine ⟨htouched, fun key failure hfailure => ?_⟩
    rw [Table.lookup_erase_eq] at hfailure
    split_ifs at hfailure
    exact htimely key failure hfailure
  rw [if_neg hproductive] at hp'
  by_cases hclosed : observation.event = .closed ∧ penalizesPeer observation
  · rw [if_pos hclosed] at hp'
    obtain ⟨p, hp, rfl⟩ := Option.map_eq_some_iff.mp hp'
    obtain ⟨htouched, htimely⟩ := h p hp
    exact ⟨le_rfl, fail_timely htouched htimely⟩
  · rw [if_neg hclosed] at hp'
    exact h p' hp'

theorem observe_sound {s : Installed K η} (h : s.Sound) (hnow : s.clock ≤ now) (hlater : now ≤ later) :
    Installed.Sound ⟨s.selector.observe observation now later, later⟩ := by
  obtain ⟨hroutes, -, -, hcovers, hpeers⟩ := maintain_spec now h.covers
  have htimely : Timely (s.selector.maintain now).history.peers now := by
    intro key peer hpeer
    obtain ⟨hclock, hpeer⟩ := hpeers.timely h.timely key peer hpeer
    exact ⟨hclock.trans hnow, hpeer⟩
  have hlate : ∀ {peers : Table (PeerKey η) PeerHistory}, Timely peers now → Timely peers later :=
    fun h key peer hpeer => ⟨(h key peer hpeer).1.trans hlater, (h key peer hpeer).2⟩
  rw [← hroutes] at hcovers
  unfold observe
  dsimp only
  cases hroute : (s.selector.maintain now).history.routes.lookup observation.route.key with
  | none => exact ⟨fun _ => hcovers, hlate htimely⟩
  | some history =>
    have hlearn := learn_timely observation history
      (htimely (observation.infoHashes, observation.peer))
    refine ⟨fun _ => hcovers.insert _ _, hlate fun key peer hpeer => ?_⟩
    dsimp only at hpeer
    split at hpeer
    · rename_i peer' hpeer'
      rw [Table.lookup_insert_eq] at hpeer
      split_ifs at hpeer
      · cases hpeer
        exact hlearn _ hpeer'
      · exact htimely key peer hpeer
    · exact htimely key peer hpeer

end Observe

end Selector

/-! ### Runs -/

section Runs

variable [LinearOrder η] {s s' : Installed K η} {a : Act η} {now later : Time}

theorem step_sound (h : s.Sound) (ha : Monotone s a) (hs : step s a = some s') : s'.Sound := by
  cases a with
  | install routes mixed diagnostics inherit now =>
    cases hs
    refine ⟨fun happlied => (by cases happlied), ?_⟩
    cases inherit with
    | false => exact fun key peer hpeer => by cases hpeer
    | true => exact fun key peer hpeer =>
        ⟨(h.timely key peer hpeer).1.trans ha, (h.timely key peer hpeer).2⟩
  | retire now =>
    cases hs
    exact ⟨h.covers, fun key peer hpeer =>
      ⟨(h.timely key peer hpeer).1.trans ha, (h.timely key peer hpeer).2⟩⟩
  | select request now later =>
    obtain ⟨binding, selector', hselect, -, hroutes, hcovers, htimely⟩ :=
      Selector.select_spec request later h ha.1
    simp only [step, hselect, Option.map_some, Option.some.injEq] at hs
    obtain rfl := hs
    exact ⟨fun _ => hroutes ▸ hcovers, fun key peer hpeer =>
      ⟨(htimely key peer hpeer).1.trans ha.2, (htimely key peer hpeer).2⟩⟩
  | observe observation now later =>
    cases hs
    exact Selector.observe_sound h ha.1 ha.2

theorem sound_of_reachable (h : selectorSystem.Reachable Monotone s) : s.Sound := by
  refine h.invariant ?_ fun s a s' hs ha hstep => step_sound hs ha hstep
  rintro _ ⟨routes, mixed, now, rfl⟩
  exact ⟨fun happlied => (by cases happlied), fun key peer hpeer => by cases hpeer⟩

/-- Along every chain of selectors and every run of calls at times that do not decrease, a selection
returns, and what it returns satisfies the policy. -/
theorem select_policy_safe (h : selectorSystem.Reachable Monotone s) (hnow : s.clock ≤ now)
    (request : Request η) :
    ∃ binding selector', s.selector.select request now later = some (binding, selector') ∧
      s.selector.PolicySafe request now binding := by
  obtain ⟨binding, selector', hselect, hsafe, -⟩ :=
    Selector.select_spec request later (sound_of_reachable h) hnow
  exact ⟨binding, selector', hselect, hsafe⟩

end Runs

/-- Rational scores; the decay is the exponential one at the time zero. -/
instance : Score ℚ where
  less x y := decide (x < y)
  isZero x := decide (x = 0)
  decayFactor t := 1 / (1 + t / seconds 120)

/-- A catalog of a native and a proxy route, both for IPv4. -/
def sampleRoutes : List Route :=
  [⟨⟨.native, ⟨1, 1⟩, ⟨false, 0x0a000001, 0, 0⟩⟩, true, false⟩,
    ⟨⟨.socks5, ⟨2, 1⟩, ⟨false, 0, 0, 0⟩⟩, true, true⟩]

/-- A public torrent whose peer has an IPv4 address. -/
def sampleRequest : Request ℕ where
  infoHashes := 0
  peer := ⟨false, 0x01020304, 0, 6881⟩
  privateTorrent := false
  hasMetadata := true

/-- The theorem at a first selection in mixed mode. -/
theorem select_policy_safe_sample : ∃ binding selector',
    (Selector.new (K := ℚ) sampleRoutes true none none 0).select sampleRequest 0 0 =
        some (binding, selector') ∧
      (Selector.new (K := ℚ) sampleRoutes true none none 0).PolicySafe sampleRequest 0 binding :=
  select_policy_safe (s := ⟨.new sampleRoutes true none none 0, 0⟩)
    (.start ⟨sampleRoutes, true, 0, rfl⟩) le_rfl sampleRequest

end Qbutt.Net
