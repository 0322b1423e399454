import Qbutt.Net.Equiv.Diagnostics
import Qbutt.Net.Equiv.Selector

/-!
# The memory of the selector

Along every run of all operations at times that do not decrease, what is remembered about peers and
what the diagnostics retain stays bounded (`selector_memory_bounded`).  The invariant has a part for
the history of the selector (`Selector.Remembers`) and one for its diagnostics
(`DiagnosticHistory.Kept`).
-/

namespace Qbutt.Net

open Option

variable {K η : Type} [Score K]

def Names (catalog : List Route) (key : RouteKey) : Prop := ∃ entry ∈ catalog, entry.key = key

/-- What holds of a failure: how often it was counted, and that its cooldown began when the peer was
touched or before. -/
structure Failure.Fair (failure : Failure) (touched : Time) : Prop where
  counted : 1 ≤ failure.count
  few : failure.count ≤ 4
  began : ∃ start ≤ touched, failure.retryAfter = start + cooldown failure.count

theorem cooldown_bounds {count : ℕ} (hpos : 1 ≤ count) (hfew : count ≤ 4) :
    seconds 30 ≤ cooldown count ∧ cooldown count ≤ seconds 240 := by
  have hlow : 2 ^ 1 ≤ 2 ^ count := Nat.pow_le_pow_right (by omega) hpos
  have hhigh : 2 ^ count ≤ 2 ^ 4 := Nat.pow_le_pow_right (by omega) hfew
  have hlow' : (2 : ℤ) ≤ 2 ^ count := by exact_mod_cast hlow
  have hhigh' : (2 : ℤ) ^ count ≤ 16 := by exact_mod_cast hhigh
  unfold cooldown seconds
  constructor
  · linarith
  · linarith

/-! ### The history of the selector -/

variable {routes : Table RouteKey (RouteHistory K)}

section History

variable [DecidableEq η] {selector : Selector K η} {now clock : Time}

structure Selector.Remembers (selector : Selector K η) : Prop where
  few : selector.history.peers.size ≤ maxPeerHistory
  routes : selector.catalogApplied → ∀ key, (selector.history.routes.lookup key).isSome →
    Names selector.routes key
  named : selector.catalogApplied → ∀ key peer, selector.history.peers.lookup key = some peer →
    ∀ route, (peer.failures.lookup route).isSome → Names selector.routes route
  fair : ∀ key peer, selector.history.peers.lookup key = some peer → ∀ route failure,
    peer.failures.lookup route = some failure → failure.Fair peer.touched

omit [DecidableEq η] in
theorem foldl_tryEmplace_names {catalog entered : List Route}
    (hentered : ∀ e ∈ entered, e ∈ catalog)
    (h : ∀ key, (routes.lookup key).isSome → Names catalog key) :
    ∀ key, ((entered.foldl (fun routes route => routes.tryEmplace route.key (.new now))
      routes).lookup key).isSome → Names catalog key := by
  induction entered generalizing routes with
  | nil => exact h
  | cons entry entered ih =>
    refine ih (fun e he => hentered e (List.mem_cons_of_mem entry he)) fun key hkey => ?_
    rw [Table.lookup_tryEmplace] at hkey
    split_ifs at hkey with heq
    · exact ⟨entry, hentered entry List.mem_cons_self, heq.symm⟩
    · exact h key hkey

theorem Selector.Remembers.applyCatalog (h : selector.Remembers) (now : Time) :
    (selector.applyCatalog now).Remembers ∧ (selector.applyCatalog now).catalogApplied := by
  unfold Selector.applyCatalog
  by_cases happlied : selector.catalogApplied
  · rw [if_pos happlied]
    exact ⟨h, happlied⟩
  · rw [if_neg happlied]
    extract_lets kept routes peers
    have hroutes : ∀ key, (routes.lookup key).isSome → Names selector.routes key := by
      refine foldl_tryEmplace_names (fun e he => he) fun key hkey => ?_
      obtain ⟨history, hhistory⟩ := isSome_iff_exists.mp hkey
      rw [Table.lookup_eraseIf, filter_eq_some_iff] at hhistory
      have hkept := hhistory.2
      rw [Bool.not_eq_true', List.all_eq_false] at hkept
      obtain ⟨entry, hentry, hkey⟩ := hkept
      refine ⟨entry, hentry, ?_⟩
      by_contra hne
      exact hkey (decide_eq_true (Ne.symm hne))
    refine ⟨⟨?_, fun _ => hroutes, fun _ key peer' hpeer' route hroute => ?_,
      fun key peer' hpeer' route failure hfailure => ?_⟩, rfl⟩
    · show peers.size ≤ maxPeerHistory
      rw [Table.size_mapValues]
      exact h.few
    · obtain ⟨peer, hpeer, rfl⟩ :=
        map_eq_some_iff.mp ((Table.lookup_mapValues ..).symm.trans hpeer')
      obtain ⟨failure, hfailure⟩ := isSome_iff_exists.mp hroute
      rw [Table.lookup_eraseIf, filter_eq_some_iff] at hfailure
      exact hroutes route (by simpa using hfailure.2)
    · obtain ⟨peer, hpeer, rfl⟩ :=
        map_eq_some_iff.mp ((Table.lookup_mapValues ..).symm.trans hpeer')
      rw [Table.lookup_eraseIf, filter_eq_some_iff] at hfailure
      exact h.fair key peer hpeer route failure hfailure.1

theorem Selector.Remembers.maintain (h : selector.Remembers) (now : Time) :
    (selector.maintain now).Remembers ∧ (selector.maintain now).catalogApplied := by
  obtain ⟨⟨hfew, hroutes, hnamed, hfair⟩, happlied⟩ := h.applyCatalog now
  unfold Selector.maintain
  extract_lets applied history
  split_ifs
  · exact ⟨⟨hfew, hroutes, hnamed, hfair⟩, happlied⟩
  · refine ⟨⟨(Table.size_eraseIf_le _ _).trans hfew, hroutes, fun happlied key peer hpeer => ?_,
      fun key peer hpeer => ?_⟩, happlied⟩
    · rw [Table.lookup_eraseIf, filter_eq_some_iff] at hpeer
      exact hnamed happlied key peer hpeer.1
    · rw [Table.lookup_eraseIf, filter_eq_some_iff] at hpeer
      exact hfair key peer hpeer.1

omit [DecidableEq η] in
/-- A selector remembers the same peers, and routes with the same keys. -/
theorem Selector.maintain_diagnostics [DecidableEq η] (selector : Selector K η) (now : Time) :
    (selector.maintain now).diagnosticHistory = selector.diagnosticHistory ∧
      (selector.maintain now).routes = selector.routes := by
  have happly : (selector.applyCatalog now).diagnosticHistory = selector.diagnosticHistory ∧
      (selector.applyCatalog now).routes = selector.routes := by
    unfold Selector.applyCatalog
    split_ifs
    · exact ⟨rfl, rfl⟩
    · exact ⟨rfl, rfl⟩
  unfold Selector.maintain
  extract_lets applied history
  split_ifs
  · exact happly
  · exact happly

end History

/-! ### Selections -/

def SameKeys (routes routes' : Table RouteKey (RouteHistory K)) : Prop :=
  ∀ key, (routes'.lookup key).isSome = (routes.lookup key).isSome

omit [Score K] in
theorem SameKeys.insert {routes' : Table RouteKey (RouteHistory K)} (h : SameKeys routes routes')
    {key : RouteKey} {history : RouteHistory K} (hkey : routes'.lookup key = some history)
    (new : RouteHistory K) : SameKeys routes (AList.insert key new routes') := by
  intro key'
  rw [Table.lookup_insert_eq]
  split_ifs with heq
  · rw [← h key', heq, hkey]
    rfl
  · exact h key'

namespace Selector

variable {request : Request η}

theorem sameKeys_consider {failures : Table RouteKey Failure} {now : Time}
    {candidates candidates' : Candidates K} {entry : Route} (h : SameKeys routes candidates.routes)
    (hstep : consider request failures now candidates entry = some candidates') :
    SameKeys routes candidates'.routes := by
  have hadmit : ∀ count, admitRoute now count candidates entry = some candidates' →
      SameKeys routes candidates'.routes := by
    intro count hadmit
    unfold admitRoute at hadmit
    cases hhistory : candidates.routes.lookup entry.key with
    | none =>
      rw [hhistory] at hadmit
      cases hadmit
    | some history =>
      rw [hhistory] at hadmit
      dsimp only at hadmit
      have hkeys := h.insert hhistory (history.decay now)
      split at hadmit
      · cases hadmit
        exact hkeys
      · split at hadmit
        · cases hadmit
        · cases hadmit
          exact hkeys
  unfold consider at hstep
  split_ifs at hstep
  · cases hstep
    exact h
  · split at hstep
    · exact hadmit _ hstep
    · split_ifs at hstep
      · cases hstep
        exact h
      · exact hadmit _ hstep

theorem sameKeys_foldlM {failures : Table RouteKey Failure} {now : Time} (entries : List Route)
    {candidates candidates' : Candidates K} (h : SameKeys routes candidates.routes)
    (hfold : entries.foldlM (consider request failures now) candidates = some candidates') :
    SameKeys routes candidates'.routes := by
  induction entries generalizing candidates with
  | nil =>
    cases hfold
    exact h
  | cons entry entries ih =>
    rw [List.foldlM_cons] at hfold
    obtain ⟨next, hstep, hfold⟩ := bind_eq_some_iff.mp hfold
    exact ih (sameKeys_consider h hstep) hfold

/-- What a selection leaves as it is: the catalog, the keys of the routes, and the diagnostics but
for one report. -/
structure Selects (selector selector' : Selector K η) (later : Time) : Prop where
  routes : selector'.routes = selector.routes
  catalogApplied : selector'.catalogApplied = selector.catalogApplied
  keys : SameKeys selector.history.routes selector'.history.routes
  diagnostics : ∃ route decision,
    selector'.diagnosticHistory = selector.diagnosticHistory.selected route decision later

variable {selector selector' : Selector K η} {binding : PeerRoute}

theorem selectPinned_selects {first : Route} {now later : Time}
    (h : selector.selectPinned request first now later = some (binding, selector')) :
    selector.Selects selector' later ∧ selector'.history.peers = selector.history.peers := by
  unfold selectPinned at h
  split at h
  · cases h
    exact ⟨⟨rfl, rfl, fun _ => rfl, _, _, rfl⟩, rfl⟩
  · rename_i pinned _
    dsimp only at h
    cases hhistory : selector.history.routes.lookup pinned.key with
    | none =>
      rw [hhistory] at h
      cases h
    | some history =>
      rw [hhistory] at h
      cases h
      have hsame : SameKeys selector.history.routes selector.history.routes := fun _ => rfl
      exact ⟨⟨rfl, rfl, hsame.insert hhistory _, _, _, rfl⟩, rfl⟩

theorem selectMixed_selects [LinearOrder η] {now later : Time}
    (h : selector.selectMixed request now later = some (binding, selector')) :
    selector.Selects selector' later ∧ selector'.history.peers =
      (touchPeer selector.history.peers (request.infoHashes, request.peer) now).2 := by
  unfold selectMixed at h
  generalize touchPeer selector.history.peers (request.infoHashes, request.peer) now = touched
    at h ⊢
  obtain ⟨peer, peers⟩ := touched
  dsimp only at h ⊢
  cases hfold : selector.routes.foldlM (consider request peer.failures now)
      ⟨selector.history.routes, none, none⟩ with
  | none =>
    rw [hfold] at h
    cases h
  | some candidates =>
    have hkeys : SameKeys selector.history.routes candidates.routes :=
      sameKeys_foldlM _ (fun _ => rfl) hfold
    rw [hfold] at h
    obtain ⟨routes, selected, leastTried⟩ := candidates
    cases selected with
    | none =>
      cases h
      exact ⟨⟨rfl, rfl, hkeys, _, _, rfl⟩, rfl⟩
    | some best =>
      cases leastTried with
      | none => cases h
      | some least =>
        obtain ⟨best, score, count⟩ := best
        dsimp only at h
        cases hleast : routes.lookup least.key with
        | none =>
          rw [hleast] at h
          cases h
        | some leastHistory =>
          rw [hleast] at h
          dsimp only at h
          generalize (if (Score.isZero leastHistory.recentAssignments ||
            (selector.history.attempts + 1) % 10 == 0) = true then least else best) = entry at h
          cases hentry : routes.lookup entry.key with
          | none =>
            rw [hentry] at h
            cases h
          | some history =>
            rw [hentry] at h
            cases h
            exact ⟨⟨rfl, rfl, hkeys.insert hentry _, _, _, rfl⟩, rfl⟩

theorem size_touchPeer [LinearOrder η] {peers : Table (PeerKey η) PeerHistory}
    (h : peers.size ≤ maxPeerHistory) (key : PeerKey η) (now : Time) :
    (touchPeer peers key now).2.size ≤ maxPeerHistory := by
  unfold touchPeer
  cases hpeer : peers.lookup key with
  | some peer =>
    dsimp only
    rw [Table.size_insert_of_isSome (isSome_iff_exists.mpr ⟨peer, hpeer⟩)]
    exact h
  | none =>
    dsimp only
    by_cases hfull : peers.size ≥ maxPeerHistory
    · rw [if_pos hfull]
      cases holdest : peers.argmin fun key peer => toLex (peer.touched, toLex key) with
      | none =>
        have hzero := Table.argmin_eq_none.mp holdest
        rw [hzero] at hfull
        exact absurd hfull (by decide)
      | some oldest =>
        have herased := Table.size_erase_of_isSome
          (isSome_iff_exists.mpr (Table.isSome_of_argmin holdest))
        have hfresh : (AList.erase oldest peers).lookup key = none := by
          rw [Table.lookup_erase_eq]
          split_ifs
          · rfl
          · exact hpeer
        dsimp only
        rw [Table.size_insert_of_fresh hfresh]
        omega
    · rw [if_neg hfull, Table.size_insert_of_fresh hpeer]
      omega

theorem Remembers.touchPeer [LinearOrder η] {now later : Time} (h : selector.Remembers)
    (hpast : ∀ key peer, selector.history.peers.lookup key = some peer →
      peer.touched ≤ now) (hselects : selector.Selects selector' later) (key : PeerKey η)
    (hpeers : selector'.history.peers = (Selector.touchPeer selector.history.peers key now).2) :
    selector'.Remembers := by
  obtain ⟨htouched, hfailures, hold⟩ := touchPeer_spec selector.history.peers key now
  rw [← hpeers] at hold
  have hbefore : ∀ key' peer', selector'.history.peers.lookup key' = some peer' →
      ∀ route failure, peer'.failures.lookup route = some failure →
      ∃ key'' peer, selector.history.peers.lookup key'' = some peer ∧
        peer.touched ≤ peer'.touched ∧ peer.failures.lookup route = some failure := by
    intro key' peer' hpeer' route failure hfailure
    rcases hold key' peer' hpeer' with rfl | hpeer
    · obtain ⟨peer, hpeer, hfailure⟩ := (hfailures route failure).mp hfailure
      exact ⟨key, peer, hpeer, (hpast key peer hpeer).trans htouched.ge, hfailure⟩
    · exact ⟨key', peer', hpeer, le_rfl, hfailure⟩
  refine ⟨?_, fun happlied key' hkey' => ?_, fun happlied key' peer' hpeer' route hroute => ?_,
    fun key' peer' hpeer' route failure hfailure => ?_⟩
  · rw [hpeers]
    exact size_touchPeer h.few key now
  · rw [hselects.routes]
    rw [hselects.catalogApplied] at happlied
    exact h.routes happlied key' ((hselects.keys key').symm.trans hkey')
  · obtain ⟨failure, hfailure⟩ := isSome_iff_exists.mp hroute
    obtain ⟨key'', peer, hpeer, -, hfailure⟩ := hbefore key' peer' hpeer' route failure hfailure
    rw [hselects.routes]
    rw [hselects.catalogApplied] at happlied
    exact h.named happlied key'' peer hpeer route (isSome_iff_exists.mpr ⟨failure, hfailure⟩)
  · obtain ⟨key'', peer, hpeer, hle, hfailure⟩ := hbefore key' peer' hpeer' route failure hfailure
    obtain ⟨hcounted, hfew, start, hstart, hretry⟩ := h.fair key'' peer hpeer route failure hfailure
    exact ⟨hcounted, hfew, start, hstart.trans hle, hretry⟩

theorem Remembers.samePeers [DecidableEq η] {later : Time} (h : selector.Remembers)
    (hselects : selector.Selects selector' later)
    (hpeers : selector'.history.peers = selector.history.peers) : selector'.Remembers := by
  refine ⟨?_, fun happlied key hkey => ?_, fun happlied => ?_, ?_⟩
  · rw [hpeers]
    exact h.few
  · rw [hselects.routes]
    rw [hselects.catalogApplied] at happlied
    exact h.routes happlied key ((hselects.keys key).symm.trans hkey)
  · rw [hpeers, hselects.routes]
    rw [hselects.catalogApplied] at happlied
    exact h.named happlied
  · rw [hpeers]
    exact h.fair

/-- No peer was touched in the future. -/
def Past [DecidableEq η] (selector : Selector K η) (clock : Time) : Prop :=
  ∀ key peer, selector.history.peers.lookup key = some peer → peer.touched ≤ clock

theorem past_maintain [DecidableEq η] {clock : Time} (h : selector.Past clock) (now : Time) :
    (selector.maintain now).Past clock := by
  have happly : (selector.applyCatalog now).Past clock := by
    unfold applyCatalog
    split_ifs
    · exact h
    · intro key peer' hpeer'
      obtain ⟨peer, hpeer, rfl⟩ :=
        map_eq_some_iff.mp ((Table.lookup_mapValues ..).symm.trans hpeer')
      exact h key peer hpeer
  unfold maintain
  extract_lets applied history
  split_ifs
  · exact happly
  · intro key peer hpeer
    rw [Table.lookup_eraseIf, filter_eq_some_iff] at hpeer
    exact happly key peer hpeer.1

theorem select_remembers [LinearOrder η] {now later : Time} (h : selector.Remembers)
    (hpast : selector.Past now)
    (hselect : selector.select request now later = some (binding, selector')) :
    selector'.Remembers ∧ selector'.Past now ∧ ∃ route decision,
      selector'.diagnosticHistory = selector.diagnosticHistory.selected route decision later := by
  obtain ⟨hremembers, -⟩ := h.maintain now
  have hpast' := past_maintain hpast now
  rw [← (selector.maintain_diagnostics now).1]
  unfold select at hselect
  dsimp only at hselect
  split at hselect
  · cases hselect
    obtain ⟨hfew, hroutes, hnamed, hfair⟩ := hremembers
    exact ⟨⟨hfew, hroutes, hnamed, hfair⟩, hpast', _, _, rfl⟩
  · split_ifs at hselect
    · obtain ⟨hselects, hpeers⟩ := selectPinned_selects hselect
      refine ⟨hremembers.samePeers hselects hpeers, fun key peer hpeer => ?_, hselects.diagnostics⟩
      exact hpast' key peer (hpeers ▸ hpeer)
    · obtain ⟨hselects, hpeers⟩ := selectMixed_selects hselect
      refine ⟨hremembers.touchPeer hpast' hselects _ hpeers, fun key peer hpeer => ?_,
        hselects.diagnostics⟩
      obtain ⟨htouched, -, hold⟩ := touchPeer_spec (selector.maintain now).history.peers
        (request.infoHashes, request.peer) now
      rw [hpeers] at hpeer
      rcases hold key peer hpeer with rfl | hpeer
      · exact htouched.le
      · exact hpast' key peer hpeer

/-! ### Observations -/

theorem learn_peer {observation : Observation η} {now : Time} {history : RouteHistory K}
    {peer peer' : PeerHistory}
    (h : (learn observation now history (some peer)).2 = some peer') :
    peer' = peer ∨ peer' = { peer with failures := peer.failures.erase observation.route.key } ∨
      peer' = peer.fail observation.route.key now := by
  unfold learn at h
  extract_lets key fourFifths decayed history' at h
  split_ifs at h
  · exact .inr (.inl (Option.some.inj h).symm)
  · exact .inr (.inr (Option.some.inj h).symm)
  · exact .inr (.inr (Option.some.inj h).symm)
  · exact .inl (Option.some.inj h).symm

theorem learn_none (observation : Observation η) (now : Time) (history : RouteHistory K) :
    (learn observation now history none).2 = none := by
  unfold learn
  extract_lets key fourFifths decayed history'
  split_ifs
  · rfl
  · rfl
  · rfl
  · rfl

/-- The failures of a peer after an observation: those from before, and one on the route of the
observation that counts and begins now. -/
theorem learn_failures {observation : Observation η} {now : Time} {history : RouteHistory K}
    {peer peer' : PeerHistory} (hfair : ∀ route failure,
      peer.failures.lookup route = some failure → failure.Fair peer.touched)
    (hpast : peer.touched ≤ now)
    (h : (learn observation now history (some peer)).2 = some peer') :
    peer.touched ≤ peer'.touched ∧ peer'.touched ≤ now ∧
      ∀ route failure, peer'.failures.lookup route = some failure →
        peer.failures.lookup route = some failure ∨
          route = observation.route.key ∧ 1 ≤ failure.count ∧ failure.count ≤ 4 ∧
            now ≤ peer'.touched ∧ failure.retryAfter = now + cooldown failure.count := by
  rcases learn_peer h with rfl | rfl | rfl
  · exact ⟨le_rfl, hpast, fun route failure hfailure => .inl hfailure⟩
  · refine ⟨le_rfl, hpast, fun route failure hfailure => .inl ?_⟩
    dsimp only at hfailure
    rw [Table.lookup_erase_eq] at hfailure
    split_ifs at hfailure
    exact hfailure
  · refine ⟨hpast, le_rfl, fun route failure hfailure => ?_⟩
    unfold PeerHistory.fail at hfailure
    dsimp only at hfailure
    rw [Table.lookup_insert_eq] at hfailure
    split_ifs at hfailure with heq
    · cases hfailure
      refine .inr ⟨heq, ?_, ?_, le_rfl, rfl⟩
      · exact le_min (by omega) (Nat.succ_le_succ (Nat.zero_le _))
      · exact min_le_left _ _
    · exact .inl hfailure

/-- What `observe` does to the failures of the peers. -/
theorem observe_remembers [DecidableEq η] {now : Time} (h : selector.Remembers)
    (hpast : selector.Past now) (observation : Observation η) (later : Time) :
    (selector.observe observation now later).Remembers ∧
      (selector.observe observation now later).Past now ∧
      (selector.observe observation now later).diagnosticHistory =
        selector.diagnosticHistory.observe observation later ∧
      ∀ key peer', (selector.observe observation now later).history.peers.lookup key = some peer' →
        ∃ peer, (selector.maintain now).history.peers.lookup key = some peer ∧
          ∀ route failure, peer'.failures.lookup route = some failure →
            peer.failures.lookup route = some failure ∨
              failure.retryAfter = now + cooldown failure.count := by
  obtain ⟨hremembers, happlied⟩ := h.maintain now
  have hpast' := past_maintain hpast now
  unfold observe
  dsimp only
  rw [(selector.maintain_diagnostics now).1]
  cases hhistory : (selector.maintain now).history.routes.lookup observation.route.key with
  | none =>
    refine ⟨{ hremembers with }, hpast', rfl, ?_⟩
    exact fun key peer hpeer => ⟨peer, hpeer, fun route failure hfailure => .inl hfailure⟩
  | some history =>
    have hname : Names (selector.maintain now).routes observation.route.key :=
      hremembers.routes happlied _ (isSome_iff_exists.mpr ⟨history, hhistory⟩)
    have hroutes : ∀ new : RouteHistory K, ∀ key, ((AList.insert observation.route.key new
        (selector.maintain now).history.routes).lookup key).isSome →
        Names (selector.maintain now).routes key := by
      intro new key hkey
      rw [Table.lookup_insert_eq] at hkey
      split_ifs at hkey with heq
      · exact heq ▸ hname
      · exact hremembers.routes happlied key hkey
    dsimp only
    cases hpeer : (selector.maintain now).history.peers.lookup
        (observation.infoHashes, observation.peer) with
    | none =>
      have hnone := learn_none observation now history
      generalize learn observation now history none = learned at hnone ⊢
      obtain ⟨history', peer'⟩ := learned
      obtain rfl : peer' = none := hnone
      refine ⟨⟨hremembers.few, fun _ => hroutes history', hremembers.named, hremembers.fair⟩, hpast',
        rfl, fun key peer hpeer => ⟨peer, hpeer, fun route failure hfailure => .inl hfailure⟩⟩
    | some peer =>
      have hlearn := @learn_failures _ _ _ observation now history peer
      have hsome : (learn observation now history (some peer)).2 ≠ none := by
        unfold learn
        extract_lets key fourFifths decayed history'
        split_ifs
        · exact some_ne_none _
        · exact some_ne_none _
        · exact some_ne_none _
        · exact some_ne_none _
      generalize learn observation now history (some peer) = learned at hlearn hsome ⊢
      obtain ⟨history', peer'⟩ := learned
      obtain ⟨peer', rfl⟩ := ne_none_iff_exists'.mp hsome
      obtain ⟨htouched, hlate, hfailures⟩ :=
        @hlearn peer' (hremembers.fair _ peer hpeer) (hpast' _ peer hpeer) rfl
      have hlookup : ∀ key other, (AList.insert (observation.infoHashes, observation.peer) peer'
          (selector.maintain now).history.peers).lookup key = some other →
          (key = (observation.infoHashes, observation.peer) ∧ other = peer') ∨
            (selector.maintain now).history.peers.lookup key = some other := by
        intro key other hother
        rw [Table.lookup_insert_eq] at hother
        split_ifs at hother with heq
        · exact .inl ⟨heq, (Option.some.inj hother).symm⟩
        · exact .inr hother
      refine ⟨⟨?_, fun _ => hroutes history', fun _ key other hother route hroute => ?_,
        fun key other hother route failure hfailure => ?_⟩, fun key other hother => ?_, rfl,
        fun key other hother => ?_⟩
      · dsimp only
        rw [Table.size_insert_of_isSome (isSome_iff_exists.mpr ⟨peer, hpeer⟩)]
        exact hremembers.few
      · obtain ⟨failure, hfailure⟩ := isSome_iff_exists.mp hroute
        rcases hlookup key other hother with ⟨-, rfl⟩ | hother
        · rcases hfailures route failure hfailure with hfailure | ⟨rfl, -⟩
          · exact hremembers.named happlied _ peer hpeer route
              (isSome_iff_exists.mpr ⟨failure, hfailure⟩)
          · exact hname
        · exact hremembers.named happlied key other hother route hroute
      · rcases hlookup key other hother with ⟨-, rfl⟩ | hother
        · rcases hfailures route failure hfailure with hfailure | ⟨-, hpos, hfew, hnow, hretry⟩
          · obtain ⟨hpos, hfew, start, hstart, hretry⟩ :=
              hremembers.fair _ peer hpeer route failure hfailure
            exact ⟨hpos, hfew, start, hstart.trans htouched, hretry⟩
          · exact ⟨hpos, hfew, now, hnow, hretry⟩
        · exact hremembers.fair key other hother route failure hfailure
      · rcases hlookup key other hother with ⟨-, rfl⟩ | hother
        · exact hlate
        · exact hpast' key other hother
      · rcases hlookup key other hother with ⟨rfl, rfl⟩ | hother
        · refine ⟨peer, hpeer, fun route failure hfailure => ?_⟩
          exact (hfailures route failure hfailure).imp_right fun hnew => hnew.2.2.2.2
        · exact ⟨other, hother, fun route failure hfailure => .inl hfailure⟩

end Selector

/-! ### Runs -/

section Runs

variable [LinearOrder η] {m m' : Memory K η} {call : Call η}

/-- What holds between two calls. -/
structure Memory.Sound (m : Memory K η) : Prop where
  remembers : m.installed.selector.Remembers
  past : m.installed.selector.Past m.installed.clock
  kept : m.diagnostics.Kept m.dropped m.installed.clock

/-- What a call does to the retained routes: a catalog that is configured is retained and current,
and apart from a new catalog or none no route is lost or stops being current. -/
def Memory.KeepsCurrent (m m' : Memory K η) : Call η → Prop
  | .act (.install catalog ..) => ∀ entry ∈ catalog, ∃ route,
      m'.diagnostics.routes.lookup entry.key = some route ∧ route.current
  | .act (.retire _) => ∀ key route,
      m'.diagnostics.routes.lookup key = some route → ¬ route.current
  | _ => m.diagnostics.SameRoutes m'.diagnostics

theorem retire_not_current {history : DiagnosticHistory} {now : Time} {key : RouteKey}
    {route : RetainedRoute} (h : (history.retire now).routes.lookup key = some route) :
    ¬ route.current := by
  obtain ⟨n, -, hroutes⟩ := DiagnosticHistory.prune_routes
    { history with
      routes := history.routes.mapValues fun _ => DiagnosticHistory.RetainedRoute.retired now } now
  have hold : ∀ n (routes : Table RouteKey RetainedRoute),
      (DiagnosticHistory.dropOldest^[n] routes).lookup key = some route →
      routes.lookup key = some route := by
    intro n
    induction n with
    | zero => exact fun _ h => h
    | succ n ih =>
      intro routes h
      rw [Function.iterate_succ_apply] at h
      exact DiagnosticHistory.dropOldest_old (ih _ h)
  have hretired := hold n _ (hroutes ▸ h)
  rw [Table.lookup_eraseIf, filter_eq_some_iff] at hretired
  obtain ⟨route', -, rfl⟩ :=
    map_eq_some_iff.mp ((Table.lookup_mapValues ..).symm.trans hretired.1)
  unfold DiagnosticHistory.RetainedRoute.retired
  split_ifs with hcurrent
  · exact not_false
  · exact hcurrent

theorem memory_step (h : m.Sound) (ha : m.Monotone call) (hs : m.step call = some m') :
    m'.Sound ∧ m.KeepsCurrent m' call := by
  cases call with
  | act a =>
    obtain ⟨s, hstep, rfl⟩ := map_eq_some_iff.mp hs
    cases a with
    | install routes mixed diagnostics inherit now =>
      cases hstep
      refine ⟨⟨?_, ?_, ?_⟩, fun entry hentry => DiagnosticHistory.configure_current _ hentry now⟩
      · cases inherit with
        | false =>
          exact ⟨Nat.zero_le _, fun h => (by cases h), fun h => (by cases h),
            fun key peer hpeer => (by cases hpeer)⟩
        | true =>
          exact ⟨h.remembers.few, fun h => (by cases h), fun h => (by cases h), h.remembers.fair⟩
      · cases inherit with
        | false => exact fun key peer hpeer => (by cases hpeer)
        | true => exact fun key peer hpeer => (h.past key peer hpeer).trans ha
      · cases diagnostics with
        | false => exact DiagnosticHistory.kept_new.configure le_rfl routes
        | true => exact h.kept.configure ha routes
    | retire now =>
      cases hstep
      refine ⟨⟨⟨h.remembers.few, h.remembers.routes, h.remembers.named, h.remembers.fair⟩,
        fun key peer hpeer => (h.past key peer hpeer).trans ha, h.kept.retire ha⟩,
        fun key route hroute => retire_not_current hroute⟩
    | select request now later =>
      obtain ⟨⟨binding, selector'⟩, hselect, rfl⟩ := map_eq_some_iff.mp hstep
      have hpast : m.installed.selector.Past now :=
        fun key peer hpeer => (h.past key peer hpeer).trans ha.1
      obtain ⟨hremembers, hpast', route, decision, hdiagnostics⟩ :=
        Selector.select_remembers h.remembers hpast hselect
      refine ⟨⟨hremembers, fun key peer hpeer => (hpast' key peer hpeer).trans ha.2, ?_⟩, ?_⟩
      · show selector'.diagnosticHistory.Kept _ later
        rw [hdiagnostics]
        exact h.kept.selected (ha.1.trans ha.2) route decision
      · show m.diagnostics.SameRoutes selector'.diagnosticHistory
        rw [hdiagnostics]
        exact DiagnosticHistory.sameRoutes_selected _ _ _ _
    | observe observation now later =>
      cases hstep
      have hpast : m.installed.selector.Past now :=
        fun key peer hpeer => (h.past key peer hpeer).trans ha.1
      obtain ⟨hremembers, hpast', hdiagnostics, -⟩ :=
        Selector.observe_remembers h.remembers hpast observation later
      refine ⟨⟨hremembers, fun key peer hpeer => (hpast' key peer hpeer).trans ha.2, ?_⟩, ?_⟩
      · show (Selector.observe _ _ _ _).diagnosticHistory.Kept _ later
        rw [hdiagnostics]
        exact h.kept.observe (ha.1.trans ha.2) observation
      · show m.diagnostics.SameRoutes (Selector.observe _ _ _ _).diagnosticHistory
        rw [hdiagnostics]
        exact DiagnosticHistory.sameRoutes_observe _ _ _
  | maintain now =>
    cases hs
    refine ⟨⟨(h.remembers.maintain now).1, ?_, ?_⟩, ?_⟩
    · exact Selector.past_maintain (fun key peer hpeer => (h.past key peer hpeer).trans ha) now
    · show (Selector.maintain _ now).diagnosticHistory.Kept _ now
      rw [(Selector.maintain_diagnostics _ now).1]
      exact h.kept.later ha
    · show m.diagnostics.SameRoutes (Selector.maintain _ now).diagnosticHistory
      rw [(Selector.maintain_diagnostics _ now).1]
      exact fun _ => rfl
  | selected route decision now =>
    cases hs
    refine ⟨⟨⟨h.remembers.few, h.remembers.routes, h.remembers.named, h.remembers.fair⟩,
      fun key peer hpeer => (h.past key peer hpeer).trans ha,
      h.kept.selected ha route decision⟩, ?_⟩
    exact DiagnosticHistory.sameRoutes_selected _ _ _ _

theorem memory_sound (h : memorySystem.Reachable Memory.Monotone m) : m.Sound := by
  refine h.invariant ?_ fun m call m' hm ha hstep => (memory_step hm ha hstep).1
  rintro m ⟨⟨routes, mixed, now, hinstalled⟩, hdropped⟩
  obtain ⟨installed, dropped⟩ := m
  obtain rfl : installed = ⟨.new routes mixed none none now, now⟩ := hinstalled
  obtain rfl : dropped = [] := hdropped
  exact ⟨⟨Nat.zero_le _, fun h => (by cases h), fun h => (by cases h),
    fun key peer hpeer => (by cases hpeer)⟩, fun key peer hpeer => (by cases hpeer),
    DiagnosticHistory.kept_new.configure le_rfl routes⟩

/-- What is bounded in a state of a run. -/
structure Memory.Bounded (m : Memory K η) : Prop where
  peers : m.installed.selector.history.peers.size ≤ 16384
  named : m.installed.selector.catalogApplied → ∀ key peer,
    m.installed.selector.history.peers.lookup key = some peer →
    ∀ route, (peer.failures.lookup route).isSome → Names m.installed.selector.routes route
  failures : ∀ key peer, m.installed.selector.history.peers.lookup key = some peer →
    ∀ route failure, peer.failures.lookup route = some failure → failure.count ≤ 4 ∧
      ∃ start ≤ peer.touched, seconds 30 ≤ failure.retryAfter - start ∧
        failure.retryAfter - start ≤ seconds 240
  events : m.diagnostics.events.length ≤ 512
  ordered : m.diagnostics.events.Pairwise fun a b => a.timestamp ≤ b.timestamp
  truncated : ∀ now ≥ m.installed.clock, (m.diagnostics.snapshot now).eventsTruncated = true ↔
    ∃ event ∈ m.dropped, now - event.timestamp ≤ minutes 15
  routes : m.diagnostics.routes.size ≤ 256 ∨
    ∀ key route, m.diagnostics.routes.lookup key = some route → route.current

theorem Memory.Sound.bounded (h : m.Sound) : m.Bounded where
  peers := h.remembers.few
  named := h.remembers.named
  failures := by
    intro key peer hpeer route failure hfailure
    obtain ⟨hpos, hfew, start, hstart, hretry⟩ := h.remembers.fair key peer hpeer route failure hfailure
    obtain ⟨hlow, hhigh⟩ := cooldown_bounds hpos hfew
    exact ⟨hfew, start, hstart, by linarith, by linarith⟩
  events := h.kept.length
  ordered := h.kept.ordered
  truncated := fun now hnow => DiagnosticHistory.eventsTruncated_iff h.kept hnow
  routes := h.kept.few

end Runs

end Qbutt.Net
