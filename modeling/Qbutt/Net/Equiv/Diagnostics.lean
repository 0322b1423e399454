import Mathlib.Tactic.Linarith
import Qbutt.Net.Selector

/-!
# Diagnostics of route selection: bounds

What `DiagnosticHistory` retains is bounded, and the bounds do not lose what they must not lose: the
size limit on events is noted for as long as an event that fell to it would still be shown
(`eventsTruncated_iff`), and the limit on routes never takes one of the catalog
(`prune_keeps_current`).  The events that fell to the size limit are passed along as a list of their
own, which the code does not have.
-/

namespace Qbutt.Net

open List

namespace DiagnosticHistory

variable {history : DiagnosticHistory} {dropped : List EventRecord} {clock now : Time}

/-! ### Routes -/

def Few (routes : Table RouteKey RetainedRoute) : Prop :=
  routes.size ≤ maxDiagnosticRoutes ∨ ∀ key route, routes.lookup key = some route → route.current

variable {routes : Table RouteKey RetainedRoute} {key : RouteKey}

/-- A key that the loop of `prune` takes is not one of the catalog. -/
theorem oldest_not_current (h : oldest routes = some key) :
    ∃ route, routes.lookup key = some route ∧ ¬ route.current := by
  obtain ⟨route, hroute⟩ := Table.isSome_of_argmin h
  rw [Table.lookup_eraseIf, Option.filter_eq_some_iff] at hroute
  exact ⟨route, hroute.1, by simpa using hroute.2⟩

theorem oldest_eq_none :
    oldest routes = none ↔ ∀ key route, routes.lookup key = some route → route.current := by
  rw [oldest, Table.argmin_eq_none, Table.size, length_eq_zero_iff]
  constructor
  · intro hempty key route hroute
    by_contra hcurrent
    have hkept : (routes.eraseIf fun _ route => route.current).lookup key = some route := by
      rw [Table.lookup_eraseIf, hroute]
      simpa using hcurrent
    have hmem := AList.mem_lookup_iff.mp hkept
    rw [hempty] at hmem
    cases hmem
  · intro hcurrent
    refine eq_nil_iff_forall_not_mem.mpr ?_
    rintro ⟨key, route⟩ hmem
    have hroute := AList.mem_lookup_iff.mpr hmem
    rw [Table.lookup_eraseIf, Option.mem_def, Option.filter_eq_some_iff] at hroute
    have htrue := hcurrent key route hroute.1
    rw [htrue] at hroute
    exact absurd hroute.2 (by decide)

variable {route : RetainedRoute}

theorem dropOldest_keeps_current (h : routes.lookup key = some route) (hcurrent : route.current) :
    (dropOldest routes).lookup key = some route := by
  unfold dropOldest
  cases hold : oldest routes with
  | none => exact h
  | some old =>
    obtain ⟨route', hroute', hnot⟩ := oldest_not_current hold
    have hne : key ≠ old := by
      rintro rfl
      cases h.symm.trans hroute'
      exact hnot hcurrent
    dsimp only
    rw [Table.lookup_erase_eq, if_neg hne]
    exact h

theorem dropOldest_old (h : (dropOldest routes).lookup key = some route) :
    routes.lookup key = some route := by
  unfold dropOldest at h
  cases hold : oldest routes with
  | none =>
    rw [hold] at h
    exact h
  | some old =>
    rw [hold] at h
    dsimp only at h
    rw [Table.lookup_erase_eq] at h
    split_ifs at h
    exact h

/-- As many rounds as there are routes too many. -/
theorem few_rounds (n : ℕ) (h : routes.size ≤ maxDiagnosticRoutes + n ∨
      ∀ key route, routes.lookup key = some route → route.current) :
    Few (dropOldest^[n] routes) := by
  induction n generalizing routes with
  | zero => exact h
  | succ n ih =>
    rw [Function.iterate_succ_apply]
    refine ih ?_
    cases hold : oldest routes with
    | none =>
      right
      intro key route hroute
      exact oldest_eq_none.mp hold key route (dropOldest_old hroute)
    | some old =>
      left
      obtain ⟨route, hroute, hnot⟩ := oldest_not_current hold
      have hsize : routes.size ≤ maxDiagnosticRoutes + (n + 1) := by
        rcases h with hsize | hcurrent
        · exact hsize
        · exact absurd (hcurrent old route hroute) hnot
      have herased := Table.size_erase_of_isSome (Option.isSome_iff_exists.mpr ⟨route, hroute⟩)
      rw [dropOldest, hold]
      dsimp only
      omega

theorem rounds_keep_current (n : ℕ) (h : routes.lookup key = some route)
    (hcurrent : route.current) : (dropOldest^[n] routes).lookup key = some route := by
  induction n generalizing routes with
  | zero => exact h
  | succ n ih =>
    rw [Function.iterate_succ_apply]
    exact ih (dropOldest_keeps_current h hcurrent)

theorem prune_routes (history : DiagnosticHistory) (now : Time) :
    ∃ n, (history.routes.eraseIf fun _ route =>
        !route.current && now - route.touched > historyTtl).size ≤ maxDiagnosticRoutes + n ∧
      (history.prune now).routes = dropOldest^[n] (history.routes.eraseIf fun _ route =>
        !route.current && now - route.touched > historyTtl) := by
  unfold prune
  generalize (history.routes.eraseIf fun _ route =>
    !route.current && now - route.touched > historyTtl) = routes
  refine ⟨routes.size - maxDiagnosticRoutes, ?_, ?_⟩
  · omega
  · dsimp only

theorem few_prune (history : DiagnosticHistory) (now : Time) : Few (history.prune now).routes := by
  obtain ⟨n, hsize, hroutes⟩ := prune_routes history now
  rw [hroutes]
  exact few_rounds n (.inl hsize)

theorem prune_keeps_current (h : history.routes.lookup key = some route)
    (hcurrent : route.current) : (history.prune now).routes.lookup key = some route := by
  obtain ⟨n, -, hroutes⟩ := prune_routes history now
  rw [hroutes]
  refine rounds_keep_current n ?_ hcurrent
  rw [Table.lookup_eraseIf, h]
  simp [hcurrent]

theorem foldl_retain_current {catalog : List Route} (now : Time)
    (routes : Table RouteKey RetainedRoute) (h : (∃ entry ∈ catalog, entry.key = key) ∨
      ∃ route, routes.lookup key = some route ∧ route.current) :
    ∃ route, (catalog.foldl (retain now) routes).lookup key = some route ∧ route.current := by
  induction catalog generalizing routes with
  | nil =>
    rcases h with ⟨entry, hentry, -⟩ | h
    · cases hentry
    · exact h
  | cons first catalog ih =>
    rw [foldl_cons]
    by_cases hkey : key = first.key
    · refine ih _ (.inr ?_)
      rw [retain, Table.lookup_insert_eq, if_pos hkey]
      exact ⟨_, rfl, rfl⟩
    · refine ih _ ?_
      rcases h with ⟨entry, hentry, rfl⟩ | ⟨route, hroute, hcurrent⟩
      · rcases mem_cons.mp hentry with rfl | hentry
        · exact absurd rfl hkey
        · exact .inl ⟨entry, hentry, rfl⟩
      · refine .inr ⟨route, ?_, hcurrent⟩
        rw [retain, Table.lookup_insert_eq, if_neg hkey]
        exact hroute

theorem configure_current (history : DiagnosticHistory) {catalog : List Route} {entry : Route}
    (h : entry ∈ catalog) (now : Time) : ∃ route,
      (history.configure catalog now).routes.lookup entry.key = some route ∧ route.current := by
  obtain ⟨route, hroute, hcurrent⟩ := foldl_retain_current now
    (history.routes.mapValues fun _ => RetainedRoute.retired now) (.inl ⟨entry, h, rfl⟩)
  exact ⟨route, prune_keeps_current hroute hcurrent, hcurrent⟩

/-! ### Events -/

/-- What holds of a history from which the given events fell to the size limit. -/
structure Kept (history : DiagnosticHistory) (dropped : List EventRecord) (clock : Time) : Prop where
  length : history.events.length ≤ maxDiagnosticEvents
  ordered : history.events.Pairwise fun a b => a.timestamp ≤ b.timestamp
  past : ∀ event ∈ history.events, event.timestamp ≤ clock
  before : ∀ event ∈ dropped, event.timestamp ≤ clock ∧
    ∀ later ∈ history.events, event.timestamp ≤ later.timestamp
  noted : ∀ event ∈ dropped, clock - event.timestamp ≤ historyTtl →
    ∃ last, history.lastDroppedEvent = some last ∧ event.timestamp ≤ last
  fell : ∀ last, history.lastDroppedEvent = some last → ∃ event ∈ dropped, event.timestamp = last
  few : Few history.routes

theorem kept_new : Kept {} [] clock where
  length := Nat.zero_le _
  ordered := .nil
  past := by simp
  before := by simp
  noted := by simp
  fell := by simp
  few := .inl (Nat.zero_le _)

/-- The history says that events are missing exactly when one that fell to the size limit would
still be shown. -/
theorem eventsTruncated_iff (h : history.Kept dropped clock) (hnow : clock ≤ now) :
    (history.snapshot now).eventsTruncated = true ↔
      ∃ event ∈ dropped, now - event.timestamp ≤ historyTtl := by
  show history.lastDroppedEvent.any _ = true ↔ _
  rw [Option.any_eq_true]
  constructor
  · rintro ⟨last, hlast, hrecent⟩
    obtain ⟨event, hevent, htime⟩ := h.fell last hlast
    exact ⟨event, hevent, by simpa [htime] using hrecent⟩
  · rintro ⟨event, hevent, hrecent⟩
    obtain ⟨last, hlast, hle⟩ := h.noted event hevent (by linarith)
    refine ⟨last, hlast, decide_eq_true ?_⟩
    linarith

theorem Kept.prune (h : history.Kept dropped clock) (hnow : clock ≤ now) :
    (history.prune now).Kept dropped now where
  length := (dropWhile_suffix _).length_le.trans h.length
  ordered := h.ordered.sublist (dropWhile_suffix _).sublist
  past := fun event hevent =>
    (h.past event ((dropWhile_suffix _).subset hevent)).trans hnow
  before := by
    intro event hevent
    obtain ⟨hpast, hbefore⟩ := h.before event hevent
    exact ⟨hpast.trans hnow, fun later hlater =>
      hbefore later ((dropWhile_suffix _).subset hlater)⟩
  noted := by
    intro event hevent hrecent
    obtain ⟨last, hlast, hle⟩ := h.noted event hevent (by linarith)
    refine ⟨last, ?_, hle⟩
    show history.lastDroppedEvent.filter _ = some last
    rw [hlast]
    exact Option.filter_eq_some_iff.mpr ⟨rfl, decide_eq_true (by linarith)⟩
  fell := fun last hlast => h.fell last (Option.filter_eq_some_iff.mp hlast).1
  few := few_prune history now

theorem Kept.configure (h : history.Kept dropped clock) (hnow : clock ≤ now) (routes : List Route) :
    (history.configure routes now).Kept dropped now := by
  -- nothing but the routes changes before the history is pruned, and these are pruned
  obtain ⟨hlength, hordered, hpast, hbefore, hnoted, hfell, -⟩ :=
    (show history.Kept dropped clock from h).prune hnow
  exact ⟨hlength, hordered, hpast, hbefore, hnoted, hfell, few_prune _ now⟩

theorem Kept.retire (h : history.Kept dropped clock) (hnow : clock ≤ now) :
    (history.retire now).Kept dropped now := by
  obtain ⟨hlength, hordered, hpast, hbefore, hnoted, hfell, -⟩ := h.prune hnow
  exact ⟨hlength, hordered, hpast, hbefore, hnoted, hfell, few_prune _ now⟩

theorem Few.insert (h : Few routes) (hroute : routes.lookup key = some route)
    (value : RouteDiagnostics) (now : Time) :
    Few (AList.insert key { route with touched := now, value := value } routes) := by
  rcases h with hsize | hcurrent
  · left
    rw [Table.size_insert_of_isSome (Option.isSome_iff_exists.mpr ⟨route, hroute⟩)]
    exact hsize
  · right
    intro key' route' hroute'
    rw [Table.lookup_insert_eq] at hroute'
    split_ifs at hroute'
    · cases hroute'
      exact hcurrent key route hroute
    · exact hcurrent key' route' hroute'

theorem Kept.later (h : history.Kept dropped clock) (hnow : clock ≤ now) :
    history.Kept dropped now where
  length := h.length
  ordered := h.ordered
  past := fun event hevent => (h.past event hevent).trans hnow
  before := fun event hevent => ⟨(h.before event hevent).1.trans hnow, (h.before event hevent).2⟩
  noted := fun event hevent hrecent => h.noted event hevent (by linarith)
  fell := h.fell
  few := h.few

theorem Kept.record (h : history.Kept dropped clock) (hnow : clock ≤ now) (route : PeerRouteContext)
    (decision : Decision) :
    (history.record now route decision).Kept (dropped ++ history.overflow) now := by
  unfold DiagnosticHistory.record DiagnosticHistory.overflow
  extract_lets event
  by_cases hfull : history.events.length ≥ maxDiagnosticEvents
  · rw [if_pos hfull, if_pos hfull]
    cases hevents : history.events with
    | nil =>
      rw [hevents] at hfull
      exact absurd hfull (by decide)
    | cons first events =>
      have hlength := h.length
      have hordered := h.ordered
      have hpast := h.past
      rw [hevents] at hlength hordered hpast
      obtain ⟨hfirst, hordered⟩ := pairwise_cons.mp hordered
      refine ⟨?_, ?_, ?_, ?_, ?_, ?_, h.few⟩
      · show (events ++ [event]).length ≤ maxDiagnosticEvents
        rw [length_append, length_singleton]
        exact hlength
      · refine pairwise_append.mpr ⟨hordered, pairwise_singleton _ _, ?_⟩
        intro old hold new hnew
        rw [mem_singleton.mp hnew]
        exact (hpast old (mem_cons_of_mem first hold)).trans hnow
      · intro old hold
        rcases mem_append.mp hold with hold | hold
        · exact (hpast old (mem_cons_of_mem first hold)).trans hnow
        · rw [mem_singleton.mp hold]
      · intro old hold
        rcases mem_append.mp hold with hold | hold
        · obtain ⟨hclock, hbefore⟩ := h.before old hold
          refine ⟨hclock.trans hnow, fun later hlater => ?_⟩
          rcases mem_append.mp hlater with hlater | hlater
          · exact hbefore later (by rw [hevents]; exact mem_cons_of_mem first hlater)
          · rw [mem_singleton.mp hlater]
            exact hclock.trans hnow
        · obtain rfl := mem_singleton.mp hold
          have hclock := hpast old mem_cons_self
          refine ⟨hclock.trans hnow, fun later hlater => ?_⟩
          rcases mem_append.mp hlater with hlater | hlater
          · exact hfirst later hlater
          · rw [mem_singleton.mp hlater]
            exact hclock.trans hnow
      · intro old hold _
        refine ⟨first.timestamp, rfl, ?_⟩
        rcases mem_append.mp hold with hold | hold
        · exact (h.before old hold).2 first (by rw [hevents]; exact mem_cons_self)
        · rw [mem_singleton.mp hold]
      · intro last hlast
        obtain rfl : first.timestamp = last := Option.some.inj hlast
        exact ⟨first, mem_append_right _ mem_cons_self, rfl⟩
  · rw [if_neg hfull, if_neg hfull, append_nil]
    refine ⟨?_, ?_, ?_, ?_, ?_, h.fell, h.few⟩
    · show (history.events ++ [event]).length ≤ maxDiagnosticEvents
      rw [length_append, length_singleton]
      omega
    · refine pairwise_append.mpr ⟨h.ordered, pairwise_singleton _ _, ?_⟩
      intro old hold new hnew
      rw [mem_singleton.mp hnew]
      exact (h.past old hold).trans hnow
    · intro old hold
      rcases mem_append.mp hold with hold | hold
      · exact (h.past old hold).trans hnow
      · rw [mem_singleton.mp hold]
    · intro old hold
      obtain ⟨hclock, hbefore⟩ := h.before old hold
      refine ⟨hclock.trans hnow, fun later hlater => ?_⟩
      rcases mem_append.mp hlater with hlater | hlater
      · exact hbefore later hlater
      · rw [mem_singleton.mp hlater]
        exact hclock.trans hnow
    · exact fun old hold hrecent => h.noted old hold (by linarith)

theorem Kept.selected (h : history.Kept dropped clock) (hnow : clock ≤ now)
    (route : PeerRouteContext) (decision : Decision) :
    (history.selected route decision now).Kept (dropped ++ history.overflow) now := by
  unfold DiagnosticHistory.selected
  extract_lets counted
  have hcounted : counted.Kept dropped clock ∧ counted.overflow = history.overflow := by
    show Kept (if _ then _ else _) dropped clock ∧ overflow (if _ then _ else _) = _
    by_cases hblocked : decision = .blockedNoRoute ∨ decision = .blockedCooldown
    · rw [if_pos hblocked]
      exact ⟨{ h with }, rfl⟩
    · rw [if_neg hblocked]
      cases hroute : history.routes.lookup route.key with
      | none => exact ⟨h, rfl⟩
      | some retained =>
        exact ⟨{ h with few := h.few.insert hroute _ now }, rfl⟩
  rw [← hcounted.2]
  exact hcounted.1.record hnow route decision

theorem Kept.observe {η : Type} (h : history.Kept dropped clock) (hnow : clock ≤ now)
    (observation : Observation η) : (history.observe observation now).Kept dropped now := by
  unfold DiagnosticHistory.observe
  cases hroute : history.routes.lookup observation.route.key with
  | none => exact h.later hnow
  | some retained =>
    obtain ⟨hlength, hordered, hpast, hbefore, hnoted, hfell, hfew⟩ := h.later hnow
    exact ⟨hlength, hordered, hpast, hbefore, hnoted, hfell, hfew.insert hroute _ now⟩

/-! ### Current routes -/

def SameRoutes (history history' : DiagnosticHistory) : Prop :=
  ∀ key, (history'.routes.lookup key).map RetainedRoute.current =
    (history.routes.lookup key).map RetainedRoute.current

theorem sameRoutes_insert (h : routes.lookup key = some route) (value : RouteDiagnostics)
    (now : Time) (key' : RouteKey) :
    ((AList.insert key { route with touched := now, value := value } routes).lookup key').map
      RetainedRoute.current = (routes.lookup key').map RetainedRoute.current := by
  rw [Table.lookup_insert_eq]
  split_ifs with hkey
  · rw [hkey, h]
    rfl
  · rfl

theorem sameRoutes_selected (history : DiagnosticHistory) (route : PeerRouteContext)
    (decision : Decision) (now : Time) :
    history.SameRoutes (history.selected route decision now) := by
  intro key
  have hrecord : ∀ counted : DiagnosticHistory,
      (counted.record now route decision).routes = counted.routes := by
    intro counted
    unfold record
    extract_lets event
    split_ifs
    · rfl
    · rfl
  unfold selected
  rw [hrecord]
  by_cases hblocked : decision = .blockedNoRoute ∨ decision = .blockedCooldown
  · rw [if_pos hblocked]
  · rw [if_neg hblocked]
    cases hroute : history.routes.lookup route.key with
    | none => rfl
    | some retained => exact sameRoutes_insert hroute _ now key

theorem sameRoutes_observe {η : Type} (history : DiagnosticHistory) (observation : Observation η)
    (now : Time) : history.SameRoutes (history.observe observation now) := by
  intro key
  unfold observe
  cases hroute : history.routes.lookup observation.route.key with
  | none => rfl
  | some retained => exact sameRoutes_insert hroute _ now key

end DiagnosticHistory

end Qbutt.Net
