import Qbutt.Browser.Equiv.Books

/-!
# Browser requests are answered once and by their own connection

The invariant of the broker has two parts.  `Books.Sound` is about the requests.  `Registered` is about
the connections: pending requests belong to connections that said hello, no browser has two, and the
status lists them.
-/

namespace Qbutt.Browser

open List

variable {ν ρ : Type} {env : Env ν ρ}

namespace State

/-! ### Answers -/

/-- The part of the state that answering requests does not touch. -/
def ground (s : State ν ρ) : Table ℕ Client × ℕ × BrowserStatus × Bool :=
  (s.clients, s.nextConnection, s.status, s.running)

theorem ground_settle (s : State ν ρ) (id : ℕ)
    (result : Pending → Except BrowserError (Outcome ρ)) : (s.settle id result).ground = s.ground := by
  unfold settle
  split <;> rfl

theorem pending_settle (s : State ν ρ) (id : ℕ)
    (result : Pending → Except BrowserError (Outcome ρ)) (id' : ℕ) :
    (s.settle id result).pending.lookup id' =
      if id' = id then none else s.pending.lookup id' := by
  unfold settle
  split
  · rename_i hnone
    split_ifs with heq
    · rw [heq, hnone]
    · rfl
  · exact Table.lookup_erase_eq _ _ _

variable {s s' : State ν ρ} {hands : List Request} {connection id c : ℕ}
  {result : Pending → Except BrowserError (Outcome ρ)}
  {metadata : BrowserConnection} {request : Request}

theorem books_settle (h : s.books.Sound hands)
    (hok : ∀ p outcome, s.pending.lookup id = some p → result p = .ok outcome →
      s.books.Answered p.request.caller outcome) : (s.settle id result).books.Sound hands := by
  unfold settle
  split
  · exact h
  · rename_i p hp
    exact (h.drop hp).answer fun outcome houtcome => hok p outcome hp houtcome

theorem settleAll_spec (s : State ν ρ) (ids : List ℕ) (error : BrowserError) :
    (s.settleAll ids error).ground = s.ground ∧
      (∀ id, (s.settleAll ids error).pending.lookup id =
        if id ∈ ids then none else s.pending.lookup id) ∧
      ∀ hands, s.books.Sound hands → (s.settleAll ids error).books.Sound hands := by
  induction ids generalizing s with
  | nil => exact ⟨rfl, fun _ => rfl, fun _ h => h⟩
  | cons id ids ih =>
    obtain ⟨hground, hpending, hbooks⟩ := ih (s.settle id fun _ => .error error)
    have hfold : s.settleAll (id :: ids) error =
        (s.settle id fun _ => .error error).settleAll ids error := rfl
    rw [hfold]
    refine ⟨hground.trans (ground_settle s id _), fun id' => ?_, fun hands h => ?_⟩
    · rw [hpending, pending_settle]
      by_cases hid : id' = id
      · simp [hid]
      · simp [hid]
    · exact hbooks hands (books_settle h fun p outcome _ heq => by cases heq)

/-! ### Disconnecting -/

structure Disconnected (connection : ℕ) (s s' : State ν ρ) : Prop where
  clients : s'.clients = s.clients.erase connection
  pending : ∀ id, s'.pending.lookup id =
    (s.pending.lookup id).filter fun p => p.connection ≠ connection
  nextConnection : s'.nextConnection = s.nextConnection
  status : s'.status = s.status
  running : s'.running = s.running
  books : ∀ hands, s.books.Sound hands → s'.books.Sound hands

theorem erase_of_absent {t : Table ℕ Client} (h : t.lookup connection = none) :
    t.erase connection = t := by
  have hnot : connection ∉ t.keys := fun hmem => AList.lookup_eq_none.mp h hmem
  exact AList.ext (kerase_of_notMem_keys hnot)

theorem release_spec (s : State ν ρ) (connection : ℕ) :
    (s.release connection).clients = s.clients.erase connection ∧
      (s.release connection).pending = s.pending ∧
      (s.release connection).nextConnection = s.nextConnection ∧
      (s.release connection).status = s.status ∧ (s.release connection).running = s.running ∧
      (s.release connection).books = s.books := by
  unfold release
  cases hclient : s.clients.lookup connection with
  | none => exact ⟨(erase_of_absent hclient).symm, rfl, rfl, rfl, rfl, rfl⟩
  | some client => exact ⟨rfl, rfl, rfl, rfl, rfl, rfl⟩

theorem mem_affected :
    id ∈ (s.pending.ordered.filter fun entry => entry.2.connection = connection).map Prod.fst ↔
      ∃ p, s.pending.lookup id = some p ∧ p.connection = connection := by
  rw [mem_map]
  constructor
  · rintro ⟨⟨id', p⟩, hmem, rfl⟩
    obtain ⟨hmem, hconnection⟩ := mem_filter.mp hmem
    exact ⟨p, Table.mem_ordered.mp hmem, of_decide_eq_true hconnection⟩
  · rintro ⟨p, hp, hconnection⟩
    exact ⟨(id, p), mem_filter.mpr ⟨Table.mem_ordered.mpr hp, decide_eq_true hconnection⟩, rfl⟩

theorem disconnect_spec (s : State ν ρ) (connection : ℕ) :
    Disconnected connection s (s.disconnect connection) := by
  obtain ⟨hclients, hpending, hnext, hstatus, hrunning, hbooks⟩ := release_spec s connection
  obtain ⟨hground, hlookup, hsound⟩ := settleAll_spec (s.release connection)
    (((s.release connection).pending.ordered.filter fun entry =>
      entry.2.connection = connection).map Prod.fst) .disconnected
  have hground' : (s.disconnect connection).ground = (s.release connection).ground := hground
  simp only [ground, Prod.mk.injEq] at hground'
  obtain ⟨hclients', hnext', hstatus', hrunning'⟩ := hground'
  constructor
  case clients => rw [hclients', hclients]
  case pending =>
    intro id
    have hsettled : (s.disconnect connection).pending.lookup id = _ := hlookup id
    rw [hsettled]
    cases hp : s.pending.lookup id with
    | none =>
      rw [hpending, hp, ite_self]
      rfl
    | some p =>
      by_cases hconnection : p.connection = connection
      · rw [if_pos (mem_affected.mpr ⟨p, hpending ▸ hp, hconnection⟩)]
        simp [Option.filter, hconnection]
      · rw [if_neg]
        · simp [Option.filter, hpending, hp, hconnection]
        · intro hin
          obtain ⟨p', hp', hconnection'⟩ := mem_affected.mp hin
          rw [hpending, hp] at hp'
          cases hp'
          exact hconnection hconnection'
  case nextConnection => rw [hnext', hnext]
  case status => rw [hstatus', hstatus]
  case running => rw [hrunning', hrunning]
  case books => exact fun hands h => hsound hands (hbooks ▸ h)

/-! ### The connections -/

/-- The connections are in order: pending requests belong to connections that said hello, no browser
has two such connections, and new connections get new numbers. -/
structure Registered (s : State ν ρ) : Prop where
  greeted : ∀ id p, s.pending.lookup id = some p → (s.metadataOf p.connection).isSome = true
  unique : ∀ connection metadata connection' metadata',
    s.metadataOf connection = some metadata → s.metadataOf connection' = some metadata' →
    metadata.browser = metadata'.browser → connection = connection'
  fresh : ∀ connection, (s.clients.lookup connection).isSome = true →
    connection ≤ s.nextConnection

structure Published (s : State ν ρ) : Prop where
  connections : s.status.connections = s.connections
  stopped : s.status.stopped = !s.running

theorem metadataOf_erase (h : s'.clients = s.clients.erase connection) (connection' : ℕ) :
    s'.metadataOf connection' =
      if connection' = connection then none else s.metadataOf connection' := by
  unfold metadataOf
  rw [h, Table.lookup_erase_eq]
  split_ifs <;> rfl

theorem Disconnected.registered (h : Disconnected connection s s') (hr : s.Registered) :
    s'.Registered := by
  have hmetadata := metadataOf_erase h.clients
  constructor
  case greeted =>
    intro id p hp
    rw [h.pending] at hp
    obtain ⟨hp, hne⟩ := Option.filter_eq_some_iff.mp hp
    rw [hmetadata, if_neg (of_decide_eq_true hne)]
    exact hr.greeted id p hp
  case unique =>
    intro c m c' m' hm hm' hbrowser
    rw [hmetadata] at hm hm'
    split_ifs at hm hm'
    exact hr.unique c m c' m' hm hm' hbrowser
  case fresh =>
    intro c hc
    rw [h.nextConnection]
    rw [h.clients, Table.lookup_erase_eq] at hc
    split_ifs at hc
    · cases hc
    · exact hr.fresh c hc

/-- A state with the same connections and pending requests of connections that said hello. -/
theorem Registered.pend (hr : s.Registered) (hclients : s'.clients = s.clients)
    (hnext : s'.nextConnection = s.nextConnection)
    (hpending : ∀ id p, s'.pending.lookup id = some p →
      s.pending.lookup id = some p ∨ (s.metadataOf p.connection).isSome = true) :
    s'.Registered := by
  have hmetadata : ∀ c, s'.metadataOf c = s.metadataOf c := by
    intro c
    unfold metadataOf
    rw [hclients]
  constructor
  case greeted =>
    intro id p hp
    rw [hmetadata]
    rcases hpending id p hp with hold | hgreeted
    · exact hr.greeted id p hold
    · exact hgreeted
  case unique =>
    intro c m c' m' hm hm'
    rw [hmetadata] at hm hm'
    exact hr.unique c m c' m' hm hm'
  case fresh =>
    intro c hc
    rw [hnext]
    rw [hclients] at hc
    exact hr.fresh c hc

theorem Registered.shrink (hr : s.Registered) (hclients : s'.clients = s.clients)
    (hnext : s'.nextConnection = s.nextConnection)
    (hpending : ∀ id p, s'.pending.lookup id = some p → s.pending.lookup id = some p) :
    s'.Registered :=
  hr.pend hclients hnext fun id p hp => .inl (hpending id p hp)

theorem Published.same (hp : s.Published) (hclients : s'.clients = s.clients)
    (hstatus : s'.status = s.status) (hrunning : s'.running = s.running) : s'.Published := by
  constructor
  case connections =>
    unfold State.connections
    rw [hstatus, hclients]
    exact hp.connections
  case stopped =>
    rw [hstatus, hrunning]
    exact hp.stopped

theorem published_publishStatus (h : s.running = true) : s.publishStatus.Published := by
  constructor
  case connections => rfl
  case stopped =>
    simp only [publishStatus]
    rw [h]
    rfl

/-! ### The invariant -/

structure InOrder (hands : List Request) (s : State ν ρ) : Prop where
  books : s.books.Sound hands
  registered : s.Registered

theorem InOrder.disconnect (h : s.InOrder hands) (connection : ℕ) :
    (s.disconnect connection).InOrder hands :=
  ⟨(disconnect_spec s connection).books hands h.books,
    (disconnect_spec s connection).registered h.registered⟩

theorem InOrder.publishStatus (h : s.InOrder hands) : s.publishStatus.InOrder hands :=
  ⟨h.books, h.registered.shrink rfl rfl fun _ _ hp => hp⟩

theorem InOrder.answer {r : Request} (h : s.InOrder (r :: hands)) {error : BrowserError} :
    (s.answer r.caller (.error error)).InOrder hands :=
  ⟨h.books.answer (fun outcome heq => by cases heq),
    h.registered.shrink rfl rfl fun _ _ hp => hp⟩

theorem InOrder.settle (h : s.InOrder hands)
    (hok : ∀ p outcome, s.pending.lookup id = some p → result p = .ok outcome →
      s.books.Answered p.request.caller outcome) : (s.settle id result).InOrder hands := by
  have hground := ground_settle s id result
  simp only [ground, Prod.mk.injEq] at hground
  refine ⟨books_settle h.books hok, h.registered.shrink hground.1 hground.2.1 fun id' p hp => ?_⟩
  rw [pending_settle] at hp
  split_ifs at hp
  exact hp

/-- Sending touches the queues only. -/
theorem trySend_eq {message : WireMessage} (h : s.trySend connection message = some s') :
    ∃ tasks, s' = { s with tasks := tasks } := by
  unfold trySend at h
  split at h
  · cases h
  · split_ifs at h
    cases h
    exact ⟨_, rfl⟩

/-! ### The sweep -/

theorem InOrder.drop (h : s.InOrder hands) {p : Pending} (hp : s.pending.lookup id = some p) :
    InOrder (p.request :: hands) { s with pending := s.pending.erase id } := by
  refine ⟨h.books.drop hp, h.registered.shrink rfl rfl fun id' p' hp' => ?_⟩
  rw [Table.lookup_erase_eq] at hp'
  split_ifs at hp'
  exact hp'

theorem InOrder.withTasks (h : s.InOrder hands) (tasks : Table ℕ Task) :
    InOrder hands { s with tasks := tasks } :=
  ⟨h.books, h.registered.shrink rfl rfl fun _ _ hp => hp⟩

theorem cancel_spec (h : s.InOrder hands) (hp : s.Published) (hrunning : s.running = true)
    (connection id : ℕ) :
    (s.cancel connection id).InOrder hands ∧ (s.cancel connection id).Published ∧
      (s.cancel connection id).running = true := by
  unfold cancel
  split
  · exact ⟨h, hp, hrunning⟩
  · split
    · have hstill : (s.disconnect connection).running = true :=
        (disconnect_spec s connection).running.trans hrunning
      exact ⟨(h.disconnect connection).publishStatus, published_publishStatus hstill, hstill⟩
    · rename_i hsend
      obtain ⟨tasks, rfl⟩ := trySend_eq hsend
      exact ⟨h.withTasks tasks, hp.same rfl rfl rfl, hrunning⟩

theorem sweepOne_spec (h : s.InOrder []) (hp : s.Published) (hrunning : s.running = true) (id : ℕ) :
    (s.sweepOne id).InOrder [] ∧ (s.sweepOne id).Published ∧ (s.sweepOne id).running = true := by
  unfold sweepOne
  split
  · exact ⟨h, hp, hrunning⟩
  · rename_i p hlookup
    have hsame : Published { s with pending := s.pending.erase id } := hp.same rfl rfl rfl
    obtain ⟨h', hp', hrunning'⟩ :=
      cancel_spec (h.drop hlookup) hsame hrunning p.connection id
    exact ⟨h'.answer, hp'.same rfl rfl rfl, hrunning'⟩

theorem sweep_spec (h : s.InOrder []) (hp : s.Published) (hrunning : s.running = true)
    (clock : ℕ → ℕ) :
    (s.sweep clock).InOrder [] ∧ (s.sweep clock).Published ∧ (s.sweep clock).running = true := by
  unfold sweep
  generalize ((s.pending.ordered.filter fun entry =>
    entry.2.request.caller ∈ s.gone || entry.2.request.deadline ≤ clock entry.1).map Prod.fst) = ids
  induction ids generalizing s with
  | nil => exact ⟨h, hp, hrunning⟩
  | cons id ids ih =>
    obtain ⟨h', hp', hrunning'⟩ := sweepOne_spec h hp hrunning id
    exact ih h' hp' hrunning'

/-! ### Connections come and go -/

theorem filterMap_orderedInsert {α β : Type} {r : α → α → Prop} [DecidableRel r] {f : α → Option β}
    {a : α} (ha : f a = none) (l : List α) :
    (l.orderedInsert r a).filterMap f = l.filterMap f := by
  induction l with
  | nil => simp [ha]
  | cons b l ih =>
    rw [orderedInsert_cons]
    split_ifs
    · rw [filterMap_cons, ha]
    · rw [filterMap_cons, filterMap_cons, ih]

theorem lookup_next (h : s.Registered) : s.clients.lookup (s.nextConnection + 1) = none := by
  cases hlookup : s.clients.lookup (s.nextConnection + 1) with
  | none => rfl
  | some client =>
    have hle := h.fresh (s.nextConnection + 1) (by rw [hlookup]; rfl)
    omega

theorem connections_insert (hfresh : s.clients.lookup connection = none)
    (h : s'.clients = s.clients.insert connection { metadata := none }) :
    s'.connections = s.connections := by
  have hnot : connection ∉ s.clients := AList.lookup_eq_none.mp hfresh
  unfold State.connections Table.ordered
  rw [h, AList.entries_insert_of_notMem hnot]
  exact filterMap_orderedInsert rfl _

/-- A new connection has not said hello, so nothing is published about it. -/
theorem accept_spec (h : s.InOrder []) (hp : s.Published) (hs' : s.accept = .sweep s') :
    s'.InOrder [] ∧ s'.Published ∧ s'.running = s.running := by
  cases hs'
  have hfresh := lookup_next h.registered
  have hlookup : ∀ c, (s.clients.insert (s.nextConnection + 1) { metadata := none }).lookup c =
      if c = s.nextConnection + 1 then some { metadata := none } else s.clients.lookup c :=
    fun c => Table.lookup_insert_eq _ _ _ _
  have hmetadata : ∀ c, ((s.clients.insert (s.nextConnection + 1)
      { metadata := none }).lookup c).bind Client.metadata = s.metadataOf c := by
    intro c
    rw [hlookup, metadataOf]
    split_ifs with heq
    · rw [heq, hfresh]
      rfl
    · rfl
  refine ⟨⟨h.books, ?_⟩, ?_, rfl⟩
  · constructor
    case greeted =>
      intro id p hpending
      have hgreeted := h.registered.greeted id p hpending
      rw [← hmetadata] at hgreeted
      exact hgreeted
    case unique =>
      intro c m c' m' hm hm'
      exact h.registered.unique c m c' m' ((hmetadata c).symm.trans hm) ((hmetadata c').symm.trans hm')
    case fresh =>
      intro c hc
      have hc' : ((s.clients.insert (s.nextConnection + 1) { metadata := none }).lookup c).isSome =
          true := hc
      rw [hlookup] at hc'
      split_ifs at hc' with heq
      · exact heq.le
      · exact (h.registered.fresh c hc').trans (Nat.le_succ _)
  · constructor
    case connections => exact hp.connections.trans (connections_insert hfresh rfl).symm
    case stopped => exact hp.stopped

theorem foldl_disconnect (h : s.InOrder hands) (ids : List ℕ) :
    (ids.foldl disconnect s).InOrder hands ∧
      (ids.foldl disconnect s).running = s.running ∧
      (ids.foldl disconnect s).nextConnection = s.nextConnection ∧
      ∀ c, (ids.foldl disconnect s).clients.lookup c =
        if c ∈ ids then none else s.clients.lookup c := by
  induction ids generalizing s with
  | nil => exact ⟨h, rfl, rfl, fun _ => rfl⟩
  | cons id ids ih =>
    have hspec := disconnect_spec s id
    obtain ⟨h', hrunning, hnext, hclients⟩ := ih (h.disconnect id)
    refine ⟨h', hrunning.trans hspec.running, hnext.trans hspec.nextConnection, fun c => ?_⟩
    rw [foldl_cons, hclients, hspec.clients, Table.lookup_erase_eq]
    by_cases hc : c = id
    · simp [hc]
    · simp [hc]

/-- The state between two turns of the loop. -/
structure Steady (s : State ν ρ) : Prop where
  inOrder : s.InOrder []
  published : s.Published
  running : s.running = true

/-- A branch ends in a steady state, or in one that is in order when it leaves the loop. -/
def Flow.Steady : Flow ν ρ → Prop
  | .again s => s.Steady
  | .sweep s => s.Steady
  | .leave s => s.InOrder []

theorem mem_replaced :
    c ∈ (s.clients.ordered.filter fun entry =>
      entry.1 ≠ connection && entry.2.metadata.any fun old =>
        old.browser = metadata.browser).map Prod.fst ↔
      c ≠ connection ∧ ∃ old, s.metadataOf c = some old ∧ old.browser = metadata.browser := by
  rw [mem_map]
  constructor
  · rintro ⟨⟨c', client⟩, hmem, rfl⟩
    obtain ⟨hmem, hcond⟩ := mem_filter.mp hmem
    simp only [Bool.and_eq_true, decide_eq_true_eq, Option.any_eq_true] at hcond
    obtain ⟨hne, old, hold, hbrowser⟩ := hcond
    refine ⟨hne, old, ?_, hbrowser⟩
    rw [metadataOf, Table.mem_ordered.mp hmem, Option.bind_some, hold]
  · rintro ⟨hne, old, hold, hbrowser⟩
    obtain ⟨client, hclient, hmetadata⟩ := Option.bind_eq_some_iff.mp hold
    refine ⟨(c, client), mem_filter.mpr ⟨Table.mem_ordered.mpr hclient, ?_⟩, rfl⟩
    simp only [Bool.and_eq_true, decide_eq_true_eq, Option.any_eq_true]
    exact ⟨hne, old, hmetadata, hbrowser⟩

theorem Registered.greet (h : s.Registered) (hclient : (s.clients.lookup connection).isSome = true)
    (hnone : ∀ c old, c ≠ connection → s.metadataOf c = some old → old.browser ≠ metadata.browser)
    (hclients : s'.clients = s.clients.insert connection { metadata := some metadata })
    (hpending : s'.pending = s.pending) (hnext : s'.nextConnection = s.nextConnection) :
    s'.Registered := by
  have hmetadata : ∀ c, s'.metadataOf c = if c = connection then some metadata
      else s.metadataOf c := by
    intro c
    unfold metadataOf
    rw [hclients, Table.lookup_insert_eq]
    split_ifs <;> rfl
  constructor
  case greeted =>
    intro id p hp
    rw [hpending] at hp
    rw [hmetadata]
    split_ifs
    · rfl
    · exact h.greeted id p hp
  case unique =>
    intro c m c' m' hm hm' hbrowser
    rw [hmetadata] at hm hm'
    split_ifs at hm hm' with hc hc' hc'
    · rw [hc, hc']
    · cases hm
      exact absurd hbrowser.symm (hnone c' m' hc' hm')
    · cases hm'
      exact absurd hbrowser (hnone c m hc hm)
    · exact h.unique c m c' m' hm hm' hbrowser
  case fresh =>
    intro c hc
    rw [hnext]
    rw [hclients, Table.lookup_insert_eq] at hc
    split_ifs at hc with heq
    · exact h.fresh c (heq ▸ hclient)
    · exact h.fresh c hc

theorem onHello_spec (h : s.Steady) (connection : ℕ) (metadata : BrowserConnection) :
    (s.onHello connection metadata).Steady := by
  unfold onHello
  split
  · exact h
  · rename_i client hclient
    generalize hids : ((s.clients.ordered.filter fun entry =>
      entry.1 ≠ connection && entry.2.metadata.any fun old =>
        old.browser = metadata.browser).map Prod.fst) = ids
    obtain ⟨h', hrunning, hnext, hclients⟩ := foldl_disconnect h.inOrder ids
    have hmem : ∀ c, c ∈ ids ↔ c ≠ connection ∧
        ∃ old, s.metadataOf c = some old ∧ old.browser = metadata.browser :=
      fun c => hids ▸ mem_replaced
    have hkept : ((ids.foldl disconnect s).clients.lookup connection).isSome = true := by
      rw [hclients, if_neg fun hin => ((hmem connection).mp hin).1 rfl, hclient]
      rfl
    have hnone : ∀ c old, c ≠ connection → (ids.foldl disconnect s).metadataOf c = some old →
        old.browser ≠ metadata.browser := by
      intro c old hne hold hbrowser
      unfold metadataOf at hold
      rw [hclients] at hold
      split_ifs at hold with hin
      · cases hold
      · exact hin ((hmem c).mpr ⟨hne, old, hold, hbrowser⟩)
    have hregistered : Registered (publishStatus { ids.foldl disconnect s with
        clients := (ids.foldl disconnect s).clients.insert connection
          { metadata := some metadata } }) :=
      h'.registered.greet hkept hnone rfl rfl rfl
    have hstill : (ids.foldl disconnect s).running = true := hrunning.trans h.running
    exact ⟨⟨h'.books, hregistered⟩, published_publishStatus hstill, hstill⟩

/-- A response ends its request if it comes from the connection that the command was sent to. -/
theorem onResponse_spec (h : s.Steady) (connection id : ℕ) (payload : Payload ν) :
    (onResponse env s connection id payload).Steady := by
  unfold onResponse
  split
  · exact h
  · rename_i p hp
    split_ifs with hne
    · exact h
    · have hconnection : p.connection = connection := of_not_not hne
      have hregistered : (s.clients.lookup connection).isSome = true := by
        have hgreeted := h.inOrder.registered.greeted id p hp
        rw [hconnection] at hgreeted
        cases hclient : s.clients.lookup connection with
        | none =>
          rw [metadataOf, hclient] at hgreeted
          cases hgreeted
        | some client => rfl
      obtain ⟨sent, hsent, hid, hto, hrequest⟩ := h.inOrder.books.pendingSent id p hp
      have hheard : InOrder [] { s with
          heard := s.heard ++ [{
            connection := connection
            id := id
            registered := (s.clients.lookup connection).isSome }] } :=
        ⟨h.inOrder.books.hear _, h.inOrder.registered.shrink rfl rfl fun _ _ hp => hp⟩
      have hanswered : ∀ p' outcome, s.pending.lookup id = some p' →
          resultOf env connection p' payload = .ok outcome →
          (State.books { s with
            heard := s.heard ++ [{
              connection := connection
              id := id
              registered := (s.clients.lookup connection).isSome }] }).Answered
            p'.request.caller outcome := by
        intro p' outcome hp' hok
        obtain rfl : p = p' := Option.some.inj (hp.symm.trans hp')
        have hidentity : outcome.identity = connection := by
          cases payload with
          | error error => cases hok
          | result value =>
            simp only [resultOf, Except.map] at hok
            split at hok
            · cases hok
            · cases hok
              rfl
        exact ⟨sent, hsent, by rw [hrequest], hidentity.trans (hconnection.symm.trans hto.symm), _,
          mem_append_right _ mem_cons_self, hconnection.symm.trans hto.symm, hid.symm,
          hregistered⟩
      have hground := ground_settle { s with
        heard := s.heard ++ [{
          connection := connection
          id := id
          registered := (s.clients.lookup connection).isSome }] } id
        fun request => resultOf env connection request payload
      simp only [ground, Prod.mk.injEq] at hground
      exact ⟨hheard.settle hanswered, h.published.same hground.1 hground.2.2.1 hground.2.2.2,
        hground.2.2.2.trans h.running⟩

/-! ### Requests -/

theorem mem_connected {browser : BrowserId} :
    (c, browser) ∈ (s.clients.ordered.filterMap fun entry =>
        entry.2.metadata.map fun metadata => (entry.1, metadata.browser)) ↔
      ∃ metadata, s.metadataOf c = some metadata ∧ metadata.browser = browser := by
  rw [mem_filterMap]
  constructor
  · rintro ⟨⟨c', client⟩, hmem, heq⟩
    obtain ⟨metadata, hmetadata, heq⟩ := Option.map_eq_some_iff.mp heq
    cases heq
    refine ⟨metadata, ?_, rfl⟩
    rw [metadataOf, Table.mem_ordered.mp hmem, Option.bind_some, hmetadata]
  · rintro ⟨metadata, hmetadata, rfl⟩
    obtain ⟨client, hclient, hmetadata⟩ := Option.bind_eq_some_iff.mp hmetadata
    exact ⟨(c, client), Table.mem_ordered.mpr hclient, by simp only [hmetadata, Option.map_some]⟩

/-- A chosen connection said hello. -/
theorem choose_spec {choice : BrowserChoice} (h : choose choice s.clients = .ok c) :
    (s.metadataOf c).isSome = true := by
  have hfound : ∀ browser, (c, browser) ∈ (s.clients.ordered.filterMap fun entry =>
      entry.2.metadata.map fun metadata => (entry.1, metadata.browser)) →
      (s.metadataOf c).isSome = true := by
    intro browser hmem
    obtain ⟨metadata, hmetadata, -⟩ := mem_connected.mp hmem
    rw [hmetadata]
    rfl
  unfold choose at h
  cases choice with
  | auto =>
    simp only at h
    split at h
    · rename_i id browser heq
      cases h
      exact hfound browser (heq ▸ mem_cons_self)
    · cases h
    · cases h
  | edge =>
    simp only at h
    split at h
    · cases h
    · rename_i entry heq
      cases h
      exact hfound entry.2 (mem_of_find?_eq_some heq)
  | chrome =>
    simp only at h
    split at h
    · cases h
    · rename_i entry heq
      cases h
      exact hfound entry.2 (mem_of_find?_eq_some heq)

theorem select_spec (h : s.select request = .ok c) :
    (s.metadataOf c).isSome = true ∧
      ∀ chosen, request.connection = some chosen → c = chosen := by
  unfold select at h
  split at h
  · rename_i connection hconnection
    split_ifs at h with hsome
    cases h
    exact ⟨hsome, fun chosen heq => Option.some.inj (hconnection.symm.trans heq)⟩
  · rename_i hconnection
    exact ⟨choose_spec h, fun chosen heq => by rw [hconnection] at heq; cases heq⟩

/-- A request in hand is sent, or refused with an error. -/
theorem dispatch_spec (h : s.InOrder [request]) (hp : s.Published) (hrunning : s.running = true)
    (hmetadata : s.metadataOf connection = some metadata)
    (hchosen : ∀ chosen, request.connection = some chosen → connection = chosen)
    (hfew : s.pending.size < 16) : (s.dispatch request connection metadata).Steady := by
  unfold dispatch
  split_ifs with hlast
  · exact h.answer
  · have hid : s.nextRequest < maxId := not_le.mp hlast
    have hnumbered : InOrder [request] { s with nextRequest := s.nextRequest + 1 } :=
      ⟨{ h.books with
          sentRange := fun sent hsent =>
            ⟨(h.books.sentRange sent hsent).1,
              (h.books.sentRange sent hsent).2.trans (Nat.le_succ _)⟩
          range := hid },
        h.registered.shrink rfl rfl fun _ _ hp => hp⟩
    simp only
    split
    · have hstill : (disconnect (answer { s with nextRequest := s.nextRequest + 1 } request.caller
          (.error .disconnected)) connection).running = true :=
        (disconnect_spec _ connection).running.trans hrunning
      exact ⟨(hnumbered.answer.disconnect connection).publishStatus, published_publishStatus hstill,
        hstill⟩
    · rename_i hsend
      obtain ⟨tasks, rfl⟩ := trySend_eq hsend
      refine ⟨⟨h.books.send hid hfew hchosen, ?_⟩, hp.same rfl rfl rfl, hrunning⟩
      refine h.registered.pend rfl rfl fun id p hlookup => ?_
      have hinsert : (s.pending.insert (s.nextRequest + 1)
          { connection := connection, metadata := metadata, request := request }).lookup id =
          some p := hlookup
      rw [Table.lookup_insert_eq] at hinsert
      split_ifs at hinsert
      · cases hinsert
        exact .inr (hmetadata ▸ rfl)
      · exact .inl hinsert

/-- A request from the queue is answered, sent, or dropped because its caller is gone. -/
theorem onRequest_spec (h : s.InOrder [request]) (hp : s.Published) (hrunning : s.running = true)
    (now : ℕ) : (s.onRequest request now).Steady := by
  have hrefused : ∀ error, (s.answer request.caller (.error error)).Steady :=
    fun error => ⟨h.answer, hp.same rfl rfl rfl, hrunning⟩
  unfold onRequest
  by_cases hgone : request.caller ∈ s.gone
  · rw [if_pos hgone]
    exact ⟨⟨h.books.abandon hgone, h.registered⟩, hp, hrunning⟩
  by_cases hlate : request.deadline ≤ now
  · rw [if_neg hgone, if_pos hlate]
    exact hrefused .timeout
  rw [if_neg hgone, if_neg hlate]
  split
  · exact hrefused _
  · rename_i connection hselect
    obtain ⟨hgreeted, hchosen⟩ := select_spec hselect
    by_cases hbusy : 16 ≤ s.pending.size
    · rw [if_pos hbusy]
      exact hrefused .busy
    · rw [if_neg hbusy]
      split
      · rename_i hnone
        rw [hnone] at hgreeted
        cases hgreeted
      · rename_i metadata hmetadata
        split_ifs
        · exact hrefused .updateRequired
        · exact dispatch_spec h hp hrunning hmetadata hchosen (not_le.mp hbusy)

/-! ### Whole turns -/

theorem onJoin_spec (h : s.Steady) (connection : ℕ) : (s.onJoin connection).Steady := by
  have hjoined : InOrder [] { s with tasks := s.tasks.erase connection } :=
    h.inOrder.withTasks _
  have hstill : (disconnect { s with tasks := s.tasks.erase connection } connection).running =
      true :=
    (disconnect_spec _ connection).running.trans h.running
  exact ⟨(hjoined.disconnect connection).publishStatus, published_publishStatus hstill, hstill⟩

theorem Steady.withReceived (h : s.Steady) (received : List (Event ν)) :
    Steady { s with received := received } :=
  ⟨⟨h.inOrder.books, h.inOrder.registered.shrink rfl rfl fun _ _ hp => hp⟩,
    h.published.same rfl rfl rfl, h.running⟩

theorem branch_spec (h : s.Steady) {b : Branch} {flow : Flow ν ρ}
    (hb : s.branch env b = some flow) : flow.Steady := by
  cases b with
  | accepted =>
    simp only [branch] at hb
    split_ifs at hb
    cases hb
    obtain ⟨horder, hpublished, hrunning⟩ := accept_spec h.inOrder h.published rfl
    exact ⟨horder, hpublished, hrunning.trans h.running⟩
  | acceptFailed =>
    simp only [branch] at hb
    split_ifs at hb
    cases hb
    exact h.inOrder
  | event =>
    simp only [branch] at hb
    split at hb
    · cases hb
    · cases hb
      exact onHello_spec (h.withReceived _) _ _
    · cases hb
      exact onResponse_spec (h.withReceived _) _ _ _
  | joined connection =>
    simp only [branch] at hb
    split at hb
    · cases hb
    · split_ifs at hb
      cases hb
      exact onJoin_spec h connection
  | joinFailed =>
    simp only [branch] at hb
    split_ifs at hb
    cases hb
    exact h.inOrder
  | request now =>
    simp only [branch] at hb
    split at hb
    · cases hb
    · rename_i request incoming hincoming
      cases hb
      have htaken : InOrder [request]
          { s with incoming := incoming, taken := s.taken ++ [request] } :=
        ⟨h.inOrder.books.take hincoming, h.inOrder.registered.shrink rfl rfl fun _ _ hp => hp⟩
      exact onRequest_spec htaken (h.published.same rfl rfl rfl) h.running now
  | canceled =>
    cases hb
    exact h
  | expiry =>
    cases hb
    exact h
  | stop =>
    simp only [branch] at hb
    split_ifs at hb
    cases hb
    exact h.inOrder

/-- The queued requests are taken and answered when the loop ends. -/
theorem drain_spec (requests : List Request)
    (h : Books.Sound [] { s.books with incoming := requests }) :
    Books.Sound [] { (requests.foldl (fun s request =>
        { s with taken := s.taken ++ [request] }.answer request.caller (.error .stopped)) s).books
      with incoming := [] } ∧
    (requests.foldl (fun s request =>
      { s with taken := s.taken ++ [request] }.answer request.caller (.error .stopped)) s).pending =
      s.pending := by
  induction requests generalizing s with
  | nil => exact ⟨h, rfl⟩
  | cons request rest ih =>
    have htaken := @Books.Sound.take ρ [] _ request h rest rfl
    have hanswered : Books.Sound [] { (State.answer { s with taken := s.taken ++ [request] }
        request.caller (.error .stopped)).books with incoming := rest } :=
      htaken.answer fun outcome heq => by cases heq
    exact ih hanswered

/-- The loop has ended: nothing is pending and no connection is registered. -/
structure Over (s : State ν ρ) : Prop where
  books : s.books.Sound []
  pending : ∀ id, s.pending.lookup id = none
  clients : s.clients = ∅
  status : s.status = { connections := [], stopped := true }
  running : s.running = false

theorem finish_spec (h : s.InOrder []) : s.finish.Over := by
  obtain ⟨hground, hpending, hbooks⟩ :=
    settleAll_spec s (s.pending.ordered.map Prod.fst) .stopped
  have hnone : ∀ id, (s.settleAll (s.pending.ordered.map Prod.fst) .stopped).pending.lookup id =
      none := by
    intro id
    rw [hpending]
    split_ifs with hin
    · rfl
    · cases hlookup : s.pending.lookup id with
      | none => rfl
      | some p =>
        exact absurd (mem_map.mpr ⟨(id, p), Table.mem_ordered.mpr hlookup, rfl⟩) hin
  obtain ⟨hsound, hsame⟩ :=
    drain_spec (s.settleAll (s.pending.ordered.map Prod.fst) .stopped).incoming
      (hbooks [] h.books)
  exact ⟨hsound, fun id => hsame ▸ hnone id, rfl, rfl, rfl⟩

/-- What holds in every reachable state. -/
def Sound (s : State ν ρ) : Prop := s.Steady ∨ s.Over

theorem complete_spec {flow : Flow ν ρ} (h : flow.Steady) (clock : ℕ → ℕ) :
    (complete clock flow).Sound := by
  cases flow with
  | again s => exact .inl h
  | sweep s =>
    obtain ⟨horder, hpublished, hrunning⟩ :=
      sweep_spec h.inOrder h.published h.running clock
    exact .inl ⟨horder, hpublished, hrunning⟩
  | leave s => exact .inr (finish_spec h)

/-- A step outside the loop changes queues, tasks and the list of callers. -/
theorem Sound.outside (h : s.Sound) (hbooks : s.books.Sound [] → s'.books.Sound [])
    (hpending : s'.pending = s.pending) (hground : s'.ground = s.ground) : s'.Sound := by
  simp only [ground, Prod.mk.injEq] at hground
  obtain ⟨hclients, hnext, hstatus, hrunning⟩ := hground
  rcases h with h | h
  · refine .inl ⟨⟨hbooks h.inOrder.books, ?_⟩, ?_, hrunning.trans h.running⟩
    · exact h.inOrder.registered.shrink hclients hnext fun _ _ hp => hpending ▸ hp
    · exact h.published.same hclients hstatus hrunning
  · exact .inr ⟨hbooks h.books, hpending ▸ h.pending, hclients.trans h.clients,
      hstatus.trans h.status, hrunning.trans h.running⟩

theorem step_sound {label : Label ν} (h : s.Sound) (hs : s.step env label = some s') :
    s'.Sound := by
  cases label with
  | turn b clock =>
    simp only [step] at hs
    split_ifs at hs with hrunning
    obtain ⟨flow, hflow, rfl⟩ := Option.map_eq_some_iff.mp hs
    rcases h with h | h
    · exact complete_spec (branch_spec h hflow) clock
    · rw [h.running] at hrunning
      cases hrunning
  | submit request =>
    simp only [step] at hs
    split_ifs at hs with hcond
    simp only [Bool.and_eq_true, decide_eq_true_eq] at hcond
    cases hs
    exact h.outside (fun hb => hb.submit hcond.2) rfl rfl
  | abandon caller =>
    cases hs
    exact h.outside (fun hb => hb.leave caller) rfl rfl
  | greeting connection hello =>
    simp only [step] at hs
    split at hs
    · cases hs
    · split_ifs at hs
      cases hs
      unfold receive
      split <;> exact h.outside id rfl rfl
  | frame connection response =>
    simp only [step] at hs
    split at hs
    · cases hs
    · split_ifs at hs
      cases hs
      unfold receive
      split <;> exact h.outside id rfl rfl
  | write connection =>
    simp only [step] at hs
    split at hs
    · cases hs
    · split at hs
      · cases hs
      · split_ifs at hs
        cases hs
        exact h.outside id rfl rfl
  | endTask connection =>
    simp only [step] at hs
    split at hs
    · cases hs
    · cases hs
      exact h.outside id rfl rfl
  | shutdown =>
    cases hs
    exact h.outside id rfl rfl

theorem sound_initial : Sound ({} : State ν ρ) := by
  have hempty : ∀ id, (∅ : Table ℕ Pending).lookup id = none := fun id => AList.lookup_empty id
  have hbooks : Books.Sound [] ({} : State ν ρ).books := by
    constructor
    case callers => exact nodup_nil
    case owedOnce => exact nodup_nil
    case sentOnce => exact nodup_nil
    case submitted => exact fun r hr => by cases hr
    case owedTaken => exact fun caller hcaller => by cases hcaller
    case handsTaken => exact fun r hr => by cases hr
    case settled => exact fun r hr => by cases hr
    case pendingOpen => exact fun id p hp => by cases hp
    case pendingTaken => exact fun id p hp => by cases hp
    case pendingOnce => exact fun id p _ _ hp => by cases hp
    case pendingSent => exact fun id p hp => by cases hp
    case pendingFew => exact Nat.zero_le 16
    case sentRange => exact fun sent hsent => by cases hsent
    case range => exact Nat.zero_le maxId
    case sentChosen => exact fun sent hsent => by cases hsent
    case answered => exact fun caller outcome hmem => by cases hmem
  refine .inl ⟨⟨hbooks, ?_⟩, ⟨rfl, rfl⟩, rfl⟩
  constructor
  case greeted => exact fun id p hp => by cases hp
  case unique => exact fun c m c' m' hm => by cases hm
  case fresh => exact fun c hc => by cases hc

theorem sound_of_reachable (h : (broker env).Reachable (fun _ _ => True) s) : s.Sound := by
  refine System.Reachable.invariant (I := Sound) ?_ ?_ h
  · intro s h0
    obtain rfl : s = {} := h0
    exact sound_initial
  · intro s label s' hsound _ hs
    exact step_sound hsound (show s.step env label = some s' from hs)

end State

/-! ### Every run -/

def sampleEnv : Env ℕ ℕ where
  isWhitespace c := c = ' '
  isControl c := c.toNat < 32
  reply _ value := .ok value

def sampleHello : Hello where
  kind := "hello"
  browser := .edge
  version := 1
  userAgent := "Mozilla/5.0"
  capabilities := ["vk-search"]

def sampleRequest : Request where
  caller := 0
  choice := .auto
  connection := none
  command := .cookies "https://a.example/"
  deadline := 30

/-- A browser connects and says hello, and answers the one request that is sent to it. -/
def sampleRun : List (State.Label ℕ) :=
  [.turn .accepted fun _ => 0,
    .greeting 1 sampleHello,
    .turn .event fun _ => 1,
    .submit sampleRequest,
    .turn (.request 2) fun _ => 2,
    .frame 1 { id := 1, result := some 7, error := none },
    .turn .event fun _ => 3]

end Qbutt.Browser
