import Mathlib.Data.Finset.Card

/-!
# The stored documents of the reader

`mutateDocument` lets the changes of one document wait for each other: each takes the promise that
the table holds for its path, leaves one of its own there, and removes that in the end unless
another change has replaced it.  The changes are those of `reader.open`, `reader.local` and
`reader.position`.

`Step` has one step for each part of a request between two points at which it waits.  Any of these
parts may fail.

* `positions_kept`: the order of the changes, what is stored of the positions, and the table.
* `changes_progress`: changes that wait do not block each other.
-/

namespace Qbutt.Reader

/-! ### Documents -/

structure ReaderPosition where
  chapterId : String
  offset : Option Rat
  imageIndex : Option ℕ
  deriving DecidableEq

structure ReaderDocument where
  id : String
  workId : Option String
  chapters : List String
  position : Option ReaderPosition
  deriving DecidableEq

/-- The parameters of `reader.position`: a number is undefined, refused, or has a value. -/
structure PositionParams where
  chapterId : String
  offset : Option (Option Rat)
  imageIndex : Option (Option ℕ)

inductive Operation where
  /-- `reader.local`, and `reader.open` when the provider answers. -/
  | replace (document : ReaderDocument)
  /-- `reader.open` when the provider fails, with the copy that it read before. -/
  | fallback (prior : ReaderDocument) (workId : Option String)
  | position (params : PositionParams)

/-- `Math.min(1, Math.max(0, offset))`. -/
def clamp (offset : Rat) : Rat := if offset < 0 then 0 else if 1 < offset then 1 else offset

def setPosition (params : PositionParams) (document : ReaderDocument) : Option ReaderDocument :=
  if params.chapterId ∉ document.chapters ∨ (params.offset = none ∧ params.imageIndex = none) ∨
      params.offset = some none ∨ params.imageIndex = some none then none
  else
    some { document with
      position := some ⟨params.chapterId, params.offset.join.map clamp, params.imageIndex.join⟩ }

namespace Operation

/-- The document that is saved when `latest` was read. -/
def result (latest : Option ReaderDocument) : Operation → Option ReaderDocument
  | replace document => some { document with position := latest.bind ReaderDocument.position }
  | fallback prior workId =>
    let latest := latest.getD prior
    some { latest with workId := workId.or latest.workId }
  | position params => latest.bind (setPosition params)

/-- The id in whose path it is saved. -/
def target (key : String) (document : ReaderDocument) : Operation → String
  | position _ => document.id
  | _ => key

end Operation

/-! ### Requests -/

/-- Where the promise `current` of a change is. -/
inductive Phase where
  | waiting
  | reading
  | saving (document : ReaderDocument)
  | fulfilled (document : ReaderDocument)
  | rejected

def Phase.settled : Phase → Bool
  | fulfilled _ | rejected => true
  | _ => false

structure Mutation where
  key : String
  operation : Operation
  /-- The change for which it waits. -/
  previous : Option ℕ
  phase : Phase

/-- The position that a request returns. -/
def Mutation.returned (m : Mutation) : Option ReaderPosition :=
  match m.operation, m.phase with
  | .position _, .fulfilled document => document.position
  | _, _ => none

/-- The changes are numbered in the order in which they were queued.  `running` are those whose
requests have not run their `finally`, and `priors` the copies that `reader.open` read before. -/
structure Service where
  stored : String → Option ReaderDocument
  documentMutations : String → Option ℕ
  pendingMutations : ℕ
  queued : ℕ
  mutations : ℕ → Option Mutation
  running : Finset ℕ
  priors : List (String × ReaderDocument)

namespace Service

/-- The promise for which a change waits is settled. -/
def Turn (s : Service) (m : Mutation) : Prop :=
  ∀ n ∈ m.previous, ∃ previous ∈ s.mutations n, previous.phase.settled = true

def setPhase (s : Service) (n : ℕ) (m : Mutation) (phase : Phase) : Service :=
  { s with mutations := Function.update s.mutations n (some { m with phase := phase }) }

/-- The requests that queue a change of a document. -/
def Offers (s : Service) (id : String) : Operation → Prop
  | .replace document => document.id = id
  | .fallback prior _ => (id, prior) ∈ s.priors
  | .position _ => True

/-- A change at the end of the queue. -/
def queue (s : Service) (id : String) (operation : Operation) : Service :=
  { s with
    documentMutations := Function.update s.documentMutations id (some s.queued)
    pendingMutations := s.pendingMutations + 1
    queued := s.queued + 1
    mutations := Function.update s.mutations s.queued
      (some ⟨id, operation, s.documentMutations id, .waiting⟩)
    running := insert s.queued s.running }

/-- `mutateDocument`, up to the point at which it waits. -/
def mutateDocument (s : Service) (id : String) (operation : Operation) : Service :=
  if 128 ≤ s.pendingMutations then s else s.queue id operation

def save (s : Service) (n : ℕ) (m : Mutation) (document : ReaderDocument) : Service :=
  { s.setPhase n m (.fulfilled document) with
    stored := Function.update s.stored (m.operation.target m.key document) (some document) }

/-- The `finally` of a request. -/
def finish (s : Service) (n : ℕ) (m : Mutation) : Service :=
  { s with
    pendingMutations := s.pendingMutations - 1
    documentMutations :=
      if s.documentMutations m.key = some n then Function.update s.documentMutations m.key none
      else s.documentMutations
    running := s.running.erase n }

end Service

/-- The parts of an operation but the last one. -/
inductive Part (s : Service) (m : Mutation) : Phase → Phase → Prop where
  | start (h : s.Turn m) : Part s m .waiting .reading
  | abort (h : s.Turn m) : Part s m .waiting .rejected
  | read {document : ReaderDocument} (h : m.operation.result (s.stored m.key) = some document) :
      Part s m .reading (.saving document)
  | refuse : Part s m .reading .rejected
  | fail {document : ReaderDocument} : Part s m (.saving document) .rejected

inductive Step (s : Service) : Service → Prop where
  | readPrior {id : String} {prior : ReaderDocument} (h : s.stored id = some prior) :
      Step s { s with priors := (id, prior) :: s.priors }
  | mutate {id : String} {operation : Operation} (h : s.Offers id operation) :
      Step s (s.mutateDocument id operation)
  | part {n : ℕ} {m : Mutation} {phase : Phase} (hm : s.mutations n = some m)
      (h : Part s m m.phase phase) : Step s (s.setPhase n m phase)
  | save {n : ℕ} {m : Mutation} {document : ReaderDocument} (hm : s.mutations n = some m)
      (h : m.phase = .saving document) : Step s (s.save n m document)
  | finish {n : ℕ} {m : Mutation} (hm : s.mutations n = some m) (h : m.phase.settled = true)
      (hn : n ∈ s.running) : Step s (s.finish n m)

/-- No request is running, and documents are stored under their ids. -/
structure Initial (s : Service) : Prop where
  documentMutations : s.documentMutations = fun _ => none
  pendingMutations : s.pendingMutations = 0
  mutations : s.mutations = fun _ => none
  running : s.running = ∅
  priors : s.priors = []
  ids : ∀ id document, s.stored id = some document → document.id = id

/-! ### The invariant -/

variable {s s' : Service} {n i : ℕ} {m : Mutation} {phase : Phase} {document : ReaderDocument}

/-- What waits for the promise `promise` comes behind all changes of the document: they are settled,
or not behind the one of the promise. -/
def Service.Behind (s : Service) (promise : Option ℕ) (key : String) (n : ℕ) : Prop :=
  ∀ i m, i < n → s.mutations i = some m → m.key = key →
    m.phase.settled = true ∨ ∃ p ∈ promise, i ≤ p

/-- The promises. -/
structure Chain (s : Service) : Prop where
  lt : ∀ n m, s.mutations n = some m → n < s.queued
  previous : ∀ n m p, s.mutations n = some m → m.previous = some p →
    ∃ m', s.mutations p = some m' ∧ m'.key = m.key
  behind : ∀ n m, s.mutations n = some m → s.Behind m.previous m.key n
  order : ∀ i j m m', i < j → s.mutations i = some m → s.mutations j = some m' →
    m.key = m'.key → m'.phase ≠ .waiting → m.phase.settled = true
  tail : ∀ key n, s.documentMutations key = some n →
    n ∈ s.running ∧ ∃ m, s.mutations n = some m ∧ m.key = key
  tailBehind : ∀ key, s.Behind (s.documentMutations key) key s.queued
  pending : s.pendingMutations = s.running.card
  running : ∀ n ∈ s.running, n < s.queued

/-- What is known of a change that waits for its turn. -/
def Service.Fits (s : Service) (key : String) : Operation → Prop
  | .replace document => document.id = key
  | .fallback _ _ => (s.stored key).isSome
  | .position _ => True

/-- The documents. -/
structure Stored (s : Service) : Prop where
  ids : ∀ id document, s.stored id = some document → document.id = id
  priors : ∀ id prior, (id, prior) ∈ s.priors → (s.stored id).isSome
  fits : ∀ n m, s.mutations n = some m → s.Fits m.key m.operation
  saving : ∀ n m document, s.mutations n = some m → m.phase = .saving document →
    m.operation.result (s.stored m.key) = some document
  positions : ∀ n m position, s.mutations n = some m → m.returned = some position →
    (∀ i m', n < i → s.mutations i = some m' → m'.key = m.key → m'.returned = none) →
    (s.stored m.key).bind ReaderDocument.position = some position

/-- The changes of the document that were queued before one that may run are settled. -/
theorem Chain.earlier (h : Chain s) {m' : Mutation} (hm : s.mutations n = some m)
    (hturn : m.phase = .waiting → s.Turn m) (hi : i < n) (hm' : s.mutations i = some m')
    (hkey : m'.key = m.key) : m'.phase.settled = true := by
  by_cases hwaiting : m.phase = .waiting
  · rcases h.behind n m hm i m' hi hm' hkey with hsettled | ⟨p, hp, hle⟩
    · exact hsettled
    obtain ⟨m₀, hm₀, hsettled⟩ := hturn hwaiting p hp
    obtain ⟨m₁, hm₁, hkey₁⟩ := h.previous n m p hm hp
    rcases Nat.lt_or_eq_of_le hle with hlt | rfl
    · have hmoved : m₀.phase ≠ .waiting := fun h => by simp [h, Phase.settled] at hsettled
      grind [h.order i p m' m₀ hlt]
    · grind
  · exact h.order i n m' m hi hm' hm hkey hwaiting

theorem mutations_setPhase {m' : Mutation} :
    (s.setPhase n m phase).mutations i = some m' ↔
      (i = n ∧ m' = { m with phase := phase }) ∨ (i ≠ n ∧ s.mutations i = some m') := by
  simp only [Service.setPhase, Function.update_apply]
  grind

theorem exists_setPhase {m₀ : Mutation} (phase : Phase) (hm : s.mutations n = some m)
    (hi : s.mutations i = some m₀) :
    ∃ m', (s.setPhase n m phase).mutations i = some m' ∧ m'.key = m₀.key := by
  by_cases h : i = n
  · exact ⟨_, mutations_setPhase.mpr (.inl ⟨h, rfl⟩), by grind⟩
  · exact ⟨m₀, mutations_setPhase.mpr (.inr ⟨h, hi⟩), rfl⟩

theorem Service.Behind.setPhase {promise : Option ℕ} {key : String} {k : ℕ}
    (h : s.Behind promise key k) (hm : s.mutations n = some m)
    (hunsettled : m.phase.settled = false) : (s.setPhase n m phase).Behind promise key k := by
  intro i m' hi hm' hkey
  rcases mutations_setPhase.mp hm' with ⟨rfl, rfl⟩ | ⟨-, hm'⟩
  · exact (h i m hi hm hkey).imp (by simp [hunsettled]) id
  · exact h i m' hi hm' hkey

theorem Chain.setPhase (h : Chain s) (hm : s.mutations n = some m)
    (hturn : m.phase = .waiting → s.Turn m) (hunsettled : m.phase.settled = false) :
    Chain (s.setPhase n m phase) where
  lt i m' hi := by
    rcases mutations_setPhase.mp hi with ⟨rfl, -⟩ | ⟨-, hi⟩
    · exact h.lt i m hm
    · exact h.lt i m' hi
  previous i m' p hi hp := by
    obtain ⟨m₁, hm₁, hkey⟩ : ∃ m₁, s.mutations p = some m₁ ∧ m₁.key = m'.key := by
      have hprevious := h.previous i
      grind [mutations_setPhase]
    obtain ⟨m₂, hm₂, hkey₂⟩ := exists_setPhase phase hm hm₁
    exact ⟨m₂, hm₂, hkey₂.trans hkey⟩
  behind i m' hi := by
    rcases mutations_setPhase.mp hi with ⟨rfl, rfl⟩ | ⟨-, hi⟩
    · exact (h.behind i m hm).setPhase hm hunsettled
    · exact (h.behind i m' hi).setPhase hm hunsettled
  order i j m₁ m₂ hij hi hj hkey hmoved := by
    have hearlier := @h.earlier
    have horder := h.order
    grind [mutations_setPhase]
  tail key i hi := by
    obtain ⟨hrunning, m', hm', hkey⟩ := h.tail key i hi
    obtain ⟨m'', hm'', hkey'⟩ := exists_setPhase phase hm hm'
    exact ⟨hrunning, m'', hm'', hkey'.trans hkey⟩
  tailBehind key := (h.tailBehind key).setPhase hm hunsettled
  pending := h.pending
  running := h.running

theorem mutations_queue {id : String} {operation : Operation} :
    (s.queue id operation).mutations i = some m ↔
      (i = s.queued ∧ m = ⟨id, operation, s.documentMutations id, .waiting⟩) ∨
        (i ≠ s.queued ∧ s.mutations i = some m) := by
  simp only [Service.queue, Function.update_apply]
  grind

theorem Chain.queue (h : Chain s) (id : String) (operation : Operation) :
    Chain (s.queue id operation) := by
  have hold {i : ℕ} {m : Mutation} (hi : s.mutations i = some m) :
      (s.queue id operation).mutations i = some m :=
    mutations_queue.mpr (.inr ⟨Nat.ne_of_lt (h.lt i m hi), hi⟩)
  have hbehind {promise : Option ℕ} {key : String} {k : ℕ} (hk : k ≤ s.queued)
      (hb : s.Behind promise key k) : (s.queue id operation).Behind promise key k := by
    intro i m hi hm hkey
    rcases mutations_queue.mp hm with ⟨rfl, -⟩ | ⟨-, hm⟩
    · omega
    · exact hb i m hi hm hkey
  have htable (key : String) : (s.queue id operation).documentMutations key =
      if key = id then some s.queued else s.documentMutations key := Function.update_apply ..
  refine ⟨fun i m hi => ?_, fun i m p hi hp => ?_, fun i m hi => ?_,
    fun i j m₁ m₂ hij hi hj hkey hmoved => ?_, fun key i hi => ?_, fun key i m hi hm hkey => ?_, ?_,
    fun i hi => ?_⟩
  · rcases mutations_queue.mp hi with ⟨rfl, -⟩ | ⟨-, hi⟩
    · exact Nat.lt_succ_self _
    · exact Nat.lt_succ_of_lt (h.lt i m hi)
  · rcases mutations_queue.mp hi with ⟨rfl, rfl⟩ | ⟨-, hi⟩
    · obtain ⟨-, m', hm', hkey⟩ := h.tail id p hp
      exact ⟨m', hold hm', hkey⟩
    · obtain ⟨m', hm', hkey⟩ := h.previous i m p hi hp
      exact ⟨m', hold hm', hkey⟩
  · rcases mutations_queue.mp hi with ⟨rfl, rfl⟩ | ⟨-, hi⟩
    · exact hbehind (Nat.le_refl _) (h.tailBehind id)
    · exact hbehind (Nat.le_of_lt (h.lt i m hi)) (h.behind i m hi)
  · have hlt := h.lt
    have horder := h.order i j
    grind [mutations_queue]
  · rw [htable] at hi
    split_ifs at hi with hkey
    · cases hi
      exact ⟨Finset.mem_insert_self _ _, _, mutations_queue.mpr (.inl ⟨rfl, rfl⟩), hkey.symm⟩
    · obtain ⟨hmem, m, hm, hkey'⟩ := h.tail key i hi
      exact ⟨Finset.mem_insert_of_mem hmem, m, hold hm, hkey'⟩
  · rw [htable]
    split_ifs with hid
    · exact .inr ⟨_, rfl, Nat.lt_succ_iff.mp hi⟩
    · rcases mutations_queue.mp hm with ⟨-, rfl⟩ | ⟨-, hm⟩
      · exact absurd hkey.symm hid
      · exact h.tailBehind key i m (h.lt i m hm) hm hkey
  · refine (congrArg (· + 1) h.pending).trans (Finset.card_insert_of_notMem fun hmem => ?_).symm
    exact absurd (h.running _ hmem) (Nat.lt_irrefl _)
  · rcases Finset.mem_insert.mp hi with rfl | hi
    · exact Nat.lt_succ_self _
    · exact Nat.lt_succ_of_lt (h.running i hi)

theorem Chain.finish (h : Chain s) (hm : s.mutations n = some m) (hsettled : m.phase.settled = true)
    (hn : n ∈ s.running) : Chain (s.finish n m) := by
  have htable (key : String) : (s.finish n m).documentMutations key =
      if key = m.key ∧ s.documentMutations key = some n then none
      else s.documentMutations key := by
    unfold Service.finish
    grind [Function.update_apply]
  refine ⟨h.lt, h.previous, h.behind, h.order, fun key i hi => ?_, fun key => ?_, ?_, fun i hi =>
    h.running i (Finset.mem_of_mem_erase hi)⟩
  · rw [htable] at hi
    split_ifs at hi with hremoved
    obtain ⟨hmem, m', hm', hkey⟩ := h.tail key i hi
    refine ⟨Finset.mem_erase.mpr ⟨?_, hmem⟩, m', hm', hkey⟩
    rintro rfl
    rw [hm] at hm'
    cases hm'
    exact hremoved ⟨hkey.symm, hi⟩
  · rw [htable]
    split_ifs with hremoved
    · obtain ⟨rfl, htail⟩ := hremoved
      intro i m' hi hm' hkey
      rcases h.tailBehind m.key i m' hi hm' hkey with hsettled' | ⟨p, hp, hle⟩
      · exact .inl hsettled'
      · obtain rfl : n = p := Option.some.inj (htail.symm.trans hp)
        have hmoved : m.phase ≠ .waiting := fun h => by simp [h, Phase.settled] at hsettled
        rcases Nat.lt_or_eq_of_le hle with hlt | rfl
        · exact .inl (h.order i n m' m hlt hm' hm hkey hmoved)
        · exact .inl (Option.some.inj (hm.symm.trans hm') ▸ hsettled)
    · exact h.tailBehind key
  · exact (congrArg (· - 1) h.pending).trans (Finset.card_erase_of_mem hn).symm

/-- What an operation saves has the id of its document, and keeps the position if it does not set
one. -/
theorem Stored.result (h : Stored s) (hm : s.mutations n = some m)
    (hresult : m.operation.result (s.stored m.key) = some document) :
    document.id = m.key ∧ m.operation.target m.key document = m.key ∧
      ((∃ params, m.operation = .position params) ∧ document.position.isSome ∨
        document.position = (s.stored m.key).bind ReaderDocument.position) := by
  have hfits := h.fits n m hm
  cases hoperation : m.operation with
  | replace fresh =>
    rw [hoperation] at hresult hfits
    cases hresult
    exact ⟨hfits, rfl, .inr rfl⟩
  | fallback prior workId =>
    rw [hoperation] at hresult hfits
    obtain ⟨latest, hlatest⟩ := Option.isSome_iff_exists.mp hfits
    rw [hlatest] at hresult
    cases hresult
    exact ⟨h.ids m.key latest hlatest, rfl, .inr (by rw [hlatest]; rfl)⟩
  | position params =>
    rw [hoperation] at hresult
    obtain ⟨latest, hlatest, hset⟩ := Option.bind_eq_some_iff.mp hresult
    unfold setPosition at hset
    split_ifs at hset
    cases hset
    exact ⟨h.ids m.key latest hlatest, h.ids m.key latest hlatest, .inl ⟨⟨params, rfl⟩, rfl⟩⟩

theorem returned_eq_some {position : ReaderPosition} :
    m.returned = some position ↔ (∃ params, m.operation = .position params) ∧
      ∃ document, m.phase = .fulfilled document ∧ document.position = some position := by
  unfold Mutation.returned
  split
  · simp_all
  · simp_all

theorem returned_of_unfulfilled (h : ∀ document, m.phase ≠ .fulfilled document) :
    m.returned = none := by
  rw [Option.eq_none_iff_forall_ne_some]
  intro position hreturned
  obtain ⟨-, document, hphase, -⟩ := returned_eq_some.mp hreturned
  exact h document hphase

theorem Stored.queue (h : Stored s) (hchain : Chain s) {id : String} {operation : Operation}
    (hoffers : s.Offers id operation) : Stored (s.queue id operation) := by
  refine ⟨h.ids, h.priors, fun i m hi => ?_, fun i m document hi hphase => ?_,
    fun i m position hi hreturned hlast => ?_⟩
  · rcases mutations_queue.mp hi with ⟨-, rfl⟩ | ⟨-, hi⟩
    · cases operation with
      | replace document => exact hoffers
      | fallback prior workId => exact h.priors id prior hoffers
      | position params => trivial
    · exact h.fits i m hi
  · rcases mutations_queue.mp hi with ⟨-, rfl⟩ | ⟨-, hi⟩
    · cases hphase
    · exact h.saving i m document hi hphase
  · rcases mutations_queue.mp hi with ⟨-, rfl⟩ | ⟨-, hi⟩
    · rw [returned_of_unfulfilled (by simp)] at hreturned
      cases hreturned
    · exact h.positions i m position hi hreturned fun k m' hk hm' =>
        hlast k m' hk (mutations_queue.mpr (.inr ⟨Nat.ne_of_lt (hchain.lt k m' hm'), hm'⟩))

theorem Stored.part (h : Stored s) (hm : s.mutations n = some m) (hpart : Part s m m.phase phase) :
    Stored (s.setPhase n m phase) := by
  have hold : ∀ document, m.phase ≠ .fulfilled document := by
    intro document hphase
    rw [hphase] at hpart
    cases hpart
  have hnew : ∀ document, phase ≠ .fulfilled document := by
    rintro document rfl
    generalize m.phase = old at hpart
    cases hpart
  refine ⟨h.ids, h.priors, fun i m' hi => ?_, fun i m' document hi hphase => ?_,
    fun i m' position hi hreturned hlast => ?_⟩
  · rcases mutations_setPhase.mp hi with ⟨-, rfl⟩ | ⟨-, hi⟩
    · exact h.fits n m hm
    · exact h.fits i m' hi
  · rcases mutations_setPhase.mp hi with ⟨-, rfl⟩ | ⟨-, hi⟩
    · cases hphase
      generalize m.phase = old at hpart
      cases hpart with
      | read hresult => exact hresult
    · exact h.saving i m' document hi hphase
  · rcases mutations_setPhase.mp hi with ⟨-, rfl⟩ | ⟨-, hi⟩
    · rw [returned_of_unfulfilled hnew] at hreturned
      cases hreturned
    · refine h.positions i m' position hi hreturned fun k m'' hk hm'' hkey => ?_
      by_cases hkn : k = n
      · subst hkn
        rw [hm] at hm''
        cases hm''
        exact returned_of_unfulfilled hold
      · exact hlast k m'' hk (mutations_setPhase.mpr (.inr ⟨hkn, hm''⟩)) hkey

theorem Stored.save (h : Stored s) (hchain : Chain s) (hm : s.mutations n = some m)
    (hphase : m.phase = .saving document) : Stored (s.save n m document) := by
  have hresult := h.saving n m document hm hphase
  obtain ⟨hid, htarget, hkeeps⟩ := h.result hm hresult
  have hmutations {i : ℕ} {m' : Mutation} : (s.save n m document).mutations i = some m' ↔
      (i = n ∧ m' = { m with phase := .fulfilled document }) ∨ (i ≠ n ∧ s.mutations i = some m') :=
    mutations_setPhase
  have hstored (key : String) : (s.save n m document).stored key =
      if key = m.key then some document else s.stored key := by
    simp only [Service.save, htarget, Function.update_apply]
  have hsome {key : String} (hkey : (s.stored key).isSome) :
      ((s.save n m document).stored key).isSome := by
    rw [hstored]
    split_ifs
    · rfl
    · exact hkey
  -- the later changes of the document wait, and the earlier ones are settled
  have hlater {i : ℕ} {m' : Mutation} (hi : n < i) (hm' : s.mutations i = some m')
      (hkey : m'.key = m.key) : m'.phase = .waiting := by
    by_contra hmoved
    have hsettled := hchain.order n i m m' hi hm hm' hkey.symm hmoved
    simp [hphase, Phase.settled] at hsettled
  have hfits {key : String} {operation : Operation} (hfits : s.Fits key operation) :
      (s.save n m document).Fits key operation := by
    cases operation with
    | fallback prior workId => exact hsome hfits
    | _ => exact hfits
  refine ⟨fun id latest hlatest => ?_, fun id prior hprior => hsome (h.priors id prior hprior),
    fun i m' hi => hfits ?_, fun i m' next hi hnext => ?_,
    fun i m' position hi hreturned hlast => ?_⟩
  · rw [hstored] at hlatest
    split_ifs at hlatest with hkey
    · cases hlatest
      exact hid.trans hkey.symm
    · exact h.ids id latest hlatest
  · rcases hmutations.mp hi with ⟨-, rfl⟩ | ⟨-, hi⟩
    · exact h.fits n m hm
    · exact h.fits i m' hi
  · rcases hmutations.mp hi with ⟨-, rfl⟩ | ⟨hne, hi⟩
    · cases hnext
    · have hother : m'.key ≠ m.key := by
        intro hkey
        rcases Nat.lt_or_gt_of_ne hne with hlt | hlt
        · have hsettled := hchain.earlier hm (by simp [hphase]) hlt hi hkey
          simp [hnext, Phase.settled] at hsettled
        · cases hnext.symm.trans (hlater hlt hi hkey)
      rw [hstored, if_neg hother]
      exact h.saving i m' next hi hnext
  · rw [hstored]
    rcases hmutations.mp hi with ⟨-, rfl⟩ | ⟨hne, hi⟩
    · obtain ⟨-, saved, hsaved, hposition⟩ := returned_eq_some.mp hreturned
      cases hsaved
      rw [if_pos rfl]
      exact hposition
    · have hold := h.positions i m' position hi hreturned fun k m'' hik hk hkey => by
        by_cases hkn : k = n
        · subst hkn
          rw [hm] at hk
          cases hk
          exact returned_of_unfulfilled (by simp [hphase])
        · exact hlast k m'' hik (hmutations.mpr (.inr ⟨hkn, hk⟩)) hkey
      split_ifs with hkey
      · rw [hkey] at hold
        rcases hkeeps with ⟨hoperation, hset⟩ | hkept
        · -- the last position is the one that is saved now
          have hlt : i < n := by
            rcases Nat.lt_or_gt_of_ne hne with hlt | hlt
            · exact hlt
            · obtain ⟨-, saved, hsaved, -⟩ := returned_eq_some.mp hreturned
              cases hsaved.symm.trans (hlater hlt hi hkey)
          obtain ⟨next, hnext⟩ := Option.isSome_iff_exists.mp hset
          have hnow := hlast n _ hlt (hmutations.mpr (.inl ⟨rfl, rfl⟩)) hkey.symm
          cases hnow.symm.trans (returned_eq_some.mpr ⟨hoperation, document, rfl, hnext⟩)
        · exact hkept.trans hold
      · exact hold

/-! ### Runs -/

theorem Chain.step (h : Chain s) (hstep : Step s s') : Chain s' := by
  cases hstep with
  | readPrior =>
    exact { h with }
  | mutate =>
    unfold Service.mutateDocument
    split_ifs
    · exact h
    · exact h.queue _ _
  | @part n m phase hm hpart =>
    generalize hold : m.phase = old at hpart
    cases hpart with
    | start hturn => exact h.setPhase hm (fun _ => hturn) (by simp [hold, Phase.settled])
    | abort hturn => exact h.setPhase hm (fun _ => hturn) (by simp [hold, Phase.settled])
    | _ => exact h.setPhase hm (by simp [hold]) (by simp [hold, Phase.settled])
  | @save n m document hm hphase =>
    have hchain : Chain (s.setPhase n m (.fulfilled document)) :=
      h.setPhase hm (by simp [hphase]) (by simp [hphase, Phase.settled])
    exact { hchain with }
  | finish hm hsettled hn => exact h.finish hm hsettled hn

theorem Stored.step (h : Stored s) (hchain : Chain s) (hstep : Step s s') : Stored s' := by
  cases hstep with
  | readPrior hstored =>
    refine { h with priors := fun id prior hprior => ?_ }
    rcases List.mem_cons.mp hprior with heq | hprior
    · cases heq
      exact Option.isSome_iff_exists.mpr ⟨_, hstored⟩
    · exact h.priors id prior hprior
  | mutate hoffers =>
    unfold Service.mutateDocument
    split_ifs
    · exact h
    · exact h.queue hchain hoffers
  | part hm hpart => exact h.part hm hpart
  | save hm hphase => exact h.save hchain hm hphase
  | finish => exact { h with }

theorem inv_of_reachable {s₀ : Service} (h₀ : Initial s₀) (h : Relation.ReflTransGen Step s₀ s) :
    Chain s ∧ Stored s := by
  induction h with
  | refl =>
    obtain ⟨htable, hpending, hmutations, hrunning, hpriors, hids⟩ := h₀
    constructor
    · constructor <;> simp [htable, hpending, hmutations, hrunning, Service.Behind]
    · refine ⟨hids, ?_, ?_, ?_, ?_⟩ <;> simp [hpriors, hmutations]
  | tail _ hstep ih => exact ⟨ih.1.step hstep, ih.2.step ih.1 hstep⟩

/-- Only `saveJson` changes what is stored, and its request ends with it. -/
theorem Step.stores (h : Step s s') (hs : Chain s ∧ Stored s) :
    (∀ n m, s.mutations n = some m → m.phase.settled = true → s'.mutations n = some m) ∧
      (s'.stored = s.stored ∨ ∃ n m document, s.mutations n = some m ∧ m.phase = .saving document ∧
        s'.mutations n = some { m with phase := .fulfilled document } ∧
        s'.stored = Function.update s.stored m.key (some document)) := by
  have hset {n : ℕ} {m : Mutation} (phase : Phase) (hm : s.mutations n = some m)
      (hunsettled : m.phase.settled = false) (i : ℕ) (m' : Mutation) (hi : s.mutations i = some m')
      (hsettled : m'.phase.settled = true) : (s.setPhase n m phase).mutations i = some m' := by
    refine mutations_setPhase.mpr (.inr ⟨?_, hi⟩)
    rintro rfl
    rw [hm] at hi
    cases hi
    simp [hunsettled] at hsettled
  cases h with
  | readPrior => exact ⟨fun _ _ hm _ => hm, .inl rfl⟩
  | mutate =>
    unfold Service.mutateDocument
    split_ifs
    · exact ⟨fun _ _ hm _ => hm, .inl rfl⟩
    · refine ⟨fun i m hi _ => mutations_queue.mpr (.inr ⟨?_, hi⟩), .inl rfl⟩
      exact Nat.ne_of_lt (hs.1.lt i m hi)
  | @part n m phase hm hpart =>
    have hunsettled : m.phase.settled = false := by
      generalize m.phase = old at hpart
      cases hpart <;> rfl
    exact ⟨hset phase hm hunsettled, .inl rfl⟩
  | @save n m document hm hphase =>
    have htarget := (hs.2.result hm (hs.2.saving n m document hm hphase)).2.1
    refine ⟨hset _ hm (by simp [hphase, Phase.settled]), .inr ⟨n, m, document, hm, hphase, ?_, ?_⟩⟩
    · exact mutations_setPhase.mpr (.inl ⟨rfl, rfl⟩)
    · rw [← htarget]
      rfl
  | finish => exact ⟨fun _ _ hm _ => hm, .inl rfl⟩

/-- The changes of a document run one after the other, in the order in which they were queued; a
position that a request returned is stored until a later request has set one; a change that was
rejected has stored nothing, since what is stored changes only with the fulfilment of a change; and
without running requests the table is empty. -/
theorem positions_kept {s₀ : Service} (h₀ : Initial s₀) (h : Relation.ReflTransGen Step s₀ s) :
    (∀ i j m m', i < j → s.mutations i = some m → s.mutations j = some m' → m.key = m'.key →
      m'.phase ≠ .waiting → m.phase.settled = true) ∧
    (∀ n m position, s.mutations n = some m → m.returned = some position →
      (∀ i m', n < i → s.mutations i = some m' → m'.key = m.key → m'.returned = none) →
      (s.stored m.key).bind ReaderDocument.position = some position) ∧
    (∀ s', Step s s' →
      (∀ n m, s.mutations n = some m → m.phase.settled = true → s'.mutations n = some m) ∧
      (s'.stored = s.stored ∨ ∃ n m document, s.mutations n = some m ∧ m.phase = .saving document ∧
        s'.mutations n = some { m with phase := .fulfilled document } ∧
        s'.stored = Function.update s.stored m.key (some document))) ∧
    (s.running = ∅ → s.documentMutations = (fun _ => none) ∧ s.pendingMutations = 0) := by
  have hs := inv_of_reachable h₀ h
  refine ⟨hs.1.order, hs.2.positions, fun s' hstep => hstep.stores hs, fun hrunning => ⟨?_, ?_⟩⟩
  · funext key
    rw [Option.eq_none_iff_forall_ne_some]
    intro n hn
    obtain ⟨hmem, -⟩ := hs.1.tail key n hn
    simp [hrunning] at hmem
  · rw [hs.1.pending, hrunning, Finset.card_empty]

/-- A change waits for an earlier one. -/
theorem previous_lt {s₀ : Service} {p : ℕ} (h₀ : Initial s₀) (h : Relation.ReflTransGen Step s₀ s)
    (hm : s.mutations n = some m) (hp : m.previous = some p) : p < n := by
  induction h generalizing n m with
  | refl => simp [h₀.mutations] at hm
  | @tail s₁ s hrun hstep ih =>
    cases hstep with
    | @mutate id operation =>
      obtain ⟨hchain, -⟩ := inv_of_reachable h₀ hrun
      unfold Service.mutateDocument at hm
      split_ifs at hm
      · exact ih hm hp
      · rcases mutations_queue.mp hm with ⟨rfl, rfl⟩ | ⟨-, hm⟩
        · exact hchain.running p (hchain.tail id p hp).1
        · exact ih hm hp
    | part hm₁ | save hm₁ =>
      rcases mutations_setPhase.mp hm with ⟨rfl, rfl⟩ | ⟨-, hm⟩
      · exact ih hm₁ hp
      · exact ih hm hp
    | _ => exact ih hm hp

/-- A book with one chapter is stored. -/
def sampleService : Service where
  stored := Function.update (fun _ => none) "a" (some ⟨"a", none, ["1"], none⟩)
  documentMutations _ := none
  pendingMutations := 0
  queued := 0
  mutations _ := none
  running := ∅
  priors := []

/-- A position behind the end of the chapter is set. -/
theorem positions_kept_sample : ∃ s, Relation.ReflTransGen Step sampleService s ∧
    (s.stored "a").bind ReaderDocument.position = some ⟨"1", some 1, none⟩ ∧
    s.documentMutations = (fun _ => none) ∧ s.pendingMutations = 0 := by
  have hinitial : Initial sampleService := by
    refine ⟨rfl, rfl, rfl, rfl, rfl, fun id document h => ?_⟩
    simp only [sampleService, Function.update_apply] at h
    split_ifs at h with hid
    cases h
    exact hid.symm
  let request : Mutation := ⟨"a", .position ⟨"1", some (some 2), none⟩, none, .waiting⟩
  let document : ReaderDocument := ⟨"a", none, ["1"], some ⟨"1", some 1, none⟩⟩
  let s₁ := sampleService.queue "a" request.operation
  let s₂ := s₁.setPhase 0 request .reading
  let s₃ := s₂.setPhase 0 { request with phase := .reading } (.saving document)
  let s₄ := s₃.save 0 { request with phase := .saving document } document
  let s₅ := s₄.finish 0 { request with phase := .fulfilled document }
  have h₁ : Step sampleService s₁ := @Step.mutate sampleService "a" request.operation trivial
  have h₂ : Step s₁ s₂ :=
    .part (n := 0) (m := request) rfl (.start (by simp [Service.Turn, request]))
  have hresult : request.operation.result (s₂.stored "a") = some document := by
    have hstored : s₂.stored "a" = some ⟨"a", none, ["1"], none⟩ := by
      simp [s₂, s₁, Service.setPhase, Service.queue, sampleService]
    rw [hstored]
    decide +kernel
  have h₃ : Step s₂ s₃ :=
    .part (n := 0) (m := { request with phase := .reading }) rfl (.read hresult)
  have h₄ : Step s₃ s₄ := .save (n := 0) (m := { request with phase := .saving document }) rfl rfl
  have h₅ : Step s₄ s₅ :=
    .finish (n := 0) (m := { request with phase := .fulfilled document }) rfl rfl (by decide)
  have hrun : Relation.ReflTransGen Step sampleService s₅ :=
    ((((Relation.ReflTransGen.single h₁).tail h₂).tail h₃).tail h₄).tail h₅
  obtain ⟨-, hpositions, -, htable⟩ := positions_kept hinitial hrun
  refine ⟨s₅, hrun, hpositions 0 { request with phase := .fulfilled document } _ rfl rfl ?_,
    htable (by decide)⟩
  intro i m hi hm
  have hnone : s₅.mutations i = none := by
    simp [s₅, s₄, s₃, s₂, s₁, Service.finish, Service.save, Service.setPhase, Service.queue,
      sampleService, Function.update_apply, Nat.ne_of_gt hi]
  rw [hnone] at hm
  cases hm

/-- The changes of a document do not block each other: one of those that are not settled has its
turn. -/
theorem changes_progress {s₀ : Service} (h₀ : Initial s₀) (h : Relation.ReflTransGen Step s₀ s)
    (hm : s.mutations n = some m) (hsettled : m.phase.settled = false) :
    ∃ i m', i ≤ n ∧ s.mutations i = some m' ∧ m'.key = m.key ∧ m'.phase.settled = false ∧
      (m'.phase = .waiting → s.Turn m') := by
  induction n using Nat.strong_induction_on generalizing m with
  | _ n ih =>
    by_cases hturn : s.Turn m
    · exact ⟨n, m, le_rfl, hm, rfl, hsettled, fun _ => hturn⟩
    · unfold Service.Turn at hturn
      push Not at hturn
      obtain ⟨p, hp, hblocked⟩ := hturn
      obtain ⟨m₁, hm₁, hkey⟩ := (inv_of_reachable h₀ h).1.previous n m p hm hp
      have hlt := previous_lt h₀ h hm hp
      obtain ⟨i, m', hi, hm', hkey', hrest⟩ := ih p hlt hm₁ (by simpa using hblocked m₁ hm₁)
      exact ⟨i, m', hi.trans hlt.le, hm', hkey'.trans hkey, hrest⟩

/-- Two positions are set, and the second change waits for the first one. -/
theorem changes_progress_sample : ∃ (s : Service) (i : ℕ) (m' : Mutation), i ≤ 1 ∧
    s.mutations i = some m' ∧ m'.key = "a" ∧ m'.phase.settled = false ∧
      (m'.phase = .waiting → s.Turn m') :=
  let s : Service := { sampleService with stored := fun _ => none }
  let operation : Operation := .position ⟨"1", none, none⟩
  ⟨_, changes_progress (m := ⟨"a", operation, some 0, .waiting⟩)
    ⟨rfl, rfl, rfl, rfl, rfl, by simp [s]⟩
    (.tail (.single (@Step.mutate s "a" operation trivial)) (@Step.mutate _ "a" operation trivial))
    rfl rfl⟩

end Qbutt.Reader
