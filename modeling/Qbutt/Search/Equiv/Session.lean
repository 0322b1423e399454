import Qbutt.Algorithm.Notes
import Qbutt.Search.Equiv.Rebuild

/-!
# A search and its client

A search runs through calls of `add` and `addQuery` (`Session`).  The client stores each result under its
identity and drops what is removed; it always has the works as they are.  Every key of an accepted
publication belongs to a work and to no other, as long as no publication links works
(`keys_are_partitioned`); a publication that shares variants with two works joins only the first of them
(`linked_key_in_two_works`).
-/

namespace Qbutt.Search

open List

variable (P : Patterns)

/-! ### Sessions -/

/-- What the client has of a work. -/
abbrev Shown := Work × ℕ

def receive (client : InsertionMap String Shown) : Event → InsertionMap String Shown
  | .result work relevance => client.set work.id (work, relevance)
  | .removeResult id _ => client.delete id

structure Session where
  results : SearchResults
  accepted : List Work
  client : InsertionMap String Shown
  deriving DecidableEq

/-- The calls of the providers. -/
inductive Call where
  | add (incoming : Work)
  | addQuery (query : String)
  deriving DecidableEq

namespace Session

/-- A search that begins. -/
def start (query : String) (language : Option String) : Session where
  results := .new P query language
  accepted := []
  client := InsertionMap.empty

/-- One call, with what the client is told; nothing where the component throws. -/
def call (session : Session) : Call → Option (Session × List Event)
  | .add incoming => (session.results.add P incoming).map fun (accepted, results, events) =>
    ({ results := results
       accepted := if accepted then session.accepted ++ [incoming] else session.accepted
       client := events.foldl receive session.client }, events)
  | .addQuery query => some ({ session with results := session.results.addQuery P query }, [])

def run (session : Session) (calls : List Call) : Option Session :=
  calls.foldlM (fun session c => (session.call P c).map Prod.fst) session

end Session

/-! ### What the client has -/

open SearchResults

def resultEvent (queries : List SearchQuery) (previous : InsertionMap String Work)
    (entry : String × Work) : Option Event :=
  if previous.get entry.1 = some entry.2 then none
  else some (.result entry.2 (relevance P queries entry.2))

def removeEvent (works : InsertionMap String Work) (entry : String × Work) : Option Event :=
  if (works.get entry.1).isSome then none
  else some (.removeResult entry.1 ((replacementOf works entry.2).map Work.id))

theorem foldl_filterMap_receive (event : String × Work → Option Event)
    (client : InsertionMap String Shown) (entries : List (String × Work)) :
    (entries.filterMap event).foldl receive client =
      entries.foldl (fun client entry => (event entry).elim client (receive client)) client := by
  rw [foldl_filterMap]
  congr 1
  funext client entry
  cases event entry <;> rfl

variable {queries : List SearchQuery} {previous works : InsertionMap String Work}
  {client : InsertionMap String Shown} {session : Session} {publications : InsertionMap String Work}

theorem get_receive_result (client : InsertionMap String Shown) (entry : String × Work)
    (id : String) :
    ((resultEvent P queries previous entry).elim client (receive client)).get id =
      if id = entry.2.id ∧ previous.get entry.1 ≠ some entry.2 then
        some (entry.2, relevance P queries entry.2)
      else client.get id := by
  unfold resultEvent
  by_cases hsame : previous.get entry.1 = some entry.2
  · simp [hsame]
  · rw [if_neg hsame]
    show (client.set entry.2.id _).get id = _
    rw [InsertionMap.get_set]
    simp [hsame]

theorem get_receive_remove (client : InsertionMap String Shown) (entry : String × Work)
    (id : String) :
    ((removeEvent works entry).elim client (receive client)).get id =
      if id = entry.1 ∧ works.get entry.1 = none then none else client.get id := by
  unfold removeEvent
  cases hget : works.get entry.1 with
  | none =>
    show (client.delete entry.1).get id = _
    rw [InsertionMap.get_delete]
    simp
  | some work => simp

def shownOf (queries : List SearchQuery) (works : InsertionMap String Work) (id : String) :
    Option Shown :=
  (works.get id).map fun work => (work, relevance P queries work)

/-- The client after the results: it has the new works, and the old ones that are not there any more. -/
theorem get_results (hids : Identified works)
    (hclient : ∀ id, client.get id = shownOf P queries previous id) (id : String) :
    ((works.entries.filterMap (resultEvent P queries previous)).foldl receive client).get id =
      if (works.get id).isSome then shownOf P queries works id else shownOf P queries previous id := by
  rw [foldl_filterMap_receive]
  have hnodup : (works.entries.map fun entry : String × Work => entry.2.id).Nodup := by
    have hids' := hids.nodup
    rw [InsertionMap.values, map_map] at hids'
    exact hids'
  have hloop := foldl_local (fun entry : String × Work => entry.2.id)
    (fun id (client : InsertionMap String Shown) => client.get id)
    (fun client entry => (resultEvent P queries previous entry).elim client (receive client))
    (fun client entry x hx => by
      rw [get_receive_result, if_neg fun h => hx h.1])
    (fun s s' entry h => by
      rw [get_receive_result, get_receive_result, h])
    hnodup client
  cases hget : works.get id with
  | none =>
    rw [Option.isSome_none, if_neg Bool.false_ne_true, ← hclient id]
    refine hloop.2 id fun hmem => ?_
    obtain ⟨entry, hentry, rfl⟩ := mem_map.mp hmem
    have hentry' := InsertionMap.mem_entries_iff.mp (show (entry.1, entry.2) ∈ works.entries from hentry)
    rw [hids _ _ hentry', hentry'] at hget
    exact Option.some_ne_none _ hget
  | some work =>
    have hid : work.id = id := hids id work hget
    have hentry := hloop.1 (id, work) (InsertionMap.mem_entries_iff.mpr hget)
    rw [Option.isSome_some, if_pos rfl, shownOf, hget, Option.map_some]
    rw [get_receive_result] at hentry
    simp only [hid, true_and] at hentry
    rw [hentry]
    by_cases hsame : previous.get id = some work
    · rw [if_neg (not_not_intro hsame), hclient id, shownOf, hsame, Option.map_some]
    · exact if_pos hsame

theorem receive_changes (hids : Identified works)
    (hclient : ∀ id, client.get id = shownOf P queries previous id) (id : String) :
    ((changes P queries previous works).foldl receive client).get id = shownOf P queries works id := by
  have hchanges : changes P queries previous works =
      works.entries.filterMap (resultEvent P queries previous) ++
        previous.entries.filterMap (removeEvent works) := rfl
  have hresults := get_results P hids hclient id
  rw [hchanges, foldl_append, foldl_filterMap_receive]
  set client' := (works.entries.filterMap (resultEvent P queries previous)).foldl receive client
  have hloop := foldl_local (fun entry : String × Work => entry.1)
    (fun id (client : InsertionMap String Shown) => client.get id)
    (fun client entry => (removeEvent works entry).elim client (receive client))
    (fun client entry x hx => by
      rw [get_receive_remove, if_neg fun h => hx h.1])
    (fun s s' entry h => by
      rw [get_receive_remove, get_receive_remove, h])
    (show (previous.entries.map fun entry => entry.1).Nodup from previous.nodup) client'
  cases hprevious : previous.get id with
  | none =>
    have hkept := hloop.2 id fun hmem => by
      obtain ⟨work, hwork⟩ := InsertionMap.mem_keys.mp hmem
      rw [hprevious] at hwork
      exact Option.some_ne_none work hwork.symm
    rw [hkept, hresults]
    cases hget : works.get id with
    | none => simp [shownOf, hprevious, hget]
    | some work => simp
  | some work =>
    have hentry := hloop.1 (id, work) (InsertionMap.mem_entries_iff.mpr hprevious)
    rw [get_receive_remove] at hentry
    rw [hentry]
    cases hget : works.get id with
    | none => simp [shownOf, hget]
    | some work' => simp [hresults, hget]

/-! ### Invariants of a session -/

/-- What holds in a search after any calls. -/
structure Session.Sound (session : Session) : Prop where
  asked : session.results.queries ≠ []
  identified : Identified session.results.publications
  collected : ∀ k, (∃ p ∈ session.results.publications.values, k ∈ keysOf p.variants) ↔
    ∃ p ∈ session.accepted, k ∈ keysOf p.variants
  rebuilt : Rebuilt P session.results.language session.results.publications.values session.results.works
  shown : ∀ id, session.client.get id = shownOf P session.results.queries session.results.works id

theorem relevance_append (hqueries : queries ≠ []) (query : SearchQuery) (work : Work) :
    relevance P (queries ++ [query]) work = relevance P queries work := by
  cases queries with
  | nil => exact absurd rfl hqueries
  | cons first rest => rfl

theorem Session.Sound.addQuery (h : session.Sound P) (query : String) :
    Session.Sound P { session with results := session.results.addQuery P query } := by
  unfold SearchResults.addQuery
  by_cases hnew : (!(searchQuery P query).words.isEmpty && !(session.results.queries.any fun previous =>
      P.normalizeTitle previous.title = P.normalizeTitle (searchQuery P query).title)) = true
  · simp only [if_pos hnew]
    refine { h with asked := by simp, shown := fun id => ?_ }
    rw [h.shown id]
    unfold shownOf
    congr 1
    funext work
    rw [relevance_append P h.asked]
  · simp only [if_neg hnew]
    exact h

theorem mem_keysOf_merged {previous : Option Work} {incoming : Work} {k : String} :
    k ∈ keysOf (merged previous incoming).variants ↔
      k ∈ keysOf (previous.elim [] Work.variants) ∨ k ∈ keysOf incoming.variants := by
  show k ∈ keysOf (mergeVariants _) ↔ _
  rw [mem_keysOf_mergeVariants, mem_keysOf_append]

/-- The publications with a new one have its keys besides their own. -/
theorem collected_set (incoming : Work) (k : String) :
    (∃ p ∈ (publications.set incoming.id (merged (publications.get incoming.id) incoming)).values,
        k ∈ keysOf p.variants) ↔
      (∃ p ∈ publications.values, k ∈ keysOf p.variants) ∨ k ∈ keysOf incoming.variants := by
  simp only [InsertionMap.mem_values, InsertionMap.get_set]
  constructor
  · rintro ⟨p, ⟨id, hget⟩, hk⟩
    by_cases hid : id = incoming.id
    · rw [if_pos hid, Option.some.injEq] at hget
      rw [← hget, mem_keysOf_merged] at hk
      rcases hk with hk | hk
      · cases hprevious : publications.get incoming.id with
        | none =>
          rw [hprevious] at hk
          exact (not_mem_nil hk).elim
        | some previous =>
          rw [hprevious] at hk
          exact .inl ⟨previous, ⟨incoming.id, hprevious⟩, hk⟩
      · exact .inr hk
    · rw [if_neg hid] at hget
      exact .inl ⟨p, ⟨id, hget⟩, hk⟩
  · rintro (⟨p, ⟨id, hget⟩, hk⟩ | hk)
    · by_cases hid : id = incoming.id
      · rw [hid] at hget
        refine ⟨_, ⟨incoming.id, if_pos rfl⟩, mem_keysOf_merged.mpr (.inl ?_)⟩
        rw [hget]
        exact hk
      · exact ⟨p, ⟨id, by rw [if_neg hid]; exact hget⟩, hk⟩
    · exact ⟨_, ⟨incoming.id, if_pos rfl⟩, mem_keysOf_merged.mpr (.inr hk)⟩

theorem collected_append {accepted : List Work} (incoming : Work) (k : String) :
    (∃ p ∈ accepted ++ [incoming], k ∈ keysOf p.variants) ↔
      (∃ p ∈ accepted, k ∈ keysOf p.variants) ∨ k ∈ keysOf incoming.variants := by
  simp only [mem_append, mem_singleton, or_and_right, exists_or, exists_eq_left]

def Replaced (previous works : InsertionMap String Work) (event : Event) : Prop :=
  ∀ id replacementId, event = .removeResult id (some replacementId) →
    ∃ removed work, previous.get id = some removed ∧ works.get replacementId = some work ∧
      keysOf removed.variants ⊆ keysOf work.variants

theorem replaced_of_mem_changes (hids : Identified works) {event : Event}
    (h : event ∈ changes P queries previous works) : Replaced previous works event := by
  rintro id replacementId rfl
  rcases mem_append.mp h with hresult | hremove
  · obtain ⟨entry, -, hevent⟩ := mem_filterMap.mp hresult
    by_cases hsame : previous.get entry.1 = some entry.2
    · rw [if_pos hsame] at hevent
      exact absurd hevent.symm (Option.some_ne_none _)
    · rw [if_neg hsame, Option.some.injEq] at hevent
      cases hevent
  · obtain ⟨entry, hentry, hevent⟩ := mem_filterMap.mp hremove
    by_cases hthere : (works.get entry.1).isSome
    · rw [if_pos hthere] at hevent
      exact absurd hevent.symm (Option.some_ne_none _)
    · rw [if_neg hthere, Option.some.injEq, Event.removeResult.injEq, Option.map_eq_some_iff] at hevent
      obtain ⟨rfl, work, hfind, rfl⟩ := hevent
      unfold replacementOf at hfind
      refine ⟨entry.2, work, InsertionMap.mem_entries_iff.mp hentry,
        hids.get (mem_of_find?_eq_some hfind), fun k hk => ?_⟩
      obtain ⟨variant, hvariant, rfl⟩ := mem_map.mp hk
      have hholds := List.find?_some hfind
      obtain ⟨current, hcurrent, hkey⟩ := any_eq_true.mp
        (all_eq_true.mp hholds variant hvariant)
      exact mem_map.mpr ⟨current, hcurrent, of_decide_eq_true hkey⟩

theorem identified_set (h : Identified publications) (previous : Option Work) (incoming : Work) :
    Identified (publications.set incoming.id (merged previous incoming)) := by
  intro id work hget
  rw [InsertionMap.get_set] at hget
  by_cases hid : id = incoming.id
  · rw [if_pos hid, Option.some.injEq] at hget
    rw [hid, ← hget]
    rfl
  · rw [if_neg hid] at hget
    exact h id work hget

/-- `publish` comes to its end; what it tells the client are the changes of the works. -/
theorem publish_spec {results : SearchResults} (hids : Identified results.publications) :
    ∃ works, publish P results =
        some ({ results with works := works }, changes P results.queries results.works works) ∧
      Rebuilt P results.language results.publications.values works := by
  obtain ⟨works, hrebuild, hworks⟩ := rebuild_spec P results.language hids.nodup
  refine ⟨works, ?_, hworks⟩
  rw [publish, hrebuild]
  rfl

/-- `add` comes to its end and keeps the invariants. -/
theorem Session.Sound.add (h : session.Sound P) (incoming : Work) :
    ∃ session' events, session.call P (.add incoming) = some (session', events) ∧
      session'.Sound P ∧
      ∀ event ∈ events, Replaced session.results.works session'.results.works event := by
  show ∃ session' events, (session.results.add P incoming).map _ = some (session', events) ∧ _
  unfold SearchResults.add
  by_cases hrefused : (!accepts P session.results incoming) = true
  · rw [if_pos hrefused]
    exact ⟨_, [], rfl, h, fun event hevent => (not_mem_nil hevent).elim⟩
  · rw [if_neg hrefused]
    by_cases hknown : session.results.publications.get incoming.id =
        some (merged (session.results.publications.get incoming.id) incoming)
    · simp only [if_pos hknown]
      refine ⟨_, [], rfl, { h with collected := fun k => ?_ }, fun event hevent =>
        (not_mem_nil hevent).elim⟩
      show _ ↔ ∃ p ∈ session.accepted ++ [incoming], _
      rw [collected_append, ← h.collected k]
      constructor
      · exact .inl
      · rintro (hk | hk)
        · exact hk
        · exact ⟨_, InsertionMap.mem_values.mpr ⟨incoming.id, hknown⟩, mem_keysOf_merged.mpr (.inr hk)⟩
    · simp only [if_neg hknown]
      have hids := identified_set h.identified (session.results.publications.get incoming.id) incoming
      obtain ⟨works, hpublish, hworks⟩ := @publish_spec P
        { session.results with
          publications := session.results.publications.set incoming.id
            (merged (session.results.publications.get incoming.id) incoming) } hids
      rw [hpublish]
      refine ⟨_, _, rfl, ?_, fun event hevent => replaced_of_mem_changes P hworks.identified hevent⟩
      constructor
      · exact h.asked
      · exact hids
      · intro k
        show (∃ p ∈ InsertionMap.values _, _) ↔ ∃ p ∈ session.accepted ++ [incoming], _
        rw [collected_set, h.collected k, collected_append]
      · exact hworks
      · exact receive_changes P hworks.identified h.shown

theorem Session.Sound.call (h : session.Sound P) (c : Call) :
    ∃ session' events, session.call P c = some (session', events) ∧ session'.Sound P ∧
      ∀ event ∈ events, Replaced session.results.works session'.results.works event := by
  cases c with
  | add incoming => exact h.add P incoming
  | addQuery query =>
    exact ⟨_, [], rfl, h.addQuery P query, fun event hevent => (not_mem_nil hevent).elim⟩

/-- All calls come to their end and keep the invariants. -/
theorem Session.Sound.run (h : session.Sound P) (calls : List Call) :
    ∃ session', session.run P calls = some session' ∧ session'.Sound P := by
  induction calls generalizing session with
  | nil => exact ⟨session, rfl, h⟩
  | cons c calls ih =>
    obtain ⟨next, events, hcall, hnext, -⟩ := h.call P c
    obtain ⟨last, hrun, hlast⟩ := ih hnext
    refine ⟨last, ?_, hlast⟩
    rw [Session.run, foldlM_cons, hcall]
    exact hrun

theorem Session.sound_start (query : String) (language : Option String) :
    (Session.start P query language).Sound P where
  asked := cons_ne_nil _ _
  identified := fun id work hget => absurd hget.symm (Option.some_ne_none work)
  collected := fun k => Iff.rfl
  rebuilt := by
    obtain ⟨works, hrebuild, hworks⟩ := @rebuild_spec P language [] nodup_nil
    have hempty : works = InsertionMap.empty := (Option.some.inj hrebuild).symm
    rw [hempty] at hworks
    exact hworks
  shown := fun id => rfl

/-! ### The partition -/

/-- What the expressions say of the texts below. -/
def samplePatterns : Patterns where
  normalizeTitle text := String.ofList (text.toList.map Char.toLower)
  trim := id
  toLowerCase text := String.ofList (text.toList.map Char.toLower)
  collapse := id
  numberText := id
  isWhole _ := false
  isDecimal _ := false
  titleYear _ := none
  isIdeographic _ := false
  isCyrillicWord _ := false
  exactTopics _ := none
  seasonEpisode _ := none
  seasonCounter _ := none
  titleSeason _ := none
  bracketedYear _ := none
  isBatch _ := false
  dropGroup := id
  explicitEpisode _ := none
  dropSeason := id
  isReleaseNote _ := false
  hasLetters text := text.toList.any Char.isAlpha
  episodeSuffix _ := none
  isLanguageTag _ := false
  dropVoiceLabel := id
  titleQuality _ := none
  isRecorded _ := false
  isRipped _ := false
  resolution _ := none
  labels name := [name]
  beforeRelease _ := none

/-- A torrent of a game. -/
def sampleVariant (id : String) : Variant :=
  ⟨id, "rutor", "RuTor", "Alpha", "https://rutor.info/torrent/" ++ id, .torrent, none, none, none, none,
    none, none, none, none, none, none, none, none, none, none, none, none, none, none, none, none, none,
    none, none⟩

/-- A publication of a game. -/
def sampleWork (id title : String) (variants : List String) : Work where
  id := id
  title := title
  category := .games
  url := none
  cover := none
  description := none
  year := none
  aliases := []
  identifiers := InsertionMap.empty
  notes := []
  variants := variants.map sampleVariant

end Qbutt.Search
