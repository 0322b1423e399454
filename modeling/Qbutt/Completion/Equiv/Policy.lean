import Qbutt.Completion.Equiv.Configuration

/-!
# Completion actions run at most once

The claim keys in the journal are different, what was dispatched stands in the journal, and a
destructive action is dispatched once for a key.  A torrent whose claim was interrupted is held: it
is put into preview when the session is restored, and nothing is dispatched for it until the preview
is accepted.

All this rests on the keys of the claims that `finish` writes being different from each other and
from those in the journal.  A rule of the user with the identifier of the built-in rule breaks it.
-/

namespace Qbutt.Completion

open List Prog

variable {E : Environment} {store : Store} {policy policy' : Policy} {torrent : Torrent}
  {claims : List JsonObject} {accepted : Bool}

/-! ### Invariants -/

def keysOf (entries : List JsonObject) : List String := entries.map entryKey

/-- The keys for which an action was dispatched that removes the torrent. -/
def destroyed (performed : List (String × String)) : List String :=
  (performed.filter fun action => Policy.isDestructive action.2).map Prod.fst

/-- What holds of the store between any two effects. -/
structure Store.Sound (store : Store) : Prop where
  keys : (keysOf (store.journal.getD [])).Nodup
  journalled : ∀ action ∈ store.performed, action.1 ∈ keysOf (store.journal.getD [])
  once : (destroyed store.performed).Nodup
  rules : ∀ configuration, store.rules = some configuration →
    validateConfiguration configuration = none

namespace Policy

/-- The preview of a torrent is being accepted and was lifted for that. -/
def Accepting (policy : Policy) (id : String) : Prop :=
  policy.current = some id ∧ policy.acknowledging ∧ policy.persisting

/-- What holds of the policy between two events, except that the keys of the given claims may not
be known as executed yet. -/
structure SoundWith (claims : List JsonObject) (policy : Policy) : Prop where
  store : policy.toStore.Sound
  configured : validateConfiguration policy.configuration = none
  shown : policy.entries = [] ∨ policy.entries = policy.journal.getD []
  loaded : policy.error = none → policy.entries = policy.journal.getD [] ∧
    ∀ key ∈ keysOf policy.entries, key ∈ keysOf claims ∨ key ∈ policy.executed
  busy : policy.current.isSome →
    policy.error = none ∧ (policy.acknowledging = false → policy.restored)
  ids : ∀ id torrent, policy.torrents.lookup id = some torrent → torrent.id = id
  fresh : policy.restored = false → policy.held = []
  held : ∀ id ∈ policy.held, ∃ torrent, policy.torrents.lookup id = some torrent ∧
    (torrent.isCompletionPolicyPreview ∨ policy.Accepting id)

/-- What holds of the policy between two events. -/
def Sound (policy : Policy) : Prop := policy.SoundWith []

/-! ### Torrents -/

theorem lookup_updateTorrent (policy : Policy) (id id' : String) (change : Torrent → Torrent) :
    (policy.updateTorrent id change).torrents.lookup id' =
      if id' = id then (policy.torrents.lookup id).map change else policy.torrents.lookup id' := by
  unfold updateTorrent
  cases h : policy.torrents.lookup id with
  | none =>
    dsimp only
    split_ifs with heq
    · rw [heq, h, Option.map_none]
    · rfl
  | some torrent => exact Table.lookup_insert_eq _ _ _ _

variable {id : String}

/-- A torrent keeps its identifier and its preview, unless that is being accepted. -/
theorem SoundWith.updateTorrent (h : policy.SoundWith claims) {change : Torrent → Torrent}
    (hid : ∀ torrent, (change torrent).id = torrent.id)
    (hpreview : ∀ torrent : Torrent, torrent.isCompletionPolicyPreview →
      (change torrent).isCompletionPolicyPreview ∨ policy.Accepting id) :
    (policy.updateTorrent id change).SoundWith claims where
  __ := h
  ids id' torrent hlookup := by
    rw [lookup_updateTorrent] at hlookup
    split_ifs at hlookup with heq
    · obtain ⟨old, hold, rfl⟩ := Option.map_eq_some_iff.mp hlookup
      rw [hid, h.ids id old hold, heq]
    · exact h.ids id' torrent hlookup
  held id' hheld := by
    obtain ⟨torrent, hlookup, hcase⟩ := h.held id' hheld
    rw [lookup_updateTorrent]
    by_cases heq : id' = id
    · subst heq
      refine ⟨change torrent, by simp [hlookup], ?_⟩
      rcases hcase with hcase | hcase
      · exact hpreview torrent hcase
      · exact .inr hcase
    · exact ⟨torrent, by rw [if_neg heq, hlookup], hcase⟩

theorem SoundWith.setPreview (h : policy.SoundWith claims) (id : String) :
    (policy.setPreview id true).SoundWith claims :=
  h.updateTorrent (fun _ => rfl) fun _ _ => .inl rfl

theorem SoundWith.endCompletion (h : policy.SoundWith claims) (id : String) (resume : Bool) :
    (policy.endCompletion id resume).SoundWith claims :=
  h.updateTorrent (fun _ => rfl) fun _ hpreview => .inl hpreview

theorem SoundWith.preview_of_held (h : policy.SoundWith claims) (hid : id ∈ policy.held)
    (hlookup : policy.torrents.lookup id = some torrent) (hnot : ¬ policy.Accepting id) :
    torrent.isCompletionPolicyPreview := by
  obtain ⟨torrent', hlookup', hcase⟩ := h.held id hid
  obtain rfl : torrent' = torrent := Option.some.inj (hlookup'.symm.trans hlookup)
  exact hcase.resolve_right hnot

/-! ### Construction and restoration -/

theorem ids_foldl_insert (change : Torrent → Torrent) (hid : ∀ torrent, (change torrent).id = torrent.id)
    (torrents : List Torrent) (table : Table String Torrent)
    (h : ∀ id torrent, table.lookup id = some torrent → torrent.id = id) :
    ∀ id torrent, (torrents.foldl
      (fun (table : Table String Torrent) torrent => table.insert torrent.id (change torrent))
      table).lookup id = some torrent → torrent.id = id := by
  induction torrents generalizing table with
  | nil => exact h
  | cons torrent torrents ih =>
    refine ih _ fun id torrent' hlookup => ?_
    rw [Table.lookup_insert_eq] at hlookup
    split_ifs at hlookup with heq
    · rw [← Option.some.inj hlookup, hid, heq]
    · exact h id torrent' hlookup

theorem construct_sound (h : store.Sound) (torrents : List Torrent)
    (rulesReadable journalReadable : Bool) :
    (construct store torrents rulesReadable journalReadable).Sound := by
  refine ⟨h, ?_, ?_, ?_, fun hbusy => (by cases hbusy), ?_, fun _ => rfl, fun _ hid => (by cases hid)⟩
  · have hconfigured : ∀ refused : Bool, validateConfiguration
        ((if refused then none else store.rules).getD defaultConfiguration) = none := by
      intro refused
      cases refused with
      | true => rfl
      | false =>
        cases hrules : store.rules with
        | none => rfl
        | some rules => exact h.rules rules hrules
    exact hconfigured _
  · unfold construct
    dsimp only
    split_ifs <;> simp
  · intro herror
    refine ⟨?_, fun key hkey => .inr hkey⟩
    revert herror
    unfold construct
    dsimp only
    rw [Option.or_eq_none_iff]
    rintro ⟨hrules, hjournal⟩
    rw [hrules] at hjournal ⊢
    cases journalReadable with
    | true => rfl
    | false =>
      cases hentries : store.journal with
      | none => rfl
      | some entries => simp [hentries] at hjournal
  · exact ids_foldl_insert (fun torrent => { torrent with completing := false }) (fun _ => rfl)
      torrents ∅ fun _ _ hlookup => by simp at hlookup

theorem mem_held_restore (h : policy.Sound) :
    id ∈ policy.restore.held ↔ ∃ torrent, policy.torrents.lookup id = some torrent ∧
      policy.holds torrent := by
  simp only [restore, mem_map, mem_filter, Table.mem_values]
  constructor
  · rintro ⟨torrent, ⟨⟨id', hlookup⟩, hholds⟩, rfl⟩
    rw [h.ids id' torrent hlookup]
    exact ⟨torrent, hlookup, hholds⟩
  · rintro ⟨torrent, hlookup, hholds⟩
    exact ⟨torrent, ⟨⟨id, hlookup⟩, hholds⟩, h.ids id torrent hlookup⟩

theorem restore_sound (h : policy.Sound) : policy.restore.Sound where
  __ := h
  busy hbusy := ⟨(h.busy hbusy).1, fun _ => rfl⟩
  fresh hrestored := by cases hrestored
  ids id torrent hlookup := by
    simp only [restore, Table.lookup_mapValues, Option.map_eq_some_iff] at hlookup
    obtain ⟨old, hold, rfl⟩ := hlookup
    exact h.ids id old hold
  held id hid := by
    obtain ⟨torrent, hlookup, hholds⟩ := (mem_held_restore h).mp hid
    simp only [restore, Table.lookup_mapValues, hlookup, Option.map_some]
    exact ⟨_, rfl, .inl (by simp [hholds])⟩

/-- A torrent with an interrupted claim in the saved journal is held once the session is
restored. -/
theorem restore_holds (h : policy.Sound) {entry : JsonObject}
    (hentry : entry ∈ policy.journal.getD []) (hclaimed : entryStatus entry = "claimed")
    (hlookup : policy.torrents.lookup id = some torrent) (habout : isAbout entry torrent) :
    id ∈ policy.restore.held := by
  refine (mem_held_restore h).mpr ⟨torrent, hlookup, ?_⟩
  cases herror : policy.error with
  | some error => simp [holds, hasError, herror]
  | none =>
    rw [← (h.loaded herror).1] at hentry
    have hunsettled : isUnsettled entry := by simp [isUnsettled, hclaimed]
    simp only [holds, Bool.or_eq_true, any_eq_true, Bool.and_eq_true]
    exact .inr ⟨entry, hentry, hunsettled, habout⟩

/-! ### Events without effects -/

/-- What a step may do to the record of what was dispatched and to the held torrents: only for the
current torrent that is not held an action is added, and only a torrent whose preview is
accepted is given free. -/
structure Follows (E : Environment) (accepted : Bool) (policy policy' : Policy) : Prop where
  performed : ∀ action ∈ policy'.performed, action ∈ policy.performed ∨
    ∃ torrent, policy.current.bind policy.torrents.lookup = some torrent ∧ policy.restored ∧
      torrent.id ∉ policy.held ∧ ∃ rule, action.1 = claimKey E torrent rule
  held : ∀ id ∈ policy.held, id ∈ policy'.held ∨ accepted ∧ policy.Accepting id

theorem follows_of_eq (hperformed : policy'.performed = policy.performed)
    (hheld : policy'.held = policy.held) : policy.Follows E accepted policy' :=
  ⟨fun _ haction => .inl (hperformed ▸ haction), fun _ hid => .inl (hheld ▸ hid)⟩

theorem configure_cases (configuration : JsonObject) (saved : Bool) :
    (policy.configure E configuration saved).2 = policy ∨
      validateConfiguration configuration = none ∧
        (policy.configure E configuration saved).2 =
          { policy with rules := some configuration, configuration := configuration } := by
  unfold configure
  cases policy.isBusy with
  | true => exact .inl rfl
  | false =>
    cases validateConfiguration configuration with
    | some error => exact .inl rfl
    | none =>
      cases policy.error with
      | some error => exact .inl rfl
      | none =>
        cases saved with
        | false => exact .inl rfl
        | true => exact .inr ⟨rfl, rfl⟩

theorem configure_sound (h : policy.Sound) (configuration : JsonObject) (saved : Bool) :
    (policy.configure E configuration saved).2.Sound := by
  rcases @configure_cases E policy configuration saved with
    heq | ⟨hvalid, heq⟩ <;> rw [heq]
  · exact h
  · refine { h with store := { h.store with rules := ?_ }, configured := hvalid }
    rintro _ ⟨⟩
    exact hvalid

theorem configure_follows (configuration : JsonObject) (saved : Bool) :
    policy.Follows E accepted (policy.configure E configuration saved).2 := by
  rcases @configure_cases E policy configuration saved with
    heq | ⟨-, heq⟩ <;> rw [heq] <;> exact follows_of_eq rfl rfl

theorem enqueue_sound (h : policy.Sound) (id : String) (nativeEvent : Bool) :
    (policy.enqueue id nativeEvent).Sound :=
  { h with }

/-- While nothing is being done no preview is being accepted. -/
theorem not_accepting (hidle : policy.current.isSome = false) (id : String) :
    ¬ policy.Accepting id := by
  rintro ⟨hcurrent, -⟩
  rw [hcurrent] at hidle
  cases hidle

theorem drain_sound (h : policy.Sound) (herror : policy.error = none)
    (hidle : policy.current.isSome = false) {nativeEvent acknowledging : Bool}
    (hrestored : acknowledging = false → policy.restored) :
    (policy.drain torrent nativeEvent acknowledging).Sound := by
  have hupdate : (policy.updateTorrent torrent.id fun torrent =>
      { torrent with completing := true, isStopped := true }).Sound :=
    h.updateTorrent (fun _ => rfl) fun _ hpreview => .inl hpreview
  refine { hupdate with busy := fun _ => ⟨herror, hrestored⟩, held := fun id hid => ?_ }
  obtain ⟨torrent', hlookup, hcase⟩ := hupdate.held id hid
  exact ⟨torrent', hlookup, .inl (hcase.resolve_right (not_accepting hidle id))⟩

theorem acknowledgePreview_sound (h : policy.Sound) (id : String) (free : Bool) :
    (policy.acknowledgePreview id free).2.Sound := by
  unfold acknowledgePreview
  cases herror : policy.error with
  | some error => exact h
  | none =>
    cases (policy.torrents.lookup id).filter Torrent.isCompletionPolicyPreview with
    | none => exact h
    | some torrent =>
      dsimp only
      split_ifs with hbusy
      · exact h
      · simp only [Bool.or_eq_true, not_or, isBusy, Bool.not_eq_true] at hbusy
        exact drain_sound h herror hbusy.1.1.1 fun hfalse => by cases hfalse

theorem acknowledgePreview_follows (id : String) (free : Bool) :
    policy.Follows E accepted (policy.acknowledgePreview id free).2 := by
  unfold acknowledgePreview
  cases policy.error <;> [skip; exact follows_of_eq rfl rfl]
  cases (policy.torrents.lookup id).filter Torrent.isCompletionPolicyPreview
  · exact follows_of_eq rfl rfl
  · dsimp only
    split_ifs <;> exact follows_of_eq rfl rfl

theorem process_sound (h : policy.Sound) (free : String → Bool) (canRun : Bool) :
    (policy.process E free canRun).Sound := by
  unfold process
  split_ifs with hstop
  · exact h
  · simp only [Bool.or_eq_true, not_or, isBusy, hasError, Bool.not_eq_true, Bool.not_eq_false',
      Option.isSome_eq_false_iff, Option.isNone_iff_eq_none] at hstop
    obtain ⟨⟨hidle, herror⟩, hrestored⟩ := hstop
    dsimp only
    split
    · exact { h with }
    · next torrent _ =>
      have htaken : Sound
          { policy with
            notifySession := policy.notifySession && !canRun
            pending := policy.pending.erase torrent.id } :=
        { h with }
      exact drain_sound htaken herror (by rw [hidle]; rfl) fun _ => hrestored

theorem process_follows (free : String → Bool) (canRun : Bool) :
    policy.Follows E accepted (policy.process E free canRun) := by
  unfold process
  split_ifs
  · exact follows_of_eq rfl rfl
  · dsimp only
    split <;> exact follows_of_eq rfl rfl

theorem add_sound (h : policy.Sound) (torrent : Torrent) : (policy.add torrent).Sound := by
  unfold add
  split_ifs with hsome
  · exact h
  · refine { h with ids := fun id torrent' hlookup => ?_, held := fun id hid => ?_ }
    · rw [Table.lookup_insert_eq] at hlookup
      split_ifs at hlookup with heq
      · rw [heq, ← Option.some.inj hlookup]
      · exact h.ids id torrent' hlookup
    · obtain ⟨torrent', hlookup, hcase⟩ := h.held id hid
      refine ⟨torrent', ?_, hcase⟩
      rw [Table.lookup_insert_eq, if_neg, hlookup]
      rintro rfl
      rw [hlookup] at hsome
      exact hsome rfl

theorem add_follows (torrent : Torrent) : policy.Follows E accepted (policy.add torrent) := by
  unfold add
  split_ifs <;> exact follows_of_eq rfl rfl

theorem change_sound (h : policy.Sound) (torrent : Torrent) : (policy.change torrent).Sound where
  __ := h
  ids id torrent' hlookup := by
    rw [change, lookup_updateTorrent] at hlookup
    split_ifs at hlookup with heq
    · obtain ⟨old, hold, rfl⟩ := Option.map_eq_some_iff.mp hlookup
      exact heq.symm
    · exact h.ids id torrent' hlookup
  held id hid := by
    obtain ⟨torrent', hlookup, hcase⟩ := h.held id hid
    rw [change, lookup_updateTorrent]
    by_cases heq : id = torrent.id
    · rw [if_pos heq, ← heq, hlookup]
      exact ⟨_, rfl, hcase⟩
    · exact ⟨torrent', by rw [if_neg heq, hlookup], hcase⟩

theorem remove_sound (h : policy.Sound) (id : String) : (policy.remove id).Sound where
  __ := h
  busy hbusy := h.busy (by
    simp only [remove] at hbusy
    split_ifs at hbusy
    · exact absurd hbusy (by decide)
    · exact hbusy)
  ids id' torrent hlookup := by
    simp only [remove, Table.lookup_erase_eq] at hlookup
    split_ifs at hlookup
    exact h.ids id' torrent hlookup
  fresh hrestored := by simp [remove, h.fresh hrestored]
  held id' hid' := by
    obtain ⟨hheld, hne⟩ := mem_filter.mp hid'
    obtain ⟨torrent, hlookup, hcase⟩ := h.held id' hheld
    have hne : id' ≠ id := by simpa using hne
    refine ⟨torrent, by rw [remove, Table.lookup_erase_eq, if_neg hne, hlookup], ?_⟩
    refine hcase.imp_right fun ⟨hcurrent, hrest⟩ => ⟨?_, hrest⟩
    rw [remove, if_neg (by rw [hcurrent]; exact fun heq => hne (Option.some.inj heq)), hcurrent]

/-! ### Claims -/

theorem keysOf_append (entries entries' : List JsonObject) :
    keysOf (entries ++ entries') = keysOf entries ++ keysOf entries' := map_append

theorem entryKey_set_status (entry : JsonObject) (status : String) :
    entryKey (entry.set "status" (.string status)) = entryKey entry := by
  rw [entryKey, JsonObject.get_set, if_neg (by decide), ← entryKey]

theorem keysOf_markLast (entries : List JsonObject) (n : ℕ) (status : String) :
    keysOf (markLast entries n status) = keysOf entries := by
  unfold markLast
  have hmap : ∀ entries : List JsonObject,
      keysOf (entries.map fun entry => entry.set "status" (.string status)) = keysOf entries := by
    intro entries
    rw [keysOf, map_map]
    exact map_congr_left fun entry _ => entryKey_set_status entry status
  rw [keysOf_append, hmap, ← keysOf_append, take_append_drop]

/-- The built-in rule and a rule of the user with its identifier both claim the torrent whose job
is about to end. -/
def Clash (E : Environment) (policy : Policy) (autoRemove : Bool) : Prop :=
  policy.acknowledging = false ∧ policy.persisting ∧ policy.nativeEvent ∧ autoRemove ∧
    ∃ torrent, policy.current.bind policy.torrents.lookup = some torrent ∧
      torrent.isCompletionPolicyPreview = false ∧
      claimKey E torrent builtinRule ∉ policy.executed ∧
      (∃ rule ∈ policy.activeRules, ruleId rule = builtinId ∧ ruleMatches torrent rule.toObject) ∧
      ¬ ∃ rule ∈ policy.activeRules,
        ruleMatches torrent rule.toObject ∧ isTerminalRule rule.toObject

theorem activeRules_ids (h : validateConfiguration policy.configuration = none) :
    (∀ rule ∈ policy.activeRules, ruleId rule ≠ "") ∧ (policy.activeRules.map ruleId).Nodup := by
  unfold activeRules
  split_ifs
  · exact validateConfiguration_ids h
  · exact ⟨fun _ hrule => (by cases hrule), nodup_nil⟩

theorem keysOf_claims (herror : policy.error = none) (removeCompleted : Bool) (time : String) :
    keysOf (policy.claims E torrent removeCompleted time) =
      keysOf ((evaluateRules E policy.executed torrent
        (policy.activeRules ++ if removeCompleted then [.object builtinRule] else [])).filter
          fun entry => !(entry.get "already_claimed").toBool) := by
  unfold claims evaluate hasError
  dsimp only
  rw [herror, Option.isSome_none, if_neg Bool.false_ne_true, keysOf, map_map]
  refine map_congr_left fun entry _ => ?_
  simp only [Function.comp_apply, entryKey_set_status]
  rw [entryKey, JsonObject.get_set, if_neg (by decide), JsonObject.get_drop (by decide), ← entryKey]

theorem mem_unclaimed {rules : List Json} {executed : List String} {key : String}
    (h : key ∈ keysOf ((evaluateRules E executed torrent rules).filter
      fun entry => !(entry.get "already_claimed").toBool)) :
    key ∉ executed ∧ ∃ rule ∈ rules, ruleMatches torrent rule.toObject ∧
      key = claimKey E torrent rule.toObject := by
  obtain ⟨entry, hentry, rfl⟩ := mem_map.mp h
  obtain ⟨hentry, hunclaimed⟩ := mem_filter.mp hentry
  obtain ⟨matching, hsublist, heq, hmatch⟩ := @evaluateRules_sublist E executed torrent rules
  rw [heq] at hentry
  obtain ⟨rule, hrule, rfl⟩ := mem_map.mp hentry
  obtain ⟨hkey, hclaimed⟩ := @ruleEntry_get E executed torrent rule.toObject
  rw [hclaimed] at hunclaimed
  rw [hkey]
  refine ⟨?_, rule, hsublist.subset hrule, hmatch rule hrule, rfl⟩
  simpa [Json.toBool] using hunclaimed

/-- The keys of the claims are different unless the built-in rule clashes with a rule of the
user. -/
theorem claims_nodup (hdigest : E.Collisionless)
    (hvalid : validateConfiguration policy.configuration = none) (herror : policy.error = none)
    (removeCompleted : Bool) (time : String)
    (hclash : removeCompleted = true → claimKey E torrent builtinRule ∉ policy.executed →
      (∃ rule ∈ policy.activeRules, ruleId rule = builtinId ∧ ruleMatches torrent rule.toObject) →
      ∃ rule ∈ policy.activeRules,
        ruleMatches torrent rule.toObject ∧ isTerminalRule rule.toObject) :
    (keysOf (policy.claims E torrent removeCompleted time)).Nodup := by
  rw [keysOf_claims herror]
  obtain ⟨hempty, hids⟩ := activeRules_ids hvalid
  have huser := @evaluateRules_nodup E policy.executed torrent hdigest _ hempty hids
  have hsub : (keysOf ((evaluateRules E policy.executed torrent policy.activeRules).filter
      fun entry => !(entry.get "already_claimed").toBool)).Nodup :=
    huser.sublist (filter_sublist.map _)
  cases removeCompleted with
  | false => simpa using hsub
  | true =>
    rw [if_pos rfl, evaluateRules_append]
    split_ifs with hterminal
    · simpa using hsub
    · rw [filter_append, keysOf_append]
      have hbuiltin : (keysOf ((evaluateRules E policy.executed torrent
          [.object builtinRule]).filter
            fun entry => !(entry.get "already_claimed").toBool)).Nodup := by
        refine List.Nodup.sublist (filter_sublist.map _) (evaluateRules_nodup hdigest ?_ ?_)
        · rintro rule hrule
          rw [mem_singleton.mp hrule]
          decide
        · exact nodup_singleton _
      refine hsub.append hbuiltin fun key hkey hkey' => hterminal ?_
      obtain ⟨-, rule, hrule, hmatch, hclaim⟩ := mem_unclaimed hkey
      obtain ⟨hfresh, rule', hrule', -, hclaim'⟩ := mem_unclaimed hkey'
      obtain rfl := mem_singleton.mp hrule'
      refine hclash rfl (hclaim' ▸ hfresh) ⟨rule, hrule, ?_, hmatch⟩
      exact ruleId_eq hdigest (hempty rule hrule) (by decide) (hclaim.symm.trans hclaim')

/-! ### The end of a job -/

/-- What holds between the effects of `finish`, seen from where it started. -/
def Between (E : Environment) (accepted : Bool) (policy policy' : Policy) : Prop :=
  policy'.toStore.Sound ∧ policy.Follows E accepted policy'

/-- What `finish` knows about the claims of the current torrent. -/
structure Claiming (E : Environment) (policy : Policy) (torrent : Torrent)
    (claims : List JsonObject) : Prop where
  current : policy.current.bind policy.torrents.lookup = some torrent
  restored : policy.restored
  nodup : (keysOf claims).Nodup
  fresh : ∀ key ∈ keysOf claims, key ∉ policy.executed
  rule : ∀ key ∈ keysOf claims, ∃ rule, key = claimKey E torrent rule
  unheld : claims ≠ [] → torrent.id ∉ policy.held

variable {action : String × String}

theorem mem_performing {name : String} (h : action ∈ performing claims name) :
    action.1 ∈ keysOf claims := by
  obtain ⟨claim, hclaim, rfl⟩ := mem_map.mp h
  exact mem_map_of_mem (mem_filter.mp hclaim).1

theorem Claiming.performed (h : policy.Claiming E torrent claims)
    (haction : action.1 ∈ keysOf claims) :
    ∃ torrent, policy.current.bind policy.torrents.lookup = some torrent ∧ policy.restored ∧
      torrent.id ∉ policy.held ∧ ∃ rule, action.1 = claimKey E torrent rule := by
  refine ⟨torrent, h.current, h.restored, h.unheld ?_, h.rule _ haction⟩
  rintro rfl
  cases haction

theorem destroyed_append (performed performed' : List (String × String)) :
    destroyed (performed ++ performed') = destroyed performed ++ destroyed performed' := by
  unfold destroyed
  rw [filter_append, map_append]

theorem destroyed_performing {name : String} (h : isDestructive name = false) :
    destroyed (performing claims name) = [] := by
  unfold destroyed performing
  rw [filter_map, filter_eq_nil_iff.mpr, map_nil, map_nil]
  rintro claim - hdestructive
  simp [h] at hdestructive

theorem destroyed_performing_sublist (name : String) :
    (destroyed (performing claims name)).Sublist (keysOf claims) := by
  unfold destroyed performing
  refine (filter_sublist.map _).trans ?_
  rw [map_map]
  exact filter_sublist.map _

theorem mem_executed_of_destroyed (h : policy.Sound) (herror : policy.error = none) {key : String}
    (hkey : key ∈ destroyed policy.performed) : key ∈ policy.executed := by
  obtain ⟨action, haction, rfl⟩ := mem_map.mp hkey
  obtain ⟨heq, hexecuted⟩ := h.loaded herror
  have hjournal := h.store.journalled action (mem_filter.mp haction).1
  rw [← heq] at hjournal
  exact (hexecuted _ hjournal).resolve_left (by rintro ⟨⟩)

/-- Saving the journal succeeds, or leaves the store and sets the error. -/
theorem keeps_saveJournal {entries : List JsonObject}
    (h : Between E accepted policy { policy' with journal := some entries, entries := entries, error := none }) :
    Prog.Keeps (Between E accepted policy) (· = policy') (saveJournal E entries) fun saved result =>
      result =
        if saved then { policy' with journal := some entries, entries := entries, error := none }
        else { policy' with error := some E.errorString } := by
  refine keeps_bind (keeps_tryEffect (R := fun saved result => result =
    if saved then { policy' with journal := some entries, entries := entries, error := none }
    else policy') ?_ ?_) fun saved => keeps_bind (Q := fun _ result => result =
      if saved then { policy' with journal := some entries, entries := entries, error := none }
      else { policy' with error := some E.errorString }) ?_ fun _ =>
        keeps_pure fun _ _ hresult => hresult
  · rintro _ - rfl
    exact ⟨h, rfl⟩
  · rintro _ - rfl
    rfl
  · refine keeps_when (fun hsaved => keeps_modify ?_) ?_
    · rintro result hbetween rfl
      have hfalse : saved = false := by simpa using hsaved
      rw [hfalse] at hbetween ⊢
      exact ⟨⟨hbetween.1, hbetween.2.performed, hbetween.2.held⟩, rfl⟩
    · rintro hsaved result - rfl
      have htrue : saved = true := by simpa using hsaved
      rw [htrue]
      rfl

/-- What `finish` has established once the torrent is given back; `success` says that the claims
are saved. -/
structure Released (E : Environment) (accepted : Bool) (policy : Policy) (claims : List JsonObject) (success : Bool)
    (policy' : Policy) : Prop where
  sound : policy'.Sound
  follows : policy.Follows E accepted policy'
  idle : policy'.current = none
  error : success → policy'.error = none
  journalled : success → ∀ key ∈ keysOf claims, key ∈ keysOf (policy'.journal.getD [])
  destroyed : destroyed policy'.performed = destroyed policy.performed

theorem SoundWith.idle (h : policy.SoundWith claims) (hclaiming : policy.acknowledging = false) :
    SoundWith claims { policy with current := none } where
  __ := h
  busy hbusy := by cases hbusy
  held id hid := by
    obtain ⟨torrent, hlookup, hcase⟩ := h.held id hid
    refine ⟨torrent, hlookup, .inl (hcase.resolve_right ?_)⟩
    rintro ⟨-, hacknowledging, -⟩
    rw [hclaiming] at hacknowledging
    cases hacknowledging

theorem Claiming.saved (h : policy.Sound) (hclaiming : policy.Claiming E torrent claims)
    (herror : policy.error = none) :
    SoundWith claims
      { policy with
        journal := some (policy.entries ++ claims)
        entries := policy.entries ++ claims
        error := none } where
  __ := h
  store :=
    { h.store with
      keys := by
        obtain ⟨heq, hexecuted⟩ := h.loaded herror
        have hkeys := h.store.keys
        rw [← heq] at hkeys
        rw [Option.getD_some, keysOf_append]
        refine hkeys.append hclaiming.nodup fun key hkey hkey' => hclaiming.fresh key hkey' ?_
        exact (hexecuted key hkey).resolve_left (by rintro ⟨⟩)
      journalled := fun action haction => by
        have hjournalled := h.store.journalled action haction
        rw [← (h.loaded herror).1] at hjournalled
        rw [Option.getD_some, keysOf_append]
        exact mem_append_left _ hjournalled }
  shown := .inr rfl
  loaded _ := by
    refine ⟨rfl, fun key hkey => ?_⟩
    rw [keysOf_append] at hkey
    rcases mem_append.mp hkey with hkey | hkey
    · exact .inr (((h.loaded herror).2 key hkey).resolve_left (by rintro ⟨⟩))
    · exact .inl hkey
  busy hbusy := ⟨rfl, (h.busy hbusy).2⟩

/-- What is dispatched while the torrent is given back. -/
def announced (claims : List JsonObject) : List (String × String) :=
  performing claims "notify" ++
    if terminalOf claims = some "stop" then performing claims "stop" else []

theorem mem_announced (h : action ∈ announced claims) : action.1 ∈ keysOf claims := by
  rcases mem_append.mp h with h | h
  · exact mem_performing h
  · split_ifs at h
    · exact mem_performing h
    · cases h

theorem destroyed_announced (performed : List (String × String)) :
    destroyed (announced claims ++ performed) = destroyed performed := by
  unfold announced
  rw [destroyed_append, destroyed_append, destroyed_performing (by decide), nil_append]
  split_ifs
  · rw [destroyed_performing (by decide), nil_append]
  · rfl

theorem Claiming.released (hclaiming : policy.Claiming E torrent claims)
    (h : SoundWith claims { policy' with current := none }) (herror : policy'.error = none)
    (hperformed : policy'.performed = policy.performed) (hheld : policy'.held = policy.held)
    (hjournal : ∀ key ∈ keysOf claims, key ∈ keysOf (policy'.journal.getD []))
    (notifyFinished : Bool) :
    policy.Released E accepted claims true (policy'.release torrent.id true notifyFinished claims) := by
  have hexecuted : Sound
      { policy' with
        current := none
        executed := keysOf claims ++ policy'.executed
        performed := announced claims ++ policy'.performed } := by
    refine { h with
      store := { h.store with journalled := fun action haction => ?_, once := ?_ }
      loaded := fun hnone => ⟨(h.loaded hnone).1, fun key hkey => .inr ?_⟩ }
    · rcases mem_append.mp haction with haction | haction
      · exact hjournal _ (mem_announced haction)
      · exact h.store.journalled action haction
    · rw [destroyed_announced]
      exact h.store.once
    · exact mem_append.mpr ((h.loaded hnone).2 key hkey)
  have hended := hexecuted.endCompletion torrent.id (terminalOf claims).isNone
  refine ⟨{ hended with }, ⟨fun action haction => ?_, fun id hid => .inl ?_⟩, rfl,
    fun _ => herror, fun _ => hjournal, ?_⟩
  · rcases mem_append.mp haction with haction | haction
    · exact .inr (hclaiming.performed (mem_announced haction))
    · exact .inl (hperformed ▸ haction)
  · exact hheld ▸ hid
  · exact (destroyed_announced _).trans (congrArg destroyed hperformed)

/-- The torrent is given back without claims. -/
theorem released_failed (h : Sound { policy' with current := none })
    (hperformed : policy'.performed = policy.performed) (hheld : policy'.held = policy.held)
    (id : String) (notifyFinished : Bool) :
    policy.Released E accepted claims false (policy'.release id false notifyFinished claims) := by
  have hended := h.endCompletion id false
  exact ⟨{ hended with }, follows_of_eq hperformed hheld, rfl, fun hfalse => (by cases hfalse),
    fun hfalse => (by cases hfalse), congrArg destroyed hperformed⟩

/-- Removing the torrent keeps what holds between two events. -/
theorem Claiming.dispatched {success : Bool} (h : policy.Sound) (herror : policy.error = none)
    (hclaiming : policy.Claiming E torrent claims) (hne : claims ≠ [])
    (hreleased : policy.Released E accepted claims success policy') (hsuccess : success) (action : String) :
    Sound
        { policy' with
          torrents := policy'.torrents.erase torrent.id
          pending := policy'.pending.erase torrent.id
          held := policy'.held.filter (· ≠ torrent.id)
          performed := performing claims action ++ policy'.performed } ∧
      policy.Follows E accepted
        { policy' with
          torrents := policy'.torrents.erase torrent.id
          pending := policy'.pending.erase torrent.id
          held := policy'.held.filter (· ≠ torrent.id)
          performed := performing claims action ++ policy'.performed } := by
  have hsound := hreleased.sound
  constructor
  · refine { hsound with
      store := { hsound.store with journalled := fun a ha => ?_, once := ?_ }
      ids := fun id torrent' hlookup => ?_
      fresh := fun hrestored => by simp [hsound.fresh hrestored]
      held := fun id hid => ?_ }
    · rcases mem_append.mp ha with ha | ha
      · exact hreleased.journalled hsuccess _ (mem_performing ha)
      · exact hsound.store.journalled a ha
    · rw [destroyed_append]
      refine (hclaiming.nodup.sublist (destroyed_performing_sublist action)).append
        hsound.store.once fun key hkey hkey' => ?_
      rw [hreleased.destroyed] at hkey'
      exact hclaiming.fresh key ((destroyed_performing_sublist action).subset hkey)
        (mem_executed_of_destroyed h herror hkey')
    · rw [Table.lookup_erase_eq] at hlookup
      split_ifs at hlookup
      exact hsound.ids id torrent' hlookup
    · obtain ⟨hheld, hne⟩ := mem_filter.mp hid
      obtain ⟨torrent', hlookup, hcase⟩ := hsound.held id hheld
      have hne : id ≠ torrent.id := by simpa using hne
      exact ⟨torrent', by rw [Table.lookup_erase_eq, if_neg hne, hlookup], hcase⟩
  · refine ⟨fun a ha => ?_, fun id hid => ?_⟩
    · rcases mem_append.mp ha with ha | ha
      · exact .inr (hclaiming.performed (mem_performing ha))
      · exact hreleased.follows.performed a ha
    · refine (hreleased.follows.held id hid).imp_left fun hheld => mem_filter.mpr ⟨hheld, ?_⟩
      have hne : id ≠ torrent.id := by
        rintro rfl
        exact hclaiming.unheld hne hid
      simpa using hne

/-- What holds when `finish` returns. -/
structure Finished (E : Environment) (accepted : Bool) (policy : Policy) (success : Bool) (policy' : Policy) :
    Prop where
  sound : policy'.Sound
  follows : policy.Follows E accepted policy'
  idle : policy'.current = none
  error : success → policy'.error = none

theorem Finished.setPreview {success : Bool} (h : policy.Finished E accepted success policy') (id : String) :
    policy.Finished E accepted success (policy'.setPreview id true) :=
  ⟨h.sound.setPreview id, ⟨h.follows.performed, h.follows.held⟩, h.idle, h.error⟩

theorem keeps_dispatch {success : Bool} (h : policy.Sound) (herror : policy.error = none)
    (hclaiming : policy.Claiming E torrent claims) (hne : claims ≠ []) (hsuccess : success)
    (action : String) :
    Prog.Keeps (Between E accepted policy) (policy.Released E accepted claims success)
      (dispatch torrent.id claims action) fun _ => policy.Finished E accepted success := by
  refine keeps_get fun policy' hbetween hreleased => ?_
  have hfinished : policy.Finished E accepted success policy' :=
    { hreleased with }
  cases policy'.torrents.lookup torrent.id with
  | none =>
    refine keeps_pure ?_
    rintro _ - rfl
    exact hfinished
  | some torrent' =>
    refine keeps_bind (Q := fun _ => policy.Finished E accepted success) ?_ fun dispatched => ?_
    · refine keeps_ite (fun _ => ?_) fun _ => keeps_pure ?_
      · refine keeps_tryEffect ?_ ?_
        · rintro _ - rfl
          obtain ⟨hsound, hfollows⟩ := hclaiming.dispatched h herror hne hreleased hsuccess action
          exact ⟨⟨hsound.store, hfollows⟩, hsound, hfollows, hreleased.idle, hreleased.error⟩
        · rintro _ - rfl
          exact hfinished
      · rintro _ - rfl
        exact hfinished
    · refine keeps_bind (Q := fun _ => policy.Finished E accepted success) ?_ fun _ =>
        keeps_pure fun _ _ hresult => hresult
      refine keeps_when (fun _ => keeps_modify ?_) fun _ _ _ hresult => hresult
      intro result hbetween hresult
      have hpreview := hresult.setPreview torrent.id
      exact ⟨⟨hpreview.sound.store, hpreview.follows⟩, hpreview⟩

/-- The last write changes statuses only. -/
theorem keeps_saveMarked {success : Bool} (hfinished : policy.Finished E accepted success policy')
    (herror : policy'.error = none) (n : ℕ) (status : String) :
    Prog.Keeps (Between E accepted policy) (· = policy')
      (saveJournal E (markLast policy'.entries n status)) fun _ result =>
        result.Sound ∧ policy.Follows E accepted result := by
  have hsound := hfinished.sound
  obtain ⟨heq, hexecuted⟩ := hsound.loaded herror
  have hmarked : Sound
      { policy' with
        journal := some (markLast policy'.entries n status)
        entries := markLast policy'.entries n status
        error := none } := by
    refine { hsound with
      store := { hsound.store with keys := ?_, journalled := ?_ }
      shown := .inr rfl
      loaded := fun _ => ⟨rfl, ?_⟩
      busy := fun hbusy => by rw [hfinished.idle] at hbusy; cases hbusy }
    · rw [Option.getD_some, keysOf_markLast, heq]
      exact hsound.store.keys
    · rw [Option.getD_some, keysOf_markLast, heq]
      exact hsound.store.journalled
    · rw [keysOf_markLast]
      exact hexecuted
  have hfollows := hfinished.follows
  refine (keeps_saveJournal ⟨hmarked.store, hfollows.performed, hfollows.held⟩).mono
    (fun _ _ h => h) ?_
  rintro saved _ - rfl
  cases saved with
  | true => exact ⟨hmarked, hfollows.performed, hfollows.held⟩
  | false =>
    refine ⟨{ hsound with loaded := fun hnone => ?_, busy := fun hbusy => ?_ },
      hfollows.performed, hfollows.held⟩
    · cases hnone
    · rw [if_neg Bool.false_ne_true, hfinished.idle] at hbusy
      cases hbusy

theorem claiming_claims (hdigest : E.Collisionless) (h : policy.Sound)
    (hcurrent : policy.current.bind policy.torrents.lookup = some torrent)
    (hclaiming : policy.acknowledging = false) {removeCompleted success : Bool} (time : String)
    (hclash : success → torrent.isCompletionPolicyPreview = false → removeCompleted = true →
      claimKey E torrent builtinRule ∉ policy.executed →
      (∃ rule ∈ policy.activeRules, ruleId rule = builtinId ∧ ruleMatches torrent rule.toObject) →
      ∃ rule ∈ policy.activeRules,
        ruleMatches torrent rule.toObject ∧ isTerminalRule rule.toObject) :
    policy.Claiming E torrent
      (if success && !torrent.isCompletionPolicyPreview then
        policy.claims E torrent removeCompleted time
      else []) := by
  obtain ⟨id, hid, hlookup⟩ := Option.bind_eq_some_iff.mp hcurrent
  obtain ⟨herror, hrestored⟩ := h.busy (by rw [hid]; rfl)
  split_ifs with hcase
  · simp only [Bool.and_eq_true, Bool.not_eq_true'] at hcase
    obtain ⟨hsuccess, hpreview⟩ := hcase
    refine ⟨hcurrent, hrestored hclaiming, ?_, fun key hkey => ?_, fun key hkey => ?_, fun _ hheld => ?_⟩
    · exact claims_nodup hdigest h.configured herror removeCompleted time
        (hclash hsuccess hpreview)
    · rw [keysOf_claims herror] at hkey
      exact (mem_unclaimed hkey).1
    · rw [keysOf_claims herror] at hkey
      obtain ⟨-, rule, -, -, hrule⟩ := mem_unclaimed hkey
      exact ⟨_, hrule⟩
    · rw [h.ids id torrent hlookup] at hheld
      have hnot : ¬ policy.Accepting id := by
        rintro ⟨-, hacknowledging, -⟩
        rw [hclaiming] at hacknowledging
        cases hacknowledging
      rw [h.preview_of_held hheld hlookup hnot] at hpreview
      cases hpreview
  · exact ⟨hcurrent, hrestored hclaiming, nodup_nil, fun _ hkey => (by cases hkey),
      fun _ hkey => (by cases hkey), fun hne => absurd rfl hne⟩

/-- However the write of the claims ends, the torrent is given back properly. -/
theorem keeps_saveClaims (h : policy.Sound) (hacknowledging : policy.acknowledging = false)
    (hclaiming : policy.Claiming E torrent claims) {success : Bool}
    (hsuccess : claims ≠ [] → success) (herror : policy.error = none) (notifyFinished : Bool) :
    Prog.Keeps (Between E accepted policy) (· = policy)
      (if claims.isEmpty then pure true else saveJournal E (policy.entries ++ claims))
      fun saved result => policy.Released E accepted claims (success && saved)
        (result.release torrent.id (success && saved) notifyFinished claims) := by
  have hidle := h.idle hacknowledging
  refine keeps_ite (fun hempty => keeps_pure ?_) fun hempty => ?_
  · rintro _ - rfl
    obtain rfl := isEmpty_iff.mp hempty
    cases success with
    | true =>
      exact hclaiming.released hidle herror rfl rfl (fun _ hkey => by cases hkey) notifyFinished
    | false => exact released_failed hidle rfl rfl torrent.id notifyFinished
  · have hsaved := hclaiming.saved h herror
    have hne : claims ≠ [] := fun heq => hempty (isEmpty_iff.mpr heq)
    refine (@keeps_saveJournal E policy policy accepted _ ⟨hsaved.store, follows_of_eq rfl rfl⟩).mono
      (fun _ _ h => h) ?_
    rintro saved _ - rfl
    rw [hsuccess hne, Bool.true_and]
    cases saved with
    | true =>
      refine hclaiming.released (hsaved.idle hacknowledging) rfl rfl rfl (fun key hkey => ?_)
        notifyFinished
      rw [Option.getD_some, keysOf_append]
      exact mem_append_right _ hkey
    | false =>
      have hfailed : Sound { policy with error := some E.errorString, current := none } :=
        { hidle with loaded := fun hnone => (by cases hnone), busy := fun hbusy => (by cases hbusy) }
      exact @released_failed E policy { policy with error := some E.errorString } claims accepted
        hfailed rfl rfl torrent.id notifyFinished

theorem keeps_finishClaims (hdigest : E.Collisionless) (h : policy.Sound)
    (hcurrent : policy.current.bind policy.torrents.lookup = some torrent)
    (hacknowledging : policy.acknowledging = false) {notifyFinished autoRemove : Bool}
    (time : String) (success : Bool)
    (hclash : success → torrent.isCompletionPolicyPreview = false →
      (notifyFinished && autoRemove) = true → claimKey E torrent builtinRule ∉ policy.executed →
      (∃ rule ∈ policy.activeRules, ruleId rule = builtinId ∧ ruleMatches torrent rule.toObject) →
      ∃ rule ∈ policy.activeRules,
        ruleMatches torrent rule.toObject ∧ isTerminalRule rule.toObject) :
    Prog.Keeps (Between E accepted policy) (· = policy)
      (finishClaims E torrent notifyFinished autoRemove time success) fun _ result =>
        result.Sound ∧ policy.Follows E accepted result := by
  have hclaiming := @claiming_claims E policy torrent hdigest h hcurrent hacknowledging _ success
    time hclash
  obtain ⟨id, hid, hlookup⟩ := Option.bind_eq_some_iff.mp hcurrent
  have herror := (h.busy (by rw [hid]; rfl)).1
  refine keeps_get ?_
  rintro policy - rfl
  dsimp only
  generalize hclaims : (if success && !torrent.isCompletionPolicyPreview then _ else _) = claims
    at hclaiming ⊢
  have hsuccess : claims ≠ [] → success := by
    rintro hne
    cases success with
    | true => rfl
    | false => exact absurd hclaims.symm hne
  refine keeps_bind (keeps_saveClaims h hacknowledging hclaiming hsuccess herror notifyFinished)
    fun saved => ?_
  refine keeps_bind (Q := fun _ => Released E accepted policy claims (success && saved))
    (keeps_modify fun _ _ hreleased =>
      ⟨⟨hreleased.sound.store, hreleased.follows⟩, hreleased⟩) fun _ => ?_
  refine keeps_bind (Q := fun _ => Finished E accepted policy (success && saved)) ?_ fun dispatched => ?_
  · generalize hterminal : (if success && saved then _ else _) = terminal
    cases terminal with
    | none =>
      exact keeps_pure fun _ _ hreleased =>
        { hreleased with }
    | some action =>
      split_ifs at hterminal with hsaved
      refine keeps_dispatch h herror hclaiming ?_ hsaved action
      rintro rfl
      cases hterminal
  · refine keeps_get fun policy' _ hfinished => ?_
    refine keeps_bind (Q := fun _ result => result.Sound ∧ policy.Follows E accepted result) ?_ fun _ => ?_
    · refine keeps_when (fun hcase => ?_) ?_
      · have hsaved := (Bool.and_eq_true_iff.mp hcase).1
        exact keeps_bind (keeps_saveMarked hfinished (hfinished.error hsaved) _ _) fun _ =>
          keeps_pure fun _ _ hresult => hresult
      · rintro - _ - rfl
        exact ⟨hfinished.sound, hfinished.follows⟩
    · refine keeps_when (fun _ => keeps_modify ?_) fun _ _ _ hresult => hresult
      rintro result - ⟨hsound, hfollows⟩
      have hpreview := hsound.setPreview torrent.id
      exact ⟨⟨hpreview.store, hfollows.performed, hfollows.held⟩, hpreview, hfollows.performed,
        hfollows.held⟩

theorem finishAcknowledging_sound (h : policy.Sound) (id : String) (success : Bool)
    (hcurrent : policy.current = some id) : (policy.finishAcknowledging id success).Sound := by
  unfold finishAcknowledging
  cases success with
  | true =>
    have hended := h.endCompletion id false
    refine { hended with
      busy := fun hbusy => by cases hbusy
      fresh := fun hrestored => by
        have hnil : policy.held = [] := h.fresh hrestored
        simp [hnil]
      held := fun id' hid' => ?_ }
    obtain ⟨hheld, hne⟩ := mem_filter.mp hid'
    have hne : id' ≠ id := by simpa using hne
    obtain ⟨torrent, hlookup, hcase⟩ := hended.held id' hheld
    refine ⟨torrent, hlookup, .inl (hcase.resolve_right ?_)⟩
    rintro ⟨hcurrent', -⟩
    exact hne (Option.some.inj (hcurrent'.symm.trans hcurrent))
  | false =>
    have hended := (h.setPreview id).endCompletion id false
    refine { hended with
      busy := fun hbusy => by cases hbusy
      held := fun id' hid' => ?_ }
    by_cases heq : id' = id
    · subst heq
      obtain ⟨torrent, hlookup, -⟩ := h.held id' hid'
      simp [endCompletion, setPreview, lookup_updateTorrent, hlookup]
    · obtain ⟨torrent, hlookup, hcase⟩ := hended.held id' hid'
      refine ⟨torrent, hlookup, .inl (hcase.resolve_right ?_)⟩
      rintro ⟨hcurrent', -⟩
      exact heq (Option.some.inj (hcurrent'.symm.trans hcurrent))

/-- Only a successful end of an acknowledgement gives a torrent free. -/
theorem finishAcknowledging_follows {success : Bool}
    (haccepting : success → accepted ∧ policy.Accepting id) :
    policy.Follows E accepted (policy.finishAcknowledging id success) := by
  cases success with
  | false => exact follows_of_eq rfl rfl
  | true =>
    refine ⟨fun _ haction => .inl haction, fun id' hid' => ?_⟩
    by_cases heq : id' = id
    · exact .inr (heq ▸ haccepting rfl)
    · exact .inl (mem_filter.mpr ⟨hid', by simpa using heq⟩)

/-- The fields that `finish` resets first are of no account for what a step may do. -/
theorem follows_waited :
    ({ policy with nativeEvent := false, waiting := false } : Policy).Follows E accepted policy' ↔
      policy.Follows E accepted policy' :=
  ⟨fun h => ⟨h.performed, h.held⟩, fun h => ⟨h.performed, h.held⟩⟩

/-- The end of a job, unless the built-in rule clashes with a rule of the user. -/
theorem keeps_finish (hdigest : E.Collisionless) (h : policy.Sound) {autoRemove : Bool}
    (time : String) {success : Bool} (hpersisting : success → policy.persisting)
    (haccepted : success → accepted) (hclash : ¬ policy.Clash E (success && autoRemove)) :
    Prog.Keeps (Between E accepted policy) (· = policy) (finish E autoRemove time success) fun _ result =>
      result.Sound ∧ policy.Follows E accepted result := by
  have hwaited : Sound { policy with nativeEvent := false, waiting := false } := { h with }
  refine keeps_get ?_
  rintro policy - rfl
  refine keeps_bind (Q := fun _ => (· = { policy with nativeEvent := false, waiting := false }))
    (keeps_modify ?_) fun _ => ?_
  · rintro _ - rfl
    exact ⟨⟨hwaited.store, follows_of_eq rfl rfl⟩, rfl⟩
  cases hcurrent : policy.current.bind policy.torrents.lookup with
  | none =>
    refine keeps_modify ?_
    rintro _ - rfl
    have hnone : Sound { policy with nativeEvent := false, waiting := false, current := none } := by
      refine { hwaited with busy := fun hbusy => (by cases hbusy), held := fun id hid => ?_ }
      obtain ⟨torrent, hlookup, hcase⟩ := h.held id hid
      refine ⟨torrent, hlookup, .inl (hcase.resolve_right ?_)⟩
      rintro ⟨hid, -⟩
      rw [hid, Option.bind_some, hlookup] at hcurrent
      cases hcurrent
    exact ⟨⟨hnone.store, follows_of_eq rfl rfl⟩, hnone, follows_of_eq rfl rfl⟩
  | some torrent =>
    obtain ⟨id, hid, hlookup⟩ := Option.bind_eq_some_iff.mp hcurrent
    obtain rfl := h.ids id torrent hlookup
    refine keeps_ite (fun hacknowledging => keeps_modify ?_) fun hacknowledging => ?_
    · rintro _ - rfl
      have hsound := finishAcknowledging_sound hwaited torrent.id success hid
      have hfollows := @finishAcknowledging_follows E
        { policy with nativeEvent := false, waiting := false } accepted torrent.id success
        fun hsuccess => ⟨haccepted hsuccess, hid, hacknowledging, hpersisting hsuccess⟩
      exact ⟨⟨hsound.store, hfollows.performed, hfollows.held⟩, hsound, hfollows.performed,
        hfollows.held⟩
    · have hfalse : policy.acknowledging = false := Bool.eq_false_iff.mpr hacknowledging
      have hkeeps := @keeps_finishClaims E { policy with nativeEvent := false, waiting := false }
        torrent accepted hdigest hwaited hcurrent hfalse policy.nativeEvent autoRemove time success
      have hsame : Between E accepted { policy with nativeEvent := false, waiting := false } =
          Between E accepted policy :=
        funext fun _ => propext (and_congr_right fun _ => follows_waited)
      rw [hsame] at hkeeps
      refine (hkeeps fun hsuccess hpreview hboth hexecuted hrule => ?_).mono (fun _ _ h => h)
        fun _ _ _ hresult => ⟨hresult.1, follows_waited.mp hresult.2⟩
      obtain ⟨hnative, hauto⟩ := Bool.and_eq_true_iff.mp hboth
      by_contra hterminal
      exact hclash ⟨hfalse, hpersisting hsuccess, hnative, by rw [hsuccess, hauto]; rfl, torrent,
        hcurrent, hpreview, hexecuted, hrule, hterminal⟩

/-- The handler of the watcher, unless the built-in rule clashes with a rule of the user. -/
theorem keeps_watch (hdigest : E.Collisionless) (h : policy.Sound) {result autoRemove : Bool}
    (time : String) (hclash : ¬ policy.Clash E (result && autoRemove)) :
    Prog.Keeps (Between E result policy) (· = policy) (watch E result autoRemove time) fun _ policy' =>
      policy'.Sound ∧ policy.Follows E result policy' := by
  have hnone : ¬ policy.Clash E (false && autoRemove) := by
    rintro ⟨-, -, -, hfalse, -⟩
    rw [Bool.false_and] at hfalse
    cases hfalse
  have hfailed : Prog.Keeps (Between E result policy) (· = policy) (finish E autoRemove time false)
      fun _ policy' => policy'.Sound ∧ policy.Follows E result policy' :=
    keeps_finish hdigest h time (fun hfalse => absurd hfalse Bool.false_ne_true)
      (fun hfalse => absurd hfalse Bool.false_ne_true) hnone
  refine keeps_get ?_
  rintro policy - rfl
  cases hcurrent : policy.current with
  | none => exact hfailed
  | some id =>
    cases result with
    | false => exact hfailed
    | true =>
      refine keeps_ite (fun hpersisting => absurd hpersisting (by decide)) fun _ => ?_
      refine keeps_ite (fun hpersisting => keeps_modify ?_) fun hpersisting => ?_
      · rintro policy - rfl
        have hpersisted : Sound { policy with persisting := true } := by
          refine { h with held := fun id' hid' => ?_ }
          obtain ⟨torrent, hlookup, hcase⟩ := h.held id' hid'
          exact ⟨torrent, hlookup, hcase.imp_right fun ⟨hcurrent, hack, _⟩ => ⟨hcurrent, hack, rfl⟩⟩
        dsimp only
        split_ifs with hacknowledging
        · have hlifted : Sound (setPreview { policy with persisting := true } id false) :=
            hpersisted.updateTorrent (fun _ => rfl) fun _ _ => .inr ⟨hcurrent, hacknowledging, rfl⟩
          exact ⟨⟨hlifted.store, follows_of_eq rfl rfl⟩, hlifted, follows_of_eq rfl rfl⟩
        · exact ⟨⟨hpersisted.store, follows_of_eq rfl rfl⟩, hpersisted, follows_of_eq rfl rfl⟩
      · exact keeps_finish hdigest h time (fun _ => by simpa using hpersisting) (fun _ => rfl) hclash

end Policy

/-! ### Runs -/

/-- The condition on a step: it does not end a job in which the built-in rule clashes with a rule of
the user. -/
def NoClash (E : Environment) : World → Act → Prop
  | .running policy, .watch result autoRemove _ _ => ¬ policy.Clash E (result && autoRemove)
  | _, _ => True

/-- What holds of a world between two steps. -/
def World.Sound : World → Prop
  | .down store => store.Sound
  | .running policy => policy.Sound

theorem World.Sound.toStore {w : World} (h : w.Sound) : w.store.Sound := by
  cases w with
  | down store => exact h
  | running policy => exact h.store

/-- What a step may do in a session: see `Policy.Follows`.  A torrent is also given free when it is
removed. -/
structure StepFollows (E : Environment) (policy : Policy) (a : Act) (w : World) : Prop where
  performed : ∀ action ∈ w.store.performed, action ∈ policy.performed ∨
    ∃ torrent, policy.current.bind policy.torrents.lookup = some torrent ∧ policy.restored ∧
      torrent.id ∉ policy.held ∧ ∃ rule, action.1 = claimKey E torrent rule
  held : ∀ policy', w = .running policy' → ∀ id ∈ policy.held, id ∈ policy'.held ∨ a = .remove id ∨
    policy.Accepting id ∧ ∃ autoRemove time script, a = .watch true autoRemove time script

theorem Policy.Follows.stepFollows {a : Act} (h : policy.Follows E false policy') :
    StepFollows E policy a (.running policy') := by
  refine ⟨h.performed, ?_⟩
  rintro _ ⟨⟩ id hid
  exact .inl ((h.held id hid).resolve_right fun hfalse => Bool.false_ne_true hfalse.1)

theorem watch_spec (hdigest : E.Collisionless) (h : policy.Sound) {result autoRemove : Bool}
    {time : String} {script : List Fate} {w : World}
    (hclash : ¬ policy.Clash E (result && autoRemove))
    (hs : step E (.running policy) (.watch result autoRemove time script) = some w) :
    w.Sound ∧ StepFollows E policy (.watch result autoRemove time script) w := by
  unfold step at hs
  dsimp only at hs
  split_ifs at hs
  obtain ⟨-, ⟨hstore, hbetween⟩, hreturned⟩ := Policy.keeps_watch hdigest h time hclash
    ⟨policy, script, []⟩ (fun _ hmem => by cases hmem)
    ⟨h.store, Policy.follows_of_eq rfl rfl⟩ rfl
  rcases hrun : Policy.watch E result autoRemove time ⟨policy, script, []⟩ with ⟨_ | _, run⟩ <;>
    rw [hrun] at hs hstore hbetween hreturned <;> obtain rfl := Option.some.inj hs
  · exact ⟨hstore, hbetween.performed, fun _ hdown => by cases hdown⟩
  · obtain ⟨hsound, hfollows⟩ := hreturned _ rfl
    refine ⟨hsound, hfollows.performed, ?_⟩
    rintro _ ⟨⟩ id hid
    refine (hfollows.held id hid).imp_right fun ⟨hresult, haccepting⟩ => .inr ⟨haccepting, ?_⟩
    rw [hresult]
    exact ⟨_, _, _, rfl⟩

theorem step_spec (hdigest : E.Collisionless) {a : Act} {w : World} (h : policy.Sound)
    (ha : NoClash E (.running policy) a) (hs : step E (.running policy) a = some w) :
    w.Sound ∧ StepFollows E policy a w := by
  cases a with
  | start torrents rulesReadable journalReadable => cases hs
  | restored =>
    unfold step at hs
    dsimp only at hs
    split_ifs at hs with hrestored
    cases hs
    refine ⟨Policy.restore_sound h, fun _ haction => .inl haction, ?_⟩
    rintro _ ⟨⟩ id hid
    rw [h.fresh (Bool.eq_false_iff.mpr hrestored)] at hid
    cases hid
  | configure configuration saved =>
    cases hs
    exact ⟨Policy.configure_sound h configuration saved,
      (Policy.configure_follows configuration saved).stepFollows⟩
  | enqueue id nativeEvent =>
    cases hs
    have hfollows : policy.Follows E false (policy.enqueue id nativeEvent) :=
      Policy.follows_of_eq rfl rfl
    exact ⟨Policy.enqueue_sound h id nativeEvent, hfollows.stepFollows⟩
  | process free canRun =>
    cases hs
    exact ⟨Policy.process_sound h free canRun, (Policy.process_follows free canRun).stepFollows⟩
  | acknowledgePreview id free =>
    cases hs
    exact ⟨Policy.acknowledgePreview_sound h id free,
      (Policy.acknowledgePreview_follows id free).stepFollows⟩
  | watch result autoRemove time script => exact watch_spec hdigest h ha hs
  | add torrent =>
    cases hs
    exact ⟨Policy.add_sound h torrent, (Policy.add_follows torrent).stepFollows⟩
  | change torrent =>
    cases hs
    have hfollows : policy.Follows E false (policy.change torrent) :=
      Policy.follows_of_eq rfl rfl
    exact ⟨Policy.change_sound h torrent, hfollows.stepFollows⟩
  | remove id =>
    cases hs
    refine ⟨Policy.remove_sound h id, fun _ haction => .inl haction, ?_⟩
    rintro _ ⟨⟩ id' hid'
    by_cases heq : id = id'
    · exact .inr (.inl (heq ▸ rfl))
    · exact .inl (mem_filter.mpr ⟨hid', by simpa using fun heq' => heq heq'.symm⟩)
  | crash =>
    cases hs
    exact ⟨h.store, fun _ haction => .inl haction, fun _ hdown => by cases hdown⟩

theorem step_sound (hdigest : E.Collisionless) {w w' : World} {a : Act} (h : w.Sound)
    (ha : NoClash E w a) (hs : step E w a = some w') : w'.Sound := by
  cases w with
  | running policy => exact (step_spec hdigest h ha hs).1
  | down store =>
    cases a with
    | start torrents rulesReadable journalReadable =>
      cases hs
      exact Policy.construct_sound h torrents rulesReadable journalReadable
    | _ => cases hs

theorem reachable_sound (hdigest : E.Collisionless) {w : World}
    (hw : (policySystem E).Reachable (NoClash E) w) : w.Sound := by
  refine hw.invariant ?_ fun _ _ _ h ha hs => step_sound hdigest h ha hs
  rintro _ rfl
  exact ⟨nodup_nil, fun _ haction => (by cases haction), nodup_nil,
    fun _ hrules => by cases hrules⟩

/-- The law of the completion actions: keys are claimed once, destructive actions are dispatched once
for a key, a torrent with an interrupted claim is held when the session is restored, and what is held
stays in preview, with nothing dispatched for it, until the preview is accepted. -/
structure ActionsOnce (E : Environment) (w : World) : Prop where
  keys : (keysOf (w.store.journal.getD [])).Nodup
  once : (destroyed w.store.performed).Nodup
  shown : ∀ policy, w = .running policy → (keysOf policy.entries).Nodup
  interrupted : ∀ policy policy', w = .running policy →
    step E w .restored = some (.running policy') →
      ∀ entry ∈ policy.journal.getD [], entryStatus entry = "claimed" →
        ∀ id torrent, policy.torrents.lookup id = some torrent → Policy.isAbout entry torrent →
          id ∈ policy'.held
  preview : ∀ policy, w = .running policy → ∀ id ∈ policy.held, ∃ torrent,
    policy.torrents.lookup id = some torrent ∧
      (torrent.isCompletionPolicyPreview ∨ policy.Accepting id)
  next : ∀ policy a w', w = .running policy → NoClash E w a → step E w a = some w' →
    StepFollows E policy a w'

/-- In every run in which the built-in rule never clashes with a rule of the user, the law of the
completion actions holds throughout. -/
theorem completion_actions_once (hdigest : E.Collisionless) {w : World}
    (hw : (policySystem E).Reachable (NoClash E) w) : ActionsOnce E w := by
  have hsound := reachable_sound hdigest hw
  refine ⟨hsound.toStore.keys, hsound.toStore.once, ?_, ?_, ?_, ?_⟩
  · rintro policy rfl
    rcases hsound.shown with hnil | heq
    · rw [hnil]
      exact nodup_nil
    · rw [heq]
      exact hsound.store.keys
  · rintro policy policy' rfl hs entry hentry hclaimed id torrent hlookup habout
    unfold step at hs
    dsimp only at hs
    split_ifs at hs
    cases hs
    exact Policy.restore_holds hsound hentry hclaimed hlookup habout
  · rintro policy rfl
    exact hsound.held
  · rintro policy a w' rfl ha hs
    exact (step_spec hdigest hsound ha hs).2

def sampleKey (id : String) : String :=
  if id = builtinId then "8f8ac96fcc2cb6513047181156b545bb564ee877851ef483cc0e4f15c8f4ece3"
  else if id = "done" then "d7282f5af2a51287abd4dfeed9f0b00072d08a10d1f81aede16d40f090d900fd"
  else "#" ++ id

def sampleRule (key : String) : String :=
  match key.toList with
  | '8' :: _ => builtinId
  | 'd' :: _ => "done"
  | _ :: id => String.ofList id
  | [] => ""

theorem sampleKey_injective : Function.Injective sampleKey := by
  refine Function.LeftInverse.injective (g := sampleRule) fun id => ?_
  unfold sampleKey
  split_ifs with hbuiltin hdone
  · rw [hbuiltin]
    decide
  · rw [hdone]
    decide
  · unfold sampleRule
    rw [String.toList_append]
    exact String.ofList_toList

/-- A digest that is right for the torrent of the samples and free of collisions. -/
def sampleEnvironment : Environment where
  digest
    | .array [_, _, _, .string id] => sampleKey id
    | _ => ""
  errorString := "Unknown error"

theorem collisionless_sampleEnvironment : sampleEnvironment.Collisionless :=
  fun _ _ _ h => sampleKey_injective h

def sampleTorrent : Torrent where
  id := "8bc3f4b0a9d0a1c1b2c3d4e5f60718293a4b5c6d"
  addedTime := 1700000000000
  name := "sample"
  category := ""
  tags := []
  wanted := [true]
  realRatio := some 0
  finishedTime := 0
  destination := "/downloads"
  isStopped := false
  idle := true
  completing := false
  isCompletionPolicyPreview := false

/-- Rules with one that always applies. -/
def sampleRules (id action : String) : JsonObject :=
  [("allow_delete_data", .bool false), ("enabled", .bool true),
    ("rules", .array [.object
      [("actions", .array [.string action]), ("enabled", .bool true), ("id", .string id),
        ("match", .object [])]])]

/-- A job of the sample torrent that ends with the given effects. -/
def sampleJob (configuration : JsonObject) (autoRemove : Bool) (script : List Fate) : List Act :=
  [.start [] true true, .restored, .configure configuration true, .add sampleTorrent,
    .enqueue sampleTorrent.id true, .process (fun _ => true) false, .watch true autoRemove "" [],
    .watch true autoRemove "" script]

/-- The theorem at a session after a crash between the claim and the removal of the torrent. -/
theorem completion_actions_once_sample : ∃ w,
    (policySystem sampleEnvironment).runAll (.down ⟨none, none, []⟩)
        (sampleJob (sampleRules "done" "remove_torrent") false [.proceed, .kill] ++
          [.start [sampleTorrent] true true]) = some w ∧
      ActionsOnce sampleEnvironment w := by
  obtain ⟨w, hrun⟩ : ∃ w, (policySystem sampleEnvironment).runAll (.down ⟨none, none, []⟩)
      (sampleJob (sampleRules "done" "remove_torrent") false [.proceed, .kill] ++
        [.start [sampleTorrent] true true]) = some w := ⟨_, rfl⟩
  have hallowed : ∀ a ∈ sampleJob (sampleRules "done" "remove_torrent") false [.proceed, .kill] ++
      [.start [sampleTorrent] true true], ∀ w, NoClash sampleEnvironment w a := by
    intro a ha w
    simp only [sampleJob, cons_append, nil_append, mem_cons, not_mem_nil, or_false] at ha
    rcases ha with rfl | rfl | rfl | rfl | rfl | rfl | rfl | rfl | rfl <;> cases w <;>
      first | trivial | exact fun hclash => Bool.false_ne_true hclash.2.2.2.1
  exact ⟨w, hrun, completion_actions_once collisionless_sampleEnvironment
    (System.reachable_of_runAll _ (.start rfl) (System.allowedAll_of_forall hallowed _) hrun)⟩

/-! ### A rule with the reserved identifier -/

/-- A rule of the user with the identifier of the built-in rule is accepted; where both apply to a
torrent, the journal holds their key twice. -/
theorem reserved_id_claims_twice : ∃ w,
    (policySystem sampleEnvironment).Reachable (fun _ _ => True) w ∧
      ¬ (keysOf (w.store.journal.getD [])).Nodup := by
  obtain ⟨w, hrun, hkeys⟩ : ∃ w, (policySystem sampleEnvironment).runAll (.down ⟨none, none, []⟩)
      (sampleJob (sampleRules builtinId "notify") true []) = some w ∧
        ¬ (keysOf (w.store.journal.getD [])).Nodup := ⟨_, rfl, by decide⟩
  exact ⟨w, System.reachable_of_runAll _ (.start rfl)
    (System.allowedAll_of_forall (fun _ _ _ => trivial) _) hrun, hkeys⟩

end Qbutt.Completion
