import Qbutt.Staging.Operation

/-!
# The journal is read as it was written

`Journal.accept` reads what `Journal.toJson` writes, for every journal that matches the target
(`accept_toJson`); and what it accepts matches the target (`accept_spec`).
-/

namespace Qbutt.Staging

open List

/-! ### Numbers and identities -/

theorem readNumber_toString (n : ℕ) : readNumber (toString n) = some n := by
  have hlist : (toString n).toList = Nat.toDigits 10 n := by
    show (Nat.repr n).toList = _
    rw [Nat.repr, String.toList_ofList]
  unfold readNumber
  rw [hlist, Nat.ofDigitChars_toDigits (by omega) (by omega)]
  simp

theorem identityField_of_get {attributes : JsonObject} {key : String} {bound n : ℕ}
    (h : attributes.get key = .string (toString n)) (hn : n < bound) :
    identityField attributes key bound = some ⟨n, hn⟩ := by
  unfold identityField
  rw [h]
  show (readNumber (toString n)).bind _ = _
  rw [readNumber_toString]
  simp [hn]

theorem readIdentity_identityJson (identity : Option FileIdentity) :
    readIdentity (identityJson identity) = some identity := by
  cases identity with
  | none => rfl
  | some identity =>
    have hvolume := @identityField_of_get identity.toJson "volume" (2 ^ 32) identity.volume.toNat rfl
      identity.volume.toNat_lt
    have hid := @identityField_of_get identity.toJson "id" (2 ^ 64) identity.id.toNat rfl
      identity.id.toNat_lt
    have hsize := @identityField_of_get identity.toJson "size" (2 ^ 63) identity.size rfl
      identity.size_lt
    have hmtime := @identityField_of_get identity.toJson "mtime" (2 ^ 64) identity.mtime.toNat rfl
      identity.mtime.toNat_lt
    show (do
      let volume ← identityField identity.toJson "volume" (2 ^ 32)
      let id ← identityField identity.toJson "id" (2 ^ 64)
      let size ← identityField identity.toJson "size" (2 ^ 63)
      let mtime ← identityField identity.toJson "mtime" (2 ^ 64)
      return some
        { volume := UInt32.ofNat volume, id := UInt64.ofNat id, size := size
          mtime := UInt64.ofNat mtime, size_lt := size.2 : FileIdentity }) = _
    rw [hvolume, hid, hsize, hmtime]
    simp

/-! ### States and steps -/

theorem find_step (step : Step) : (Step.all.find? fun s => s.text = step.text) = some step := by
  cases step <;> rfl

theorem find_state {state : State} (h : state ≠ .planned) :
    (State.saved.find? fun s => s.text = state.text) = some state := by
  cases state with
  | planned => exact absurd rfl h
  | _ => rfl

/-! ### Entries -/

structure Entry.Matches (layout : Layout) (entry : Entry) : Prop where
  target : ∃ target, layout.files[entry.index]? = some target ∧ target.pad = false ∧
    entry.path = target.relativePath ∧ entry.size = target.size
  untouched : entry.selected = false → entry.step = .untouched ∧ entry.verified = none
  verified : ∀ identity, entry.verified = some identity →
    ∃ file, identity = some file ∧ file.size = entry.size

variable {layout : Layout} {requiresVerified : Bool} {indexes : List ℕ}
  {torrentId : String} {journal : Journal} {json : JsonObject}

theorem Layout.index_lt {index : ℕ} {target : TargetFile} (h : layout.files[index]? = some target) :
    index < 2 ^ 31 := by
  obtain ⟨hindex, -⟩ := List.getElem?_eq_some_iff.mp h
  have hlength := layout.length_lt
  omega

theorem toInt_natCast {n : ℕ} (h : n < 2 ^ 31) : (Json.number (n : ℚ)).toInt (-1) = n := by
  unfold Json.toInt
  dsimp only
  rw [Rat.den_natCast, Rat.num_natCast, if_pos]
  refine ⟨rfl, ?_, ?_⟩
  · omega
  · exact_mod_cast h

theorem acceptEntry_toJson {entry : Entry} (h : entry.Matches layout)
    (hindex : entry.index ∉ indexes)
    (hverified : requiresVerified → entry.selected → entry.verified.isSome) :
    acceptEntry layout requiresVerified indexes entry.toJson.toObject = some entry := by
  obtain ⟨target, htarget, hpad, hpath, hsize⟩ := h.target
  have hint : (entry.toJson.toObject.get "index").toInt (-1) = entry.index :=
    toInt_natCast (Layout.index_lt htarget)
  have horiginal : readIdentity (entry.toJson.toObject.get "original") = some entry.original :=
    readIdentity_identityJson entry.original
  have hstep : (Step.all.find? fun step => step.text =
      (entry.toJson.toObject.get "step").toStr) = some entry.step := find_step entry.step
  have hread : (if entry.toJson.toObject.has "verified" ||
      (requiresVerified && (entry.toJson.toObject.get "selected").toBool) then
        (readIdentity (entry.toJson.toObject.get "verified")).map some
      else some none) = some entry.verified := by
    have hselected : (entry.toJson.toObject.get "selected").toBool = entry.selected := rfl
    rw [hselected]
    cases hcase : entry.verified with
    | none =>
      have hhas : entry.toJson.toObject.has "verified" = false := by
        simp [Entry.toJson, hcase, Json.toObject, JsonObject.has]
      rw [hhas, Bool.false_or, if_neg]
      rw [Bool.and_eq_true]
      rintro ⟨hrequires, hselected⟩
      have hsome := hverified hrequires hselected
      rw [hcase] at hsome
      cases hsome
    | some identity =>
      have hhas : entry.toJson.toObject.has "verified" = true := by
        simp [Entry.toJson, hcase, Json.toObject, JsonObject.has]
      have hget : entry.toJson.toObject.get "verified" = identityJson identity := by
        unfold Entry.toJson
        rw [hcase]
        rfl
      rw [hhas, Bool.true_or, if_pos rfl, hget, readIdentity_identityJson]
      rfl
  unfold acceptEntry
  dsimp only
  rw [hint, Int.toNat_natCast, htarget]
  simp only [horiginal, hstep, hread, Option.bind_eq_bind, Option.bind_some]
  have hpathget : (entry.toJson.toObject.get "path").toStr = entry.path := rfl
  have hsizeget : (entry.toJson.toObject.get "size").toStr = toString entry.size := rfl
  have hselected : entry.toJson.toObject.get "selected" = .bool entry.selected := rfl
  have hsource : (entry.toJson.toObject.get "source").toStr = entry.source := rfl
  have huntouched : (!entry.selected && decide (entry.step ≠ .untouched)) = false := by
    cases hcase : entry.selected with
    | true => rfl
    | false => simp [(h.untouched hcase).1]
  have hcomplete : (entry.verified.isSome && (!entry.selected || entry.verified.join.isNone ||
      decide (entry.verified.join.map FileIdentity.size ≠ some target.size))) = false := by
    cases hcase : entry.verified with
    | none => rfl
    | some identity =>
      obtain ⟨file, rfl, hfile⟩ := h.verified identity hcase
      have hselected : entry.selected = true := by
        by_contra hnot
        have hnone := (h.untouched (Bool.eq_false_iff.mpr hnot)).2
        rw [hcase] at hnone
        cases hnone
      simp [hselected, hfile, hsize]
  rw [hselected, hpathget, hsizeget, hsource]
  simp only [Json.isBool, Json.toBool, huntouched, hcomplete, hpad, hpath, hsize]
  have hcontains : indexes.contains entry.index = false := by simpa using hindex
  rw [hcontains]
  obtain ⟨index, path, size, source, selected, original, verified, step⟩ := entry
  simp_all

theorem acceptEntries_toJson (files : List Entry) (indexes : List ℕ)
    (h : ∀ entry ∈ files, entry.Matches layout) (hindexes : ∀ entry ∈ files, entry.index ∉ indexes)
    (hnodup : (files.map Entry.index).Nodup)
    (hverified : requiresVerified → ∀ entry ∈ files, entry.selected → entry.verified.isSome) :
    acceptEntries layout requiresVerified indexes (files.map Entry.toJson) = some files := by
  induction files generalizing indexes with
  | nil => rfl
  | cons entry files ih =>
    obtain ⟨hnew, hrest⟩ := nodup_cons.mp hnodup
    have hentry := acceptEntry_toJson (h entry mem_cons_self)
      (hindexes entry mem_cons_self) fun hrequires =>
        hverified hrequires entry mem_cons_self
    have hfiles := ih (entry.index :: indexes) (fun e he => h e (mem_cons_of_mem entry he))
      (fun e he => ?_) hrest
      (fun hrequires e he => hverified hrequires e (mem_cons_of_mem entry he))
    · simp [acceptEntries, hentry, hfiles]
    · rw [mem_cons, not_or]
      refine ⟨fun heq => hnew ?_, hindexes e (mem_cons_of_mem entry he)⟩
      exact heq ▸ mem_map_of_mem he

/-! ### Journals -/

structure Journal.Matches (torrentId : String) (layout : Layout) (journal : Journal) : Prop where
  version : journal.version = 3
  torrent : journal.torrent = torrentId
  operation : isUuid journal.operation
  identity : ∃ bytes, bytes ≠ [] ∧ journal.destinationIdentity = toBase64 bytes
  directories : ∃ bytes, bytes ≠ [] ∧ journal.destinationDirectories = toBase64 bytes
  indexes : journal.files.map Entry.index = layout.targets.map Prod.snd
  entries : ∀ entry ∈ journal.files, entry.Matches layout
  selected : ∃ entry ∈ journal.files, entry.selected
  verified : journal.state.requiresVerified → ∀ entry ∈ journal.files, entry.selected →
    entry.verified.isSome

theorem Layout.targets_nodup (layout : Layout) : (layout.targets.map Prod.snd).Nodup := by
  have hall : (layout.files.zipIdx.map Prod.snd).Nodup := by
    rw [zipIdx_map_snd]
    exact nodup_range'
  exact hall.sublist (filter_sublist.map Prod.snd)

/-- Every journal that matches the target and is saved in one of the states of `load` is read as it
was written. -/
theorem accept_toJson (h : journal.Matches torrentId layout) (hstate : journal.state ≠ .planned) :
    Journal.accept torrentId layout journal.toJson = .ok journal := by
  obtain ⟨identity, hidentity, hidentityText⟩ := h.identity
  obtain ⟨directories, hdirectories, hdirectoriesText⟩ := h.directories
  have hnodup : (journal.files.map Entry.index).Nodup := h.indexes ▸ layout.targets_nodup
  have hfiles := acceptEntries_toJson journal.files [] h.entries (fun _ _ => not_mem_nil)
    hnodup h.verified
  have hversion : (journal.toJson.get "version").toInt 0 = journal.version := by
    show (Json.number journal.version).toInt 0 = journal.version
    rw [h.version]
    rfl
  have hfind : (State.saved.find? fun state => state.text =
      (journal.toJson.get "state").toStr) = some journal.state := find_state hstate
  have hlength : journal.files.length = layout.targets.length := by
    have hlengths := congrArg List.length h.indexes
    simpa using hlengths
  have hselected : journal.files.any Entry.selected = true := any_eq_true.mpr h.selected
  have hidentityGet : (journal.toJson.get "destination_identity").toStr = toBase64 identity :=
    hidentityText
  have hdirectoriesGet :
      (journal.toJson.get "destination_directories").toStr = toBase64 directories :=
    hdirectoriesText
  have htorrentGet : (journal.toJson.get "torrent").toStr = journal.torrent := rfl
  have hoperationGet : (journal.toJson.get "operation").toStr = journal.operation := rfl
  have hfilesGet : (journal.toJson.get "files").toArray = journal.files.map Entry.toJson := rfl
  have hdestinationGet : (journal.toJson.get "destination").toStr = journal.destination := rfl
  have hpayloadGet : (journal.toJson.get "payload_bytes").toStr = journal.payloadBytes := rfl
  have hrequiredGet : (journal.toJson.get "required_bytes").toStr = journal.requiredBytes := rfl
  have havailableGet : (journal.toJson.get "available_bytes").toStr = journal.availableBytes := rfl
  unfold Journal.accept
  dsimp only
  rw [hfind]
  dsimp only
  rw [hversion, hidentityGet, hdirectoriesGet, htorrentGet, hoperationGet, hfilesGet, hfiles,
    fromBase64_toBase64, fromBase64_toBase64, h.version, h.torrent, h.operation, hdestinationGet,
    hpayloadGet, hrequiredGet, havailableGet]
  have hidentityEmpty : identity.isEmpty = false := by simpa using hidentity
  have hdirectoriesEmpty : directories.isEmpty = false := by simpa using hdirectories
  rw [hidentityEmpty, hdirectoriesEmpty]
  simp only [hlength, hselected]
  obtain ⟨version, torrent, operation, destination, destinationIdentity, destinationDirectories,
    state, files, payloadBytes, requiredBytes, availableBytes⟩ := journal
  obtain rfl : version = 3 := h.version
  obtain rfl : torrent = torrentId := h.torrent
  simp_all

/-! ### What is accepted -/

theorem acceptEntry_spec {file : JsonObject} {entry : Entry}
    (h : acceptEntry layout requiresVerified indexes file = some entry) :
    entry.Matches layout ∧ entry.index ∉ indexes ∧
      (requiresVerified → entry.selected → entry.verified.isSome) := by
  unfold acceptEntry at h
  simp only [Option.bind_eq_bind, Option.bind_eq_some_iff] at h
  obtain ⟨target, htarget, original, -, step, -, verified, hverified, h⟩ := h
  split_ifs at h with hbad
  cases h
  simp only [Bool.or_eq_true, not_or, Bool.and_eq_true, decide_eq_true_eq, not_and, ne_eq,
    Decidable.not_not, Bool.not_eq_true', Bool.not_eq_true, Bool.not_eq_false] at hbad
  obtain ⟨⟨⟨⟨⟨⟨⟨-, hindex⟩, hpad⟩, -⟩, -⟩, -⟩, hstep⟩, hcomplete⟩ := hbad
  refine ⟨⟨⟨target, htarget, hpad, rfl, rfl⟩, fun hselected => ⟨hstep hselected, ?_⟩, ?_⟩, ?_, ?_⟩
  · by_contra hsome
    have hselected' := (hcomplete (Option.ne_none_iff_isSome.mp hsome)).1.1
    exact Bool.false_ne_true (hselected.symm.trans hselected')
  · rintro identity rfl
    obtain ⟨⟨-, hjoin⟩, hsize⟩ := hcomplete rfl
    obtain ⟨size, hsome, heq⟩ := Option.map_eq_some_iff.mp hsize
    exact ⟨size, hsome, heq⟩
  · simpa using hindex
  · intro hrequires hselected
    dsimp only at hselected
    rw [if_pos (by simp [hrequires, hselected])] at hverified
    obtain ⟨identity, -, rfl⟩ := Option.map_eq_some_iff.mp hverified
    rfl

theorem acceptEntries_spec {values : List Json} {files : List Entry}
    (h : acceptEntries layout requiresVerified indexes values = some files) :
    (∀ entry ∈ files, entry.Matches layout ∧ entry.index ∉ indexes ∧
      (requiresVerified → entry.selected → entry.verified.isSome)) ∧
      (files.map Entry.index).Nodup := by
  induction values generalizing indexes files with
  | nil =>
    cases h
    exact ⟨fun _ hentry => (by cases hentry), nodup_nil⟩
  | cons value values ih =>
    simp only [acceptEntries, Option.bind_eq_bind, Option.bind_eq_some_iff] at h
    obtain ⟨entry, hentry, rest, hrest, heq⟩ := h
    cases heq
    obtain ⟨hall, hnodup⟩ := ih hrest
    refine ⟨fun e he => ?_, nodup_cons.mpr ⟨fun hmem => ?_, hnodup⟩⟩
    · rcases mem_cons.mp he with rfl | he
      · exact acceptEntry_spec hentry
      · obtain ⟨hmatches, hindex, hverified⟩ := hall e he
        exact ⟨hmatches, fun hmem => hindex (mem_cons_of_mem _ hmem), hverified⟩
    · obtain ⟨e, he, heq⟩ := mem_map.mp hmem
      exact (hall e he).2.1 (heq ▸ mem_cons_self)

/-- What `load` guarantees of a journal: its entries are those of the target files, each of them
once, some of them selected, and all selected ones have the identity of a verified file of the right
size where the state needs it. -/
structure Journal.Accepted (layout : Layout) (journal : Journal) : Prop where
  indexes : (journal.files.map Entry.index).Perm (layout.targets.map Prod.snd)
  entries : ∀ entry ∈ journal.files, ∃ target, layout.files[entry.index]? = some target ∧
    entry.path = target.relativePath ∧ entry.size = target.size
  selected : ∃ entry ∈ journal.files, entry.selected
  untouched : ∀ entry ∈ journal.files, entry.selected = false → entry.step = .untouched
  verified : journal.state = .readyToCommit ∨ journal.state = .committing ∨
    journal.state = .committed → ∀ entry ∈ journal.files, entry.selected →
      ∃ file, entry.verified = some (some file) ∧ file.size = entry.size

theorem Layout.mem_targets {index : ℕ} {target : TargetFile}
    (htarget : layout.files[index]? = some target) (hpad : target.pad = false) :
    (target, index) ∈ layout.targets := by
  refine mem_filter.mpr ⟨?_, by simp [hpad]⟩
  exact mem_zipIdx_iff_getElem?.mpr htarget

/-- What holds of the entries of every journal that was read or verified. -/
structure Journal.Sound (layout : Layout) (journal : Journal) : Prop where
  entries : ∀ entry ∈ journal.files, entry.Matches layout
  nodup : (journal.files.map Entry.index).Nodup
  verified : journal.state.requiresVerified → ∀ entry ∈ journal.files, entry.selected →
    entry.verified.isSome

theorem Journal.Matches.sound (h : journal.Matches torrentId layout) : journal.Sound layout :=
  ⟨h.entries, h.indexes ▸ layout.targets_nodup, h.verified⟩

theorem accept_eq_ok (h : Journal.accept torrentId layout json = .ok journal) :
    (State.saved.find? fun state => state.text = (json.get "state").toStr) = some journal.state ∧
      acceptEntries layout journal.state.requiresVerified [] (json.get "files").toArray =
        some journal.files ∧
      (json.get "operation").toStr = journal.operation ∧
      journal.files.length = layout.targets.length ∧ ∃ entry ∈ journal.files, entry.selected := by
  unfold Journal.accept at h
  dsimp only at h
  split at h
  · cases h
  next state hstate =>
    split_ifs at h with hidentity
    split at h
    · cases h
    next files hfiles =>
      split_ifs at h with hcount
      cases h
      simp only [Bool.or_eq_true, not_or, decide_eq_true_eq, ne_eq, Decidable.not_not,
        Bool.not_eq_true', Bool.not_eq_false] at hcount
      exact ⟨hstate, hfiles, rfl, hcount.1, any_eq_true.mp hcount.2⟩

theorem accept_sound (h : Journal.accept torrentId layout json = .ok journal) :
    journal.Sound layout := by
  obtain ⟨-, hfiles, -⟩ := accept_eq_ok h
  obtain ⟨hall, hnodup⟩ := acceptEntries_spec hfiles
  exact ⟨fun entry hentry => (hall entry hentry).1, hnodup,
    fun hrequires entry hentry => (hall entry hentry).2.2 hrequires⟩

/-- What is saved of a sound journal of any version is read as it was written, if it is read. -/
theorem accept_saved {loaded : Journal} (hsound : journal.Sound layout)
    (hstate : journal.state ≠ .planned)
    (h : Journal.accept torrentId layout journal.toJson = .ok loaded) :
    loaded.files = journal.files ∧ loaded.operation = journal.operation ∧
      loaded.state = journal.state := by
  obtain ⟨hfind, hfiles, hoperation, -⟩ := accept_eq_ok h
  have hstates : some journal.state = some loaded.state := (find_state hstate).symm.trans hfind
  have hstate' : loaded.state = journal.state := (Option.some.inj hstates).symm
  have hread := acceptEntries_toJson journal.files [] hsound.entries (fun _ _ => not_mem_nil)
    hsound.nodup hsound.verified
  rw [hstate'] at hfiles
  have heq : some journal.files = some loaded.files := hread.symm.trans hfiles
  exact ⟨(Option.some.inj heq).symm, hoperation.symm, hstate'⟩

theorem accept_spec (h : Journal.accept torrentId layout json = .ok journal) :
    journal.Accepted layout := by
  obtain ⟨hentries, hnodup, hverified⟩ := accept_sound h
  obtain ⟨-, -, -, hlength, hselected⟩ := accept_eq_ok h
  have hsubset : journal.files.map Entry.index ⊆ layout.targets.map Prod.snd := by
    intro index hindex
    obtain ⟨entry, hentry, rfl⟩ := mem_map.mp hindex
    obtain ⟨target, htarget, hpad, -⟩ := (hentries entry hentry).target
    exact mem_map_of_mem (Layout.mem_targets htarget hpad)
  refine ⟨?_, fun entry hentry => ?_, hselected, fun entry hentry hnot => ?_,
    fun hstates entry hentry hsel => ?_⟩
  · refine (subperm_of_subset hnodup hsubset).perm_of_length_le ?_
    simp [hlength]
  · obtain ⟨target, htarget, -, hpath, hsize⟩ := (hentries entry hentry).target
    exact ⟨target, htarget, hpath, hsize⟩
  · exact ((hentries entry hentry).untouched hnot).1
  · have hrequires : journal.state.requiresVerified := by
      simpa [State.requiresVerified, or_assoc] using hstates
    obtain ⟨identity, hidentity⟩ :=
      Option.isSome_iff_exists.mp (hverified hrequires entry hentry hsel)
    obtain ⟨file, rfl, hsize⟩ := (hentries entry hentry).verified identity hidentity
    exact ⟨file, hidentity, hsize⟩

end Qbutt.Staging
