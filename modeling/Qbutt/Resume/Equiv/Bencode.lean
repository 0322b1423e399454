import Qbutt.Resume.Database

/-!
# Resume files keep a torrent

What the stores return for parameters that they stored are the same parameters (`SameParams`), on the
conditions of `Storable`: a stored flag `stop_when_ready` stands for the stop condition, automatic
management stands for the paths, and a limit is kept in thousandths.  Here this is proved of
resume files (`BencodeResumeDataStorage.load_store`).
-/

namespace Qbutt.Resume

open List

variable {platform : Platform} {β ι : Type} {key k : String} {data : Dictionary × Dictionary}
  {entries : List (String × Entry)}
  {original : LoadTorrentParams platform ι} {tags : OrderedSet platform.tagOrder}

/-! ### Dictionaries -/

theorem lookup_moveEntry :
    ((moveEntry data key).1.lookup k = if k = key then none else data.1.lookup k) ∧
      (data.2.lookup key = none →
        (moveEntry data key).2.lookup k = if k = key then data.1.lookup k else data.2.lookup k) := by
  unfold moveEntry
  split
  · rename_i hnone
    refine ⟨?_, fun hfresh => ?_⟩
    · split_ifs with h
      · rw [h, hnone]
      · rfl
    · split_ifs with h
      · rw [h, hnone, hfresh]
      · rfl
  · rename_i entry hentry
    refine ⟨Table.lookup_erase_eq _ _ _, fun _ => ?_⟩
    rw [Table.lookup_insert_eq]
    split_ifs with h
    · rw [h, hentry]
    · rfl

theorem lookup_foldl_moveEntry {keys : List String} (hnodup : keys.Nodup)
    (hfresh : ∀ key ∈ keys, data.2.lookup key = none) (k : String) :
    (keys.foldl moveEntry data).1.lookup k = (if k ∈ keys then none else data.1.lookup k) ∧
      (keys.foldl moveEntry data).2.lookup k =
        if k ∈ keys then data.1.lookup k else data.2.lookup k := by
  induction keys generalizing data with
  | nil => exact ⟨rfl, rfl⟩
  | cons key keys ih =>
    obtain ⟨hkey, hnodup⟩ := nodup_cons.mp hnodup
    have hmoved : ∀ k, (moveEntry data key).2.lookup k =
        if k = key then data.1.lookup k else data.2.lookup k :=
      fun k => lookup_moveEntry.2 (hfresh key mem_cons_self)
    have hfresh' : ∀ key' ∈ keys, (moveEntry data key).2.lookup key' = none := by
      intro key' hkey'
      have hne : key' ≠ key := fun h => hkey (h ▸ hkey')
      rw [hmoved, if_neg hne]
      exact hfresh key' (mem_cons_of_mem key hkey')
    obtain ⟨hleft, hright⟩ := ih hnodup hfresh'
    rw [foldl_cons, hleft, hright, lookup_moveEntry.1, hmoved]
    by_cases hk : k = key
    · subst hk
      simp [hkey]
    · simp [hk]

theorem foldl_moveEntry_congr {keys : List String} {data' : Dictionary × Dictionary}
    (hlookup : ∀ key ∈ keys, data.1.lookup key = data'.1.lookup key) (hright : data.2 = data'.2) :
    (keys.foldl moveEntry data).2 = (keys.foldl moveEntry data').2 := by
  induction keys generalizing data data' with
  | nil => exact hright
  | cons key keys ih =>
    refine ih (fun k hk => ?_) ?_
    · rw [lookup_moveEntry.1, lookup_moveEntry.1, hlookup k (mem_cons_of_mem key hk)]
    · unfold moveEntry
      rw [← hlookup key mem_cons_self]
      cases data.1.lookup key with
      | none => exact hright
      | some entry => simp only [hright]

theorem lookup_splitMetadata (data : Dictionary) (k : String) :
    (splitMetadata data).1.lookup k = (if k ∈ metadataKeys then none else data.lookup k) ∧
      (splitMetadata data).2.lookup k = if k ∈ metadataKeys then data.lookup k else none :=
  lookup_foldl_moveEntry (by decide) (fun _ _ => rfl) k

theorem lookup_putAll_of_not_mem {data : Dictionary} (h : k ∉ entries.map Prod.fst) :
    (putAll data entries).lookup k = data.lookup k := by
  induction entries generalizing data with
  | nil => rfl
  | cons entry entries ih =>
    obtain ⟨hne, hrest⟩ := not_or.mp (fun hor => h (mem_cons.mpr hor))
    unfold putAll at ih ⊢
    rw [foldl_cons, ih hrest, Table.lookup_insert_eq, if_neg hne]

theorem lookup_putAll {data : Dictionary} {value : Entry} (hnodup : (entries.map Prod.fst).Nodup)
    (h : (k, value) ∈ entries) : (putAll data entries).lookup k = some value := by
  induction entries generalizing data with
  | nil => cases h
  | cons entry entries ih =>
    obtain ⟨hnot, hnodup⟩ := nodup_cons.mp hnodup
    have hfold : putAll data (entry :: entries) =
        putAll (data.insert entry.1 entry.2) entries := rfl
    rw [hfold]
    rcases mem_cons.mp h with rfl | h
    · rw [lookup_putAll_of_not_mem hnot, AList.lookup_insert]
    · exact ih hnodup h

/-! ### What is kept -/

/-- Loaded parameters are the stored ones.  The operating mode of a stopped torrent is not asked
for. -/
structure SameParams (original loaded : LoadTorrentParams platform ι) : Prop where
  name : loaded.name = original.name
  category : loaded.category = original.category
  tags : loaded.tags = original.tags
  comment : loaded.comment = original.comment
  savePath : loaded.savePath = original.savePath
  downloadPath : loaded.downloadPath = original.downloadPath
  useAutoTMM : loaded.useAutoTMM = original.useAutoTMM
  ratioLimit : loaded.ratioLimit = original.ratioLimit
  seedingTimeLimit : loaded.seedingTimeLimit = original.seedingTimeLimit
  inactiveSeedingTimeLimit : loaded.inactiveSeedingTimeLimit = original.inactiveSeedingTimeLimit
  shareLimitAction : loaded.shareLimitAction = original.shareLimitAction
  contentLayout : loaded.contentLayout = original.contentLayout
  firstLastPiecePriority : loaded.firstLastPiecePriority = original.firstLastPiecePriority
  hasFinishedStatus : loaded.hasFinishedStatus = original.hasFinishedStatus
  completionPolicyPreview : loaded.completionPolicyPreview = original.completionPolicyPreview
  stopCondition : loaded.stopCondition = original.stopCondition
  stopped : loaded.stopped = original.stopped
  operatingMode : original.stopped = false → loaded.operatingMode = original.operatingMode

/-- A ratio limit that is a whole number of thousandths, and that number fits an `int`. -/
def InThousandths (ratio : Binary64) : Prop := ∃ n : Int32, ratio.value * 1000 = n.toInt

/-- Metadata has the hashes that the parameters of its torrent name. -/
def HashesAgree (lib : Libtorrent β ι) (hashes : InfoHash) (ti : ι) : Prop :=
  BencodeResumeDataStorage.hashMismatch hashes (lib.infoHashes ti) = false

structure Storable (lib : Libtorrent β ι) (original : LoadTorrentParams platform ι) : Prop where
  nativePath : original.ltAddTorrentParams.savePath ≠ ""
  manual : original.useAutoTMM = false → original.savePath ≠ .empty
  automatic : original.useAutoTMM = true →
    original.savePath = .empty ∧ original.downloadPath = .empty
  ratioLimit : InThousandths original.ratioLimit
  commas : ∀ tag ∈ original.tags.items, ',' ∉ tag.text.toList
  tags : original.tags.items.map Tag.text ≠ [""]
  stopCondition : original.ltAddTorrentParams.flags.stopWhenReady = true →
    original.stopCondition = .filesChecked
  hashes : ∀ ti, original.ltAddTorrentParams.ti = some ti →
    HashesAgree lib original.ltAddTorrentParams.infoHashes ti

/-! ### Native parameters -/

namespace LoadTorrentParams

@[simp] theorem nativeParams_ti (original : LoadTorrentParams platform ι) :
    original.nativeParams.ti = original.ltAddTorrentParams.ti := rfl

@[simp] theorem nativeParams_stopWhenReady (original : LoadTorrentParams platform ι) :
    original.nativeParams.flags.stopWhenReady =
      original.ltAddTorrentParams.flags.stopWhenReady := by
  simp only [nativeParams]
  split_ifs <;> rfl

theorem nativeParams_stopped (original : LoadTorrentParams platform ι) :
    (original.nativeParams.flags.paused && !original.nativeParams.flags.autoManaged) =
      original.stopped := by
  simp only [nativeParams]
  cases original.stopped with
  | true => rfl
  | false => split_ifs <;> simp_all

theorem nativeParams_operatingMode (h : original.stopped = false) :
    (if original.nativeParams.flags.paused || original.nativeParams.flags.autoManaged then
      TorrentOperatingMode.autoManaged else .forced) = original.operatingMode := by
  simp only [nativeParams, h]
  cases original.operatingMode <;> simp

theorem nativeParams_savePath (original : LoadTorrentParams platform ι) :
    platform.fromPortablePath (.ofString platform.dir original.nativeParams.savePath) =
      .ofString platform.dir original.ltAddTorrentParams.savePath := by
  simp only [nativeParams, Path.ofString_toString, platform.from_to]

end LoadTorrentParams

/-! ### Limits and tags -/

theorem toInt_bounds (n : Int32) : -2 ^ 31 ≤ n.toInt ∧ n.toInt < 2 ^ 31 :=
  ⟨n.le_toInt, n.toInt_lt⟩

theorem storedRatioLimit_of_inThousandths {n : Int32}
    (h : original.ratioLimit.value * 1000 = n.toInt) : original.storedRatioLimit = n := by
  obtain ⟨hlow, hhigh⟩ := toInt_bounds n
  have hround : Binary64.round (n.toInt : ℚ) = n.toInt :=
    Binary64.round_intCast (abs_lt.mpr ⟨by omega, by omega⟩)
  simp only [LoadTorrentParams.storedRatioLimit, h, hround, truncate_intCast]
  rw [if_pos ⟨hlow, hhigh⟩, Int32.ofInt_toInt]

theorem loadedRatioLimit_of_inThousandths {ratio : Binary64} {n : Int32}
    (h : ratio.value * 1000 = n.toInt) : loadedRatioLimit n.toInt = ratio := by
  refine Binary64.ext ?_
  have hvalue : (n.toInt : ℚ) / 1000 = ratio.value := by
    rw [← h, mul_div_cancel_right₀ _ (by norm_num)]
  simp only [loadedRatioLimit, Binary64.ofRat, hvalue, ratio.rounded]

theorem loadedRatioLimit_stored (h : InThousandths original.ratioLimit) :
    loadedRatioLimit original.storedRatioLimit.toInt = original.ratioLimit := by
  obtain ⟨n, hn⟩ := h
  rw [storedRatioLimit_of_inThousandths hn, loadedRatioLimit_of_inThousandths hn]

theorem tags_ofList (tags : OrderedSet platform.tagOrder) :
    OrderedSet.ofList ((tags.items.map Tag.text).map (Tag.ofString platform.isSpace)) = tags := by
  rw [map_map]
  have hsame : tags.items.map (Tag.ofString platform.isSpace ∘ Tag.text) = tags.items := by
    conv_rhs => rw [← map_id tags.items]
    exact map_congr_left fun tag _ => Tag.ofString_text tag
  rw [hsame, OrderedSet.ofList_items]

theorem splitTags_joinIntoString (hcommas : ∀ tag ∈ tags.items, ',' ∉ tag.text.toList)
    (hne : tags.items ≠ []) :
    DBResumeDataStorage.splitTags (DBResumeDataStorage.joinIntoString tags) =
      tags.items.map Tag.text := by
  unfold DBResumeDataStorage.splitTags DBResumeDataStorage.joinIntoString
  rw [String.toList_ofList, splitOn_intercalate]
  · rw [map_map]
    exact map_congr_left fun tag _ => String.ofList_toList
  · intro text htext
    obtain ⟨tag, htag, rfl⟩ := mem_map.mp htext
    exact hcommas tag htag
  · exact fun h => hne (map_eq_nil_iff.mp h)

theorem joinIntoString_ne (hcommas : ∀ tag ∈ tags.items, ',' ∉ tag.text.toList)
    (hne : tags.items ≠ []) (hempty : tags.items.map Tag.text ≠ [""]) :
    DBResumeDataStorage.joinIntoString tags ≠ "" := by
  intro hjoin
  have hsplit := splitTags_joinIntoString hcommas hne
  rw [hjoin] at hsplit
  exact hempty hsplit.symm

/-! ### Resume files -/

variable {p : AddTorrentParams ι}

namespace BencodeResumeDataStorage

/-- The keys of the entries that `store` adds, also of those that it may leave out. -/
def ownKeys : List String :=
  ["qBt-ratioLimit", "qBt-seedingTimeLimit", "qBt-inactiveSeedingTimeLimit",
    "qBt-shareLimitAction", "qBt-category", "qBt-tags", "qBt-name", "qBt-comment", "qBt-seedStatus",
    "qbutt-completion-policy-preview", "qBt-contentLayout", "qBt-firstLastPiecePriority",
    "qBt-stopCondition", KEY_SSL_CERTIFICATE, KEY_SSL_PRIVATE_KEY, KEY_SSL_DH_PARAMS,
    "qBt-savePath", "qBt-downloadPath"]

theorem keys_optional (key value : String) :
    ((optional key value).map Prod.fst).Sublist [key] := by
  unfold optional
  split_ifs
  · exact nil_sublist _
  · exact List.Sublist.refl _

theorem keys_ownEntries (original : LoadTorrentParams platform ι) :
    ((ownEntries original).map Prod.fst).Sublist ownKeys := by
  have hpaths : (List.map Prod.fst (if original.useAutoTMM then []
      else
        [("qBt-savePath", Entry.string (platform.toPortablePath original.savePath).data),
          ("qBt-downloadPath", .string (platform.toPortablePath original.downloadPath).data)])).Sublist
      ["qBt-savePath", "qBt-downloadPath"] := by
    split_ifs
    · exact nil_sublist _
    · exact List.Sublist.refl _
  simp only [ownEntries, map_append]
  exact ((((List.Sublist.refl _).append (keys_optional _ _)).append (keys_optional _ _)).append
    (keys_optional _ _)).append hpaths

theorem nodup_ownEntries (original : LoadTorrentParams platform ι) :
    ((ownEntries original).map Prod.fst).Nodup :=
  (keys_ownEntries original).nodup (by decide)

theorem isOwnKey_of_mem (h : key ∈ (ownEntries original).map Prod.fst) : isOwnKey key = true := by
  have hall : ∀ key ∈ ownKeys, isOwnKey key = true := by
    decide +kernel
  exact hall key ((keys_ownEntries original).subset h)

def storedData (lib : Libtorrent β ι) (original : LoadTorrentParams platform ι) : Dictionary :=
  let p := original.nativeParams
  let data := lib.writeResumeData p
  putAll (if p.ti.isSome then (splitMetadata data).1 else data) (ownEntries original)

section
variable {lib : Libtorrent β ι} {original : LoadTorrentParams platform ι}

theorem lookup_storedData_own {value : Entry} (h : (key, value) ∈ ownEntries original) :
    (storedData lib original).lookup key = some value :=
  lookup_putAll (nodup_ownEntries original) h

theorem findString_storedData {value : String}
    (h : (key, Entry.string value) ∈ ownEntries original) :
    (storedData lib original).findString key = value := by
  rw [Dictionary.findString, lookup_storedData_own h]

theorem findInt_storedData {value default : ℤ}
    (h : (key, Entry.integer value) ∈ ownEntries original) :
    (storedData lib original).findInt key default = value := by
  rw [Dictionary.findInt, lookup_storedData_own h]

theorem lookup_storedData_native (hown : isOwnKey key = false) (hmeta : key ∉ metadataKeys) :
    (storedData lib original).lookup key =
      (lib.writeResumeData original.nativeParams).lookup key := by
  have hnot : key ∉ (ownEntries original).map Prod.fst := by
    intro h
    rw [isOwnKey_of_mem h] at hown
    cases hown
  simp only [storedData]
  rw [lookup_putAll_of_not_mem hnot]
  split_ifs
  · rw [(lookup_splitMetadata _ key).1, if_neg hmeta]
  · rfl

theorem lookup_storedData_info (h : lib.Lawful) :
    (storedData lib original).lookup "info" = none := by
  have hnot : "info" ∉ (ownEntries original).map Prod.fst := by
    intro hmem
    have hown := isOwnKey_of_mem hmem
    revert hown
    decide +kernel
  simp only [storedData]
  rw [lookup_putAll_of_not_mem hnot]
  split_ifs with hti
  · rw [(lookup_splitMetadata _ "info").1, if_pos (by decide)]
  · refine h.write_info _ ?_
    rwa [Option.isSome_iff_ne_none, not_not] at hti

theorem read_storedData (h : lib.Lawful) :
    lib.readResumeData (some (storedData lib original)) =
      .ok { original.nativeParams with ti := none } :=
  h.read_write _ _ (fun _ hown hmeta => lookup_storedData_native hown hmeta)
    (lookup_storedData_info h)

/-- Automatic management is read off the missing path. -/
theorem findString_savePath (h : lib.Lawful) (hauto : original.useAutoTMM = true) :
    (storedData lib original).findString "qBt-savePath" = "" := by
  have hnot : "qBt-savePath" ∉ (ownEntries original).map Prod.fst := by
    intro hmem
    have hsub : ((ownEntries original).map Prod.fst).Sublist (ownKeys.take 16) := by
      simp only [ownEntries, map_append, hauto, if_true, map_nil, append_nil]
      exact (((List.Sublist.refl _).append (keys_optional _ _)).append (keys_optional _ _)).append
        (keys_optional _ _)
    have := hsub.subset hmem
    revert this
    decide
  have hwritten := h.write_own original.nativeParams "qBt-savePath" (by decide +kernel)
  have hlookup : (storedData lib original).lookup "qBt-savePath" = none := by
    simp only [storedData]
    rw [lookup_putAll_of_not_mem hnot]
    split_ifs
    · rw [(lookup_splitMetadata _ _).1, hwritten, ite_self]
    · exact hwritten
  rw [Dictionary.findString, hlookup]

/-- What the dictionary says of the paths. -/
theorem paths_storedData (h : lib.Lawful) (hfits : Storable lib original) :
    let savePath := platform.fromPortablePath
      (.ofString platform.dir ((storedData lib original).findString "qBt-savePath"))
    savePath = original.savePath ∧ savePath.isEmpty = original.useAutoTMM ∧
      (if savePath.isEmpty then .empty
        else platform.fromPortablePath
          (.ofString platform.dir ((storedData lib original).findString "qBt-downloadPath"))) =
        original.downloadPath := by
  cases hauto : original.useAutoTMM with
  | true =>
    obtain ⟨hsave, hdownload⟩ := hfits.automatic hauto
    rw [findString_savePath h hauto, Path.ofString_empty, platform.from_empty, hsave, hdownload]
    exact ⟨rfl, rfl, rfl⟩
  | false =>
    have hmem : ∀ key path, (key, path) = ("qBt-savePath", original.savePath) ∨
        (key, path) = ("qBt-downloadPath", original.downloadPath) →
        (key, Entry.string (platform.toPortablePath path).data) ∈ ownEntries original := by
      intro key path hkey
      simp only [ownEntries, hauto, mem_append]
      refine .inr ?_
      rcases hkey with hkey | hkey <;> cases hkey <;> simp
    have hsave : (storedData lib original).findString "qBt-savePath" = _ :=
      findString_storedData (hmem _ _ (.inl rfl))
    have hdownload : (storedData lib original).findString "qBt-downloadPath" = _ :=
      findString_storedData (hmem _ _ (.inr rfl))
    have hnotEmpty : original.savePath.isEmpty = false := by
      rw [← Bool.not_eq_true, Path.isEmpty_iff]
      exact hfits.manual hauto
    rw [hsave, hdownload]
    simp only [Path.ofString_data, platform.from_to, hnotEmpty]
    exact ⟨trivial, trivial, rfl⟩

theorem loadTags_storedData : loadTags (storedData lib original) = original.tags := by
  have hlookup : (storedData lib original).lookup "qBt-tags" =
      some (.list (setToEntryList original.tags)) :=
    lookup_storedData_own (by simp [ownEntries])
  rw [loadTags, hlookup]
  simp only [setToEntryList, map_map]
  have htags := tags_ofList original.tags
  rw [map_map] at htags
  exact htags

theorem loadRatioLimit_storedData (h : InThousandths original.ratioLimit) :
    loadRatioLimit platform (storedData lib original) = original.ratioLimit := by
  have hmem : ("qBt-ratioLimit", Entry.integer original.storedRatioLimit.toInt) ∈
      ownEntries original := by
    simp [ownEntries]
  have hstring : (storedData lib original).findString "qBt-ratioLimit" = "" := by
    rw [Dictionary.findString, lookup_storedData_own hmem]
  simp only [loadRatioLimit, hstring, if_true, findInt_storedData hmem]
  exact loadedRatioLimit_stored h

theorem toInt_ne_zero (b : Bool) : decide ((b.toInt : ℤ) ≠ 0) = b := by
  cases b <;> rfl

theorem sameParams_readParams (h : lib.Lawful) (hfits : Storable lib original)
    (hflags : p.flags = original.nativeParams.flags) :
    SameParams original (readParams platform platform.fromPortablePath (storedData lib original)
      p) := by
  obtain ⟨hsave, hauto, hdownload⟩ := paths_storedData h hfits
  have hint : ∀ key value, (key, Entry.integer value) ∈ ownEntries original → ∀ default,
      (storedData lib original).findInt key default = value :=
    fun _ _ hmem _ => findInt_storedData hmem
  have hstring : ∀ key value, (key, Entry.string value) ∈ ownEntries original →
      (storedData lib original).findString key = value :=
    fun _ _ hmem => findString_storedData hmem
  constructor
  case name => exact hstring _ _ (by simp [ownEntries])
  case category => exact hstring _ _ (by simp [ownEntries])
  case tags => exact loadTags_storedData
  case comment => exact hstring _ _ (by simp [ownEntries])
  case savePath => exact hsave
  case downloadPath => exact hdownload
  case useAutoTMM => exact hauto
  case ratioLimit => exact loadRatioLimit_storedData hfits.ratioLimit
  case seedingTimeLimit =>
    have hvalue := hint "qBt-seedingTimeLimit" original.seedingTimeLimit.toInt
      (by simp [ownEntries]) DEFAULT_SEEDING_TIME_LIMIT
    simp only [readParams, hvalue, Int32.ofInt_toInt]
  case inactiveSeedingTimeLimit =>
    have hvalue := hint "qBt-inactiveSeedingTimeLimit" original.inactiveSeedingTimeLimit.toInt
      (by simp [ownEntries]) DEFAULT_SEEDING_TIME_LIMIT
    simp only [readParams, hvalue, Int32.ofInt_toInt]
  case shareLimitAction =>
    have hvalue := hstring "qBt-shareLimitAction" (fromEnum original.shareLimitAction)
      (by simp [ownEntries])
    simp only [readParams, hvalue, toEnum_fromEnum]
  case contentLayout =>
    have hlookup : (storedData lib original).lookup "qBt-contentLayout" =
        some (.string (fromEnum original.contentLayout)) :=
      lookup_storedData_own (by simp [ownEntries])
    simp only [readParams, loadContentLayout, hlookup, toEnum_fromEnum]
  case firstLastPiecePriority =>
    have hvalue := hint "qBt-firstLastPiecePriority" original.firstLastPiecePriority.toInt
      (by simp [ownEntries]) 0
    simp only [readParams, hvalue, toInt_ne_zero]
  case hasFinishedStatus =>
    have hvalue := hint "qBt-seedStatus" original.hasFinishedStatus.toInt
      (by simp [ownEntries]) 0
    simp only [readParams, hvalue, toInt_ne_zero]
  case completionPolicyPreview =>
    have hvalue := hint "qbutt-completion-policy-preview"
      original.completionPolicyPreview.toInt (by simp [ownEntries]) 0
    simp only [readParams, hvalue, toInt_ne_zero]
  case stopCondition =>
    have hvalue := hstring "qBt-stopCondition" (fromEnum original.stopCondition)
      (by simp [ownEntries])
    simp only [readParams, hflags, LoadTorrentParams.nativeParams_stopWhenReady, hvalue,
      toEnum_fromEnum]
    split_ifs with hready
    · exact (hfits.stopCondition hready).symm
    · rfl
  case stopped =>
    simp only [readParams, hflags]
    exact original.nativeParams_stopped
  case operatingMode =>
    intro hstopped
    simp only [readParams, hflags]
    exact LoadTorrentParams.nativeParams_operatingMode hstopped

def storedMetadata (lib : Libtorrent β ι) (original : LoadTorrentParams platform ι) : β :=
  lib.bencode (splitMetadata (lib.writeResumeData original.nativeParams)).2

theorem lookup_torrent_store (files : ResumeFiles β) (id : String) :
    (store lib files id original).torrent.lookup id =
      if original.ltAddTorrentParams.ti.isSome then some (storedMetadata lib original)
      else files.torrent.lookup id := by
  have hsame : original.nativeParams.ti.isSome = original.ltAddTorrentParams.ti.isSome := rfl
  rw [← hsame]
  simp only [store]
  by_cases h : original.nativeParams.ti.isSome = true
  · rw [if_pos h, if_pos h, AList.lookup_insert]
    rfl
  · rw [if_neg h, if_neg h]

theorem lookup_fastresume_store (files : ResumeFiles β) (id : String) :
    (store lib files id original).fastresume.lookup id =
      some (lib.bencode (storedData lib original)) := by
  simp only [store]
  rw [AList.lookup_insert]
  rfl

theorem parse_bencode (h : lib.Lawful) (what : String) (data : Dictionary) :
    parse lib what (lib.bencode data) = .ok data := by
  rw [parse, h.bdecode_bencode]

theorem withMetadata_stored (h : lib.Lawful) {ti : ι}
    (hti : original.ltAddTorrentParams.ti = some ti)
    (hagree : hashMismatch p.infoHashes (lib.infoHashes ti) = false) :
    withMetadata lib (some (storedMetadata lib original)) p = .ok { p with ti := some ti } := by
  have hinfo : lib.torrentInfo
      (some (splitMetadata (lib.writeResumeData original.nativeParams)).2) = .ok ti := by
    refine h.torrentInfo_write original.nativeParams ti _ hti fun key hkey => ?_
    rw [(lookup_splitMetadata _ key).2, if_pos hkey]
  have hsize : lib.size (storedMetadata lib original) ≠ 0 := (h.size_bencode _).ne'
  simp only [withMetadata]
  rw [if_neg hsize, storedMetadata, parse_bencode h]
  simp only [bind, Except.bind, hinfo, hagree]
  rfl

/-- With metadata that fits the parameters, or without any, the stored dictionary loads to the stored
parameters. -/
theorem load_storedData (h : lib.Lawful) (hfits : Storable lib original) {metadata : Option β}
    {ti : Option ι}
    (hmetadata : withMetadata lib metadata { original.nativeParams with ti := none } =
      .ok { original.nativeParams with ti := ti }) :
    loadTorrentResumeData lib (lib.bencode (storedData lib original)) metadata
        platform.fromPortablePath =
      .ok (readParams platform platform.fromPortablePath (storedData lib original)
        { original.nativeParams with
          ti := ti
          savePath := (Path.ofString platform.dir
            original.ltAddTorrentParams.savePath).toString }) := by
  have hpath : (Path.ofString platform.dir original.ltAddTorrentParams.savePath).toString ≠ "" :=
    fun hempty => hfits.nativePath (Path.eq_empty_of_ofString (Path.eq_empty_of_toString hempty))
  have hhash : ((storedData lib original).lookup "info-hash").isNone = false := by
    have hnative : (storedData lib original).lookup "info-hash" = _ :=
      lookup_storedData_native (by decide +kernel) (by decide)
    have hwritten := h.write_infoHash original.nativeParams
    rw [← hnative] at hwritten
    rw [← Option.not_isSome, hwritten]
    rfl
  simp only [loadTorrentResumeData, parse_bencode h, read_storedData h, bind, Except.bind,
    Except.mapError, hmetadata, LoadTorrentParams.nativeParams_savePath, if_neg hpath, hhash,
    Bool.and_false, Bool.false_eq_true, if_false]

end

end BencodeResumeDataStorage

open BencodeResumeDataStorage (storedData storedMetadata)

section
variable {lib : Libtorrent β ι} {original loaded : LoadTorrentParams platform ι}

/-- What a store may hold from before for a torrent: no metadata, or its metadata. -/
def KeptMetadata (platform : Platform) (lib : Libtorrent β ι) (hashes : InfoHash)
    (metadata : Option β) : Prop :=
  metadata = none ∨ ∃ (earlier : LoadTorrentParams platform ι) (ti : ι),
    earlier.ltAddTorrentParams.ti = some ti ∧ HashesAgree lib hashes ti ∧
      metadata = some (storedMetadata lib earlier)

/-- Files in which a torrent can be stored: torrent files of its metadata are within the limit. -/
structure FilesFit (platform : Platform) (lib : Libtorrent β ι) (torrentSizeLimit : ℕ)
    (files : ResumeFiles β) (id : String) (hashes : InfoHash) : Prop where
  kept : KeptMetadata platform lib hashes (files.torrent.lookup id)
  limit : ∀ (stored : LoadTorrentParams platform ι) (ti : ι),
    stored.ltAddTorrentParams.ti = some ti → HashesAgree lib hashes ti →
      lib.size (storedMetadata lib stored) ≤ torrentSizeLimit

/-- A database in which a torrent can be stored. -/
def RowFits (platform : Platform) (lib : Libtorrent β ι) (db : Database β) (id : String)
    (hashes : InfoHash) : Prop :=
  KeptMetadata platform lib hashes (((db.lookup id).getD ∅).value "metadata").toBytes

structure Reloaded (lib : Libtorrent β ι) (original loaded : LoadTorrentParams platform ι) :
    Prop where
  same : SameParams original loaded
  storable : Storable lib loaded
  hashes : loaded.ltAddTorrentParams.infoHashes = original.ltAddTorrentParams.infoHashes

theorem SameParams.trans {migrated : LoadTorrentParams platform ι}
    (h : SameParams original loaded) (h' : SameParams loaded migrated) :
    SameParams original migrated := by
  constructor
  case operatingMode =>
    intro hstopped
    rw [h'.operatingMode (h.stopped.trans hstopped), h.operatingMode hstopped]
  case name => exact h'.name.trans h.name
  case category => exact h'.category.trans h.category
  case tags => exact h'.tags.trans h.tags
  case comment => exact h'.comment.trans h.comment
  case savePath => exact h'.savePath.trans h.savePath
  case downloadPath => exact h'.downloadPath.trans h.downloadPath
  case useAutoTMM => exact h'.useAutoTMM.trans h.useAutoTMM
  case ratioLimit => exact h'.ratioLimit.trans h.ratioLimit
  case seedingTimeLimit => exact h'.seedingTimeLimit.trans h.seedingTimeLimit
  case inactiveSeedingTimeLimit =>
    exact h'.inactiveSeedingTimeLimit.trans h.inactiveSeedingTimeLimit
  case shareLimitAction => exact h'.shareLimitAction.trans h.shareLimitAction
  case contentLayout => exact h'.contentLayout.trans h.contentLayout
  case firstLastPiecePriority => exact h'.firstLastPiecePriority.trans h.firstLastPiecePriority
  case hasFinishedStatus => exact h'.hasFinishedStatus.trans h.hasFinishedStatus
  case completionPolicyPreview =>
    exact h'.completionPolicyPreview.trans h.completionPolicyPreview
  case stopCondition => exact h'.stopCondition.trans h.stopCondition
  case stopped => exact h'.stopped.trans h.stopped

/-- Loaded parameters have a native path, metadata with the right hashes and no flag
`stop_when_ready`, so they can be stored again. -/
theorem reloaded_of_same (hfits : Storable lib original) (hsame : SameParams original loaded)
    (hpath : loaded.ltAddTorrentParams.savePath =
      (Path.ofString platform.dir original.ltAddTorrentParams.savePath).toString)
    (hready : loaded.ltAddTorrentParams.flags.stopWhenReady = false)
    (hhashes : loaded.ltAddTorrentParams.infoHashes = original.ltAddTorrentParams.infoHashes)
    (hti : ∀ ti, loaded.ltAddTorrentParams.ti = some ti →
      HashesAgree lib original.ltAddTorrentParams.infoHashes ti) :
    Reloaded lib original loaded := by
  refine ⟨hsame, ?_, hhashes⟩
  constructor
  case nativePath =>
    rw [hpath]
    exact fun hempty =>
      hfits.nativePath (Path.eq_empty_of_ofString (Path.eq_empty_of_toString hempty))
  case manual =>
    rw [hsame.useAutoTMM, hsame.savePath]
    exact hfits.manual
  case automatic =>
    rw [hsame.useAutoTMM, hsame.savePath, hsame.downloadPath]
    exact hfits.automatic
  case ratioLimit =>
    rw [hsame.ratioLimit]
    exact hfits.ratioLimit
  case commas =>
    rw [hsame.tags]
    exact hfits.commas
  case tags =>
    rw [hsame.tags]
    exact hfits.tags
  case stopCondition =>
    rw [hready]
    intro h
    cases h
  case hashes =>
    rw [hhashes]
    exact hti

theorem keptMetadata_store (hfits : Storable lib original) {old : Option β}
    (hold : KeptMetadata platform lib original.ltAddTorrentParams.infoHashes old) :
    KeptMetadata platform lib original.ltAddTorrentParams.infoHashes
      (if original.ltAddTorrentParams.ti.isSome then some (storedMetadata lib original)
        else old) := by
  split_ifs with hti
  · obtain ⟨ti, hti⟩ := Option.isSome_iff_exists.mp hti
    exact .inr ⟨original, ti, hti, hfits.hashes ti hti, rfl⟩
  · exact hold

/-! ### Either store returns what it stored -/

namespace BencodeResumeDataStorage

theorem withMetadata_kept (h : lib.Lawful) {metadata : Option β} (hp : p.ti = none)
    (hkept : KeptMetadata platform lib p.infoHashes metadata) :
    ∃ ti, withMetadata lib metadata p = .ok { p with ti := ti } ∧
      ∀ t, ti = some t → HashesAgree lib p.infoHashes t := by
  rcases hkept with rfl | ⟨earlier, t, ht, hagree, rfl⟩
  · refine ⟨none, ?_, fun t ht => by cases ht⟩
    rw [← hp]
    rfl
  · refine ⟨some t, withMetadata_stored h ht hagree, fun t' ht' => ?_⟩
    cases ht'
    exact hagree

theorem load_store (h : lib.Lawful) (hfits : Storable lib original) {torrentSizeLimit : ℕ}
    {files : ResumeFiles β} {id : String}
    (hfiles : FilesFit platform lib torrentSizeLimit files id
      original.ltAddTorrentParams.infoHashes) :
    ∃ loaded, load lib torrentSizeLimit (store lib files id original) id = .ok loaded ∧
      Reloaded lib original loaded := by
  have hkept := keptMetadata_store hfits hfiles.kept
  rw [← lookup_torrent_store] at hkept
  have hlimit : ∀ metadata, (store lib files id original).torrent.lookup id = some metadata →
      ¬ torrentSizeLimit < lib.size metadata := by
    intro metadata hmetadata
    rw [hmetadata] at hkept
    rcases hkept with hnone | ⟨stored, t, ht, hagree, hsome⟩
    · cases hnone
    · cases hsome
      exact not_lt.mpr (hfiles.limit stored t ht hagree)
  obtain ⟨ti, hmetadata, hti⟩ := withMetadata_kept h
    (p := { original.nativeParams with ti := none }) rfl hkept
  have hload : load lib torrentSizeLimit (store lib files id original) id =
      loadTorrentResumeData lib (lib.bencode (storedData lib original))
        ((store lib files id original).torrent.lookup id) platform.fromPortablePath := by
    simp only [load, lookup_fastresume_store]
    cases hlookup : (store lib files id original).torrent.lookup id with
    | none => rfl
    | some metadata => exact if_neg (hlimit metadata hlookup)
  rw [hload, load_storedData h hfits hmetadata]
  exact ⟨_, rfl, reloaded_of_same hfits (sameParams_readParams h hfits rfl) rfl rfl rfl hti⟩

end BencodeResumeDataStorage

end

end Qbutt.Resume
