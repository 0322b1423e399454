import Qbutt.Resume.Equiv.Bencode

/-!
# Both resume stores keep the same torrent

The rows of the database keep the parameters that the resume files keep
(`DBResumeDataStorage.load_store`), and so does moving a torrent from one store to the other
(`resume_stores_agree`).
-/

namespace Qbutt.Resume

open BencodeResumeDataStorage (storedMetadata)

variable {platform : Platform} {β ι : Type}

theorem lookup_foldl_insert {columns : List String} {f : String → Cell β} {row : Row β}
    {column : String} :
    (columns.foldl (fun row column => row.insert column (f column)) row).lookup column =
      if column ∈ columns then some (f column) else row.lookup column := by
  induction columns generalizing row with
  | nil => rfl
  | cons first columns ih =>
    rw [List.foldl_cons, ih, Table.lookup_insert_eq]
    by_cases hfirst : column = first
    · subst hfirst
      simp
    · simp [hfirst]

namespace DBResumeDataStorage

section
variable {lib : Libtorrent β ι} {original : LoadTorrentParams platform ι}

def storedData (lib : Libtorrent β ι) (original : LoadTorrentParams platform ι) : Dictionary :=
  let p := original.nativeParams
  let data := (lib.writeResumeData p).insert "qbutt-completion-policy-preview"
    (.integer original.completionPolicyPreview.toInt)
  if p.ti.isSome then (splitMetadata data).1 else data

theorem metadata_eq (lib : Libtorrent β ι) (original : LoadTorrentParams platform ι) :
    (splitMetadata ((lib.writeResumeData original.nativeParams).insert
      "qbutt-completion-policy-preview" (.integer original.completionPolicyPreview.toInt))).2 =
      (splitMetadata (lib.writeResumeData original.nativeParams)).2 := by
  refine foldl_moveEntry_congr (fun key hkey => ?_) rfl
  have hne : key ≠ "qbutt-completion-policy-preview" := by
    rintro rfl
    revert hkey
    decide
  exact AList.lookup_insert_ne hne

def storedValues (lib : Libtorrent β ι) (id : String) (original : LoadTorrentParams platform ι) :
    List (String × Cell β) :=
  boundValues id original (lib.bencode (storedData lib original))
    (if original.ltAddTorrentParams.ti.isSome then some (storedMetadata lib original) else none)

def storedRow (lib : Libtorrent β ι) (db : Database β) (id : String)
    (original : LoadTorrentParams platform ι) : Row β :=
  (columns original.ltAddTorrentParams.ti.isSome).foldl
    (fun row column =>
      row.insert column (((storedValues lib id original).lookup column).getD .null))
    ((db.lookup id).getD ∅)

theorem lookup_store (h : lib.Lawful) (db : Database β) (id : String) :
    (store lib db id original).lookup id = some (storedRow lib db id original) := by
  have hfilter : ((if original.nativeParams.ti.isSome then
        some (lib.bencode (splitMetadata ((lib.writeResumeData original.nativeParams).insert
          "qbutt-completion-policy-preview"
          (.integer original.completionPolicyPreview.toInt))).2) else none).filter
        fun bytes => decide (0 < lib.size bytes)) =
      if original.ltAddTorrentParams.ti.isSome then some (storedMetadata lib original)
      else none := by
    rw [metadata_eq, LoadTorrentParams.nativeParams_ti]
    split_ifs
    · exact Option.filter_some_pos (decide_eq_true (h.size_bencode _))
    · rfl
  simp only [store, upsert, hfilter]
  rw [AList.lookup_insert]
  rfl

theorem value_storedRow {db : Database β} {id column : String} {cell : Cell β}
    (hcolumn : column ∈ columns original.ltAddTorrentParams.ti.isSome)
    (hvalue : ((storedValues lib id original).lookup column).getD .null = cell) :
    (storedRow lib db id original).value column = cell := by
  rw [Row.value, storedRow, lookup_foldl_insert, if_pos hcolumn, Option.getD_some, hvalue]

theorem mem_columns {column : String} (h : column ∈ columns false) (withMetadata : Bool) :
    column ∈ columns withMetadata := by
  cases withMetadata with
  | false => exact h
  | true => exact List.mem_append_left _ (by simpa [columns] using h)

theorem value_metadata {db : Database β} {id : String} :
    ((storedRow lib db id original).value "metadata").toBytes =
      if original.ltAddTorrentParams.ti.isSome then some (storedMetadata lib original)
      else (((db.lookup id).getD ∅).value "metadata").toBytes := by
  cases hti : original.ltAddTorrentParams.ti.isSome with
  | true =>
    have hvalue : ((storedValues lib id original).lookup "metadata").getD .null =
        .blob (storedMetadata lib original) := by
      simp only [storedValues, boundValues, hti]
      cases original.useAutoTMM <;> simp [List.lookup_cons]
    rw [value_storedRow (by rw [hti]; decide) hvalue]
    rfl
  | false =>
    rw [Row.value, storedRow, lookup_foldl_insert, hti, if_neg (by decide)]
    rfl

theorem value_of_bound {db : Database β} {id column : String} {cell : Cell β}
    (hcolumn : column ∈ columns false)
    (hvalue : (storedValues lib id original).lookup column = some cell) :
    (storedRow lib db id original).value column = cell :=
  value_storedRow (mem_columns hcolumn _) (by rw [hvalue, Option.getD_some])

/-! ### The native resume data -/

theorem lookup_storedData {key : String} (hmeta : key ∉ metadataKeys) :
    (storedData lib original).lookup key =
      if key = "qbutt-completion-policy-preview" then
        some (.integer original.completionPolicyPreview.toInt)
      else (lib.writeResumeData original.nativeParams).lookup key := by
  simp only [storedData]
  rw [← Table.lookup_insert_eq]
  split_ifs
  · rw [(lookup_splitMetadata _ key).1, if_neg hmeta]
  · rfl

theorem lookup_storedData_info (h : lib.Lawful) :
    (storedData lib original).lookup "info" = none := by
  simp only [storedData]
  split_ifs with hti
  · rw [(lookup_splitMetadata _ "info").1, if_pos (by decide)]
  · rw [AList.lookup_insert_ne (by decide)]
    refine h.write_info _ ?_
    rwa [Option.isSome_iff_ne_none, not_not] at hti

theorem read_storedData (h : lib.Lawful) :
    lib.readResumeData (some (storedData lib original)) =
      .ok { original.nativeParams with ti := none } := by
  refine h.read_write _ _ (fun key hown hmeta => ?_) (lookup_storedData_info h)
  have hne : key ≠ "qbutt-completion-policy-preview" := by
    rintro rfl
    revert hown
    decide +kernel
  rw [lookup_storedData hmeta, if_neg hne]

theorem findInt_preview :
    (storedData lib original).findInt "qbutt-completion-policy-preview" 0 =
      original.completionPolicyPreview.toInt := by
  rw [Dictionary.findInt, lookup_storedData (by decide), if_pos rfl]

/-! ### The columns -/

theorem loadTags_storedRow (hfits : Storable lib original) {db : Database β} {id : String} :
    loadTags (storedRow lib db id original) = original.tags := by
  have hvalue : (storedRow lib db id original).value "tags" =
      if original.tags.items = [] then .null else .text (joinIntoString original.tags) :=
    value_of_bound (by decide) (by simp [storedValues, boundValues, List.lookup_cons])
  by_cases hitems : original.tags.items = []
  · rw [loadTags, hvalue, if_pos hitems]
    exact OrderedSet.ext hitems.symm
  · have hjoin := joinIntoString_ne hfits.commas hitems hfits.tags
    rw [loadTags, hvalue, if_neg hitems]
    simp only [Cell.toStr, if_neg hjoin, splitTags_joinIntoString hfits.commas hitems]
    exact tags_ofList original.tags

theorem paths_storedRow (hfits : Storable lib original) {db : Database β} {id : String} :
    let row := storedRow lib db id original
    let savePath := platform.fromPortablePath
      (.ofString platform.dir (row.value "target_save_path").toStr)
    savePath = original.savePath ∧ savePath.isEmpty = original.useAutoTMM ∧
      (if savePath.isEmpty then .empty
        else platform.fromPortablePath (.ofString platform.dir (row.value "download_path").toStr)) =
        original.downloadPath := by
  cases hauto : original.useAutoTMM with
  | true =>
    have hsave : (storedRow lib db id original).value "target_save_path" = .null := by
      refine value_storedRow (mem_columns (by decide) _) ?_
      cases hti : original.ltAddTorrentParams.ti <;>
        simp [storedValues, boundValues, hauto, hti, List.lookup_cons]
    obtain ⟨hsavePath, hdownloadPath⟩ := hfits.automatic hauto
    simp only [hsave, Cell.toStr, Path.ofString_empty, platform.from_empty]
    rw [hsavePath, hdownloadPath]
    exact ⟨rfl, rfl, rfl⟩
  | false =>
    have hsave : (storedRow lib db id original).value "target_save_path" =
        .text (platform.toPortablePath original.savePath).data :=
      value_of_bound (by decide) (by simp [storedValues, boundValues, hauto, List.lookup_cons])
    have hdownload : (storedRow lib db id original).value "download_path" =
        .text (platform.toPortablePath original.downloadPath).data :=
      value_of_bound (by decide) (by simp [storedValues, boundValues, hauto, List.lookup_cons])
    have hnotEmpty : original.savePath.isEmpty = false := by
      rw [← Bool.not_eq_true, Path.isEmpty_iff]
      exact hfits.manual hauto
    simp only [hsave, hdownload, Cell.toStr, Path.ofString_data, platform.from_to, hnotEmpty]
    exact ⟨trivial, trivial, rfl⟩

theorem sameParams_readParams (hfits : Storable lib original) {db : Database β} {id : String}
    {p : AddTorrentParams ι} (hflags : p.flags = original.nativeParams.flags) :
    SameParams original (readParams platform platform.fromPortablePath
      (storedRow lib db id original) (storedData lib original) p) := by
  obtain ⟨hsave, hauto, hdownload⟩ := @paths_storedRow _ _ _ lib _ hfits db id
  have hvalue : ∀ column cell, column ∈ columns false →
      (storedValues lib id original).lookup column = some cell →
      (storedRow lib db id original).value column = cell :=
    fun _ _ hcolumn hbound => value_of_bound hcolumn hbound
  have hinteger : ∀ n : Int32, (Cell.integer n.toInt : Cell β).toInt = n :=
    fun n => Int32.ofInt_toInt n
  have hbool : ∀ b : Bool, (Cell.integer b.toInt : Cell β).toBool = b :=
    fun b => BencodeResumeDataStorage.toInt_ne_zero b
  constructor
  case name =>
    have hcell := hvalue "name" (.text original.name) (by decide)
      (by simp [storedValues, boundValues, List.lookup_cons])
    simp only [readParams, hcell, Cell.toStr]
  case category =>
    have hcell := hvalue "category" (.text original.category) (by decide)
      (by simp [storedValues, boundValues, List.lookup_cons])
    simp only [readParams, hcell, Cell.toStr]
  case tags => exact loadTags_storedRow hfits
  case comment =>
    have hcell := hvalue "comment" (.text original.comment) (by decide)
      (by simp [storedValues, boundValues, List.lookup_cons])
    simp only [readParams, hcell, Cell.toStr]
  case savePath => exact hsave
  case downloadPath => exact hdownload
  case useAutoTMM => exact hauto
  case ratioLimit =>
    have hcell := hvalue "ratio_limit" (.integer original.storedRatioLimit.toInt) (by decide)
      (by simp [storedValues, boundValues, List.lookup_cons])
    simp only [readParams, hcell, hinteger]
    exact loadedRatioLimit_stored hfits.ratioLimit
  case seedingTimeLimit =>
    have hcell := hvalue "seeding_time_limit" (.integer original.seedingTimeLimit.toInt) (by decide)
      (by simp [storedValues, boundValues, List.lookup_cons])
    simp only [readParams, hcell, hinteger]
  case inactiveSeedingTimeLimit =>
    have hcell := hvalue "inactive_seeding_time_limit"
      (.integer original.inactiveSeedingTimeLimit.toInt) (by decide)
      (by simp [storedValues, boundValues, List.lookup_cons])
    simp only [readParams, hcell, hinteger]
  case shareLimitAction =>
    have hcell := hvalue "share_limit_action" (.text (fromEnum original.shareLimitAction))
      (by decide) (by simp [storedValues, boundValues, List.lookup_cons])
    simp only [readParams, hcell, Cell.toStr, toEnum_fromEnum]
  case contentLayout =>
    have hcell := hvalue "content_layout" (.text (fromEnum original.contentLayout)) (by decide)
      (by simp [storedValues, boundValues, List.lookup_cons])
    simp only [readParams, hcell, Cell.toStr, toEnum_fromEnum]
  case firstLastPiecePriority =>
    have hcell := hvalue "has_outer_pieces_priority"
      (.integer original.firstLastPiecePriority.toInt) (by decide)
      (by simp [storedValues, boundValues, List.lookup_cons])
    simp only [readParams, hcell, hbool]
  case hasFinishedStatus =>
    have hcell := hvalue "has_seed_status" (.integer original.hasFinishedStatus.toInt) (by decide)
      (by simp [storedValues, boundValues, List.lookup_cons])
    simp only [readParams, hcell, hbool]
  case completionPolicyPreview =>
    simp only [readParams, findInt_preview]
    exact BencodeResumeDataStorage.toInt_ne_zero _
  case stopCondition =>
    have hcell := hvalue "stop_condition" (.text (fromEnum original.stopCondition)) (by decide)
      (by simp [storedValues, boundValues, List.lookup_cons])
    simp only [readParams, hflags, LoadTorrentParams.nativeParams_stopWhenReady, hcell, Cell.toStr,
      toEnum_fromEnum]
    split_ifs with hready
    · exact (hfits.stopCondition hready).symm
    · rfl
  case stopped =>
    have hcell := hvalue "stopped" (.integer original.stopped.toInt) (by decide)
      (by simp [storedValues, boundValues, List.lookup_cons])
    simp only [readParams, hcell, hbool]
  case operatingMode =>
    intro _
    have hcell := hvalue "operating_mode" (.text (fromEnum original.operatingMode)) (by decide)
      (by simp [storedValues, boundValues, List.lookup_cons])
    simp only [readParams, hcell, Cell.toStr, toEnum_fromEnum]

theorem withMetadata_kept (h : lib.Lawful) {metadata : Option β} {p : AddTorrentParams ι}
    (hp : p.ti = none) (hkept : KeptMetadata platform lib p.infoHashes metadata) :
    ∃ ti, withMetadata lib metadata p = .ok { p with ti := ti } ∧
      ∀ t, ti = some t → HashesAgree lib p.infoHashes t := by
  rcases hkept with rfl | ⟨earlier, t, ht, hagree, rfl⟩
  · refine ⟨none, ?_, fun t ht => by cases ht⟩
    rw [← hp]
    rfl
  · have hinfo : lib.torrentInfo
        (some (splitMetadata (lib.writeResumeData earlier.nativeParams)).2) = .ok t := by
      refine h.torrentInfo_write earlier.nativeParams t _ ht fun key hkey => ?_
      rw [(lookup_splitMetadata _ key).2, if_pos hkey]
    have hsize : lib.size (storedMetadata lib earlier) ≠ 0 := (h.size_bencode _).ne'
    refine ⟨some t, ?_, fun t' ht' => ?_⟩
    · simp only [withMetadata]
      rw [if_neg hsize, storedMetadata, decode, h.bdecode_bencode]
      simp only [bind, Except.bind, Except.mapError, hinfo]
    · cases ht'
      exact hagree

theorem load_store (h : lib.Lawful) (hfits : Storable lib original) {db : Database β} {id : String}
    (hrow : RowFits platform lib db id original.ltAddTorrentParams.infoHashes) :
    ∃ loaded, load lib (store lib db id original) id = .ok loaded ∧
      Reloaded lib original loaded := by
  have hkept := keptMetadata_store hfits hrow
  rw [← value_metadata] at hkept
  obtain ⟨ti, hmetadata, hti⟩ := withMetadata_kept h
    (p := { original.nativeParams with ti := none }) rfl hkept
  have hdata : ((storedRow lib db id original).value "libtorrent_resume_data").toBytes =
      some (lib.bencode (storedData lib original)) := by
    have hcell : (storedRow lib db id original).value "libtorrent_resume_data" =
        .blob (lib.bencode (storedData lib original)) := by
      refine value_of_bound (by decide) ?_
      cases hauto : original.useAutoTMM <;> simp [storedValues, boundValues, hauto, List.lookup_cons]
    rw [hcell]
    rfl
  have hpath : (Path.ofString platform.dir original.ltAddTorrentParams.savePath).toString ≠ "" :=
    fun hempty => hfits.nativePath (Path.eq_empty_of_ofString (Path.eq_empty_of_toString hempty))
  simp only [load, lookup_store h, parseQueryResultRow, hdata, decode, h.bdecode_bencode, bind,
    Except.bind, Except.mapError, read_storedData h, hmetadata,
    LoadTorrentParams.nativeParams_savePath, if_neg hpath, Option.getD_some]
  exact ⟨_, rfl, reloaded_of_same hfits (sameParams_readParams hfits rfl) rfl rfl rfl hti⟩

end

end DBResumeDataStorage

/-! ### Both stores -/

/-- Paths that are clean and portable as they are. -/
def samplePlatform : Platform where
  dir :=
    { cleanPath := id
      toNativeSeparators := id
      clean_clean := fun path => by simp [cleanPath]
      clean_native := fun path _ => by simp [cleanPath]
      clean_eq_empty := fun path h => by simpa [cleanPath] using h }
  isSpace := fun c => c = ' '
  tagOrder :=
    { less := fun x y => x.text < y.text
      trans := fun x y z hxy hyz => by
        simp only [decide_eq_true_eq] at hxy hyz ⊢
        exact String.lt_trans hxy hyz }
  toPortablePath := id
  fromPortablePath := id
  from_to := fun _ => rfl
  from_empty := rfl
  castOverflow := fun _ => -2147483648
  toDouble := fun _ => .ofRat 0
  openError := "No such file or directory"

/-- An absent hash is a number. -/
def hashEntry : Option String → Entry
  | some hash => .string hash
  | none => .integer 0

def entryHash : Option Entry → Option String
  | some (.string hash) => some hash
  | _ => none

def infoHash (v1 v2 : Option Entry) : InfoHash := ⟨entryHash v1, entryHash v2⟩

def sampleEntries (p : AddTorrentParams InfoHash) : List (String × Entry) :=
  [("save_path", .string p.savePath),
    ("paused", .integer p.flags.paused.toInt),
    ("auto_managed", .integer p.flags.autoManaged.toInt),
    ("stop_when_ready", .integer p.flags.stopWhenReady.toInt),
    ("info-hash", hashEntry p.infoHashes.v1),
    ("info-hash2", hashEntry p.infoHashes.v2)] ++
    match p.ti with
    | none => []
    | some ti => [("info", .dictionary [("v1", hashEntry ti.v1), ("v2", hashEntry ti.v2)])]

/-- A library whose bytes are dictionaries and whose metadata is its hashes. -/
def sampleLibtorrent : Libtorrent Dictionary InfoHash where
  bencode := id
  bdecode := fun data => .ok (some data)
  size := fun _ => 1
  writeResumeData := fun p => putAll ∅ (sampleEntries p)
  readResumeData := fun root =>
    match root with
    | none => .error "expected dictionary"
    | some root =>
      .ok
        { savePath := root.findString "save_path"
          flags :=
            { paused := root.findInt "paused" 0 ≠ 0
              autoManaged := root.findInt "auto_managed" 0 ≠ 0
              stopWhenReady := root.findInt "stop_when_ready" 0 ≠ 0 }
          infoHashes := infoHash (root.lookup "info-hash") (root.lookup "info-hash2")
          ti :=
            match root.lookup "info" with
            | some (.dictionary [(_, v1), (_, v2)]) => some (infoHash (some v1) (some v2))
            | _ => none }
  torrentInfo := fun root =>
    match root.bind fun root => root.lookup "info" with
    | some (.dictionary [(_, v1), (_, v2)]) => .ok (infoHash (some v1) (some v2))
    | _ => .error "missing info"
  infoHashes := id
  isValid := fun _ => true

theorem entryHash_hashEntry (hash : Option String) : entryHash (some (hashEntry hash)) = hash := by
  cases hash <;> rfl

theorem keys_sampleEntries (p : AddTorrentParams InfoHash) :
    ((sampleEntries p).map Prod.fst).Sublist
      ["save_path", "paused", "auto_managed", "stop_when_ready", "info-hash", "info-hash2",
        "info"] := by
  unfold sampleEntries
  cases p.ti with
  | none => exact List.sublist_append_left _ ["info"]
  | some ti => exact List.Sublist.refl _

theorem lookup_sample {p : AddTorrentParams InfoHash} {key : String} {value : Entry}
    (h : (key, value) ∈ sampleEntries p) :
    (sampleLibtorrent.writeResumeData p).lookup key = some value :=
  lookup_putAll ((keys_sampleEntries p).nodup (by decide)) h

theorem lawful_sample : sampleLibtorrent.Lawful := by
  constructor
  case bdecode_bencode => exact fun _ => rfl
  case size_bencode => exact fun _ => Nat.one_pos
  case read_write =>
    intro p data hsame hinfo
    have hnative : ∀ key value, isOwnKey key = false → key ∉ metadataKeys →
        (key, value) ∈ sampleEntries p → data.lookup key = some value :=
      fun key value hown hmeta hmem => (hsame key hown hmeta).trans (lookup_sample hmem)
    have hpath := hnative "save_path" (.string p.savePath) (by decide +kernel) (by decide)
      (by simp [sampleEntries])
    have hpaused := hnative "paused" (.integer p.flags.paused.toInt) (by decide +kernel)
      (by decide) (by simp [sampleEntries])
    have hauto := hnative "auto_managed" (.integer p.flags.autoManaged.toInt) (by decide +kernel)
      (by decide) (by simp [sampleEntries])
    have hready := hnative "stop_when_ready" (.integer p.flags.stopWhenReady.toInt)
      (by decide +kernel) (by decide) (by simp [sampleEntries])
    have hv1 := hnative "info-hash" (hashEntry p.infoHashes.v1) (by decide +kernel) (by decide)
      (by simp [sampleEntries])
    have hv2 := hnative "info-hash2" (hashEntry p.infoHashes.v2) (by decide +kernel) (by decide)
      (by simp [sampleEntries])
    simp only [sampleLibtorrent, Dictionary.findString, Dictionary.findInt, hpath, hpaused, hauto,
      hready, hv1, hv2, hinfo, infoHash, entryHash_hashEntry,
      BencodeResumeDataStorage.toInt_ne_zero]
  case write_infoHash =>
    intro p
    have hmem : ("info-hash", hashEntry p.infoHashes.v1) ∈ sampleEntries p := by
      simp [sampleEntries]
    rw [lookup_sample hmem]
    rfl
  case write_own =>
    intro p key hown
    refine lookup_putAll_of_not_mem fun hmem => ?_
    have hkey := (keys_sampleEntries p).subset hmem
    have hall : ∀ key ∈ ["save_path", "paused", "auto_managed", "stop_when_ready", "info-hash",
        "info-hash2", "info"], isOwnKey key = false := by
      decide +kernel
    rw [hall key hkey] at hown
    cases hown
  case write_info =>
    intro p hti
    refine lookup_putAll_of_not_mem ?_
    simp [sampleEntries, hti]
  case torrentInfo_write =>
    intro p ti metadata hti hmeta
    have hmem : ("info", Entry.dictionary [("v1", hashEntry ti.v1), ("v2", hashEntry ti.v2)]) ∈
        sampleEntries p := by
      simp [sampleEntries, hti]
    have hinfo := (hmeta "info" (by decide)).trans (lookup_sample hmem)
    simp only [sampleLibtorrent, Option.bind_some, hinfo, infoHash, entryHash_hashEntry]

/-- A running torrent with metadata, two tags and a ratio limit of 1.5. -/
def sampleParams : LoadTorrentParams samplePlatform InfoHash where
  ltAddTorrentParams :=
    { savePath := "/data"
      flags := { paused := false, autoManaged := true, stopWhenReady := false }
      infoHashes := ⟨some "a1", none⟩
      ti := some ⟨some "a1", none⟩ }
  name := "name"
  category := "category"
  tags := .ofList [Tag.ofString _ "first", Tag.ofString _ "second"]
  savePath := .ofString _ "/data"
  downloadPath := .empty
  comment := ""
  contentLayout := .subfolder
  operatingMode := .forced
  useAutoTMM := false
  firstLastPiecePriority := true
  hasFinishedStatus := false
  completionPolicyPreview := true
  stopped := false
  stopCondition := .none
  ratioLimit := .ofRat (3 / 2)
  seedingTimeLimit := -2
  inactiveSeedingTimeLimit := 60
  shareLimitAction := .default
  sslParameters := ⟨"", "", ""⟩

theorem storable_sample : Storable sampleLibtorrent sampleParams where
  nativePath := by decide
  manual := fun _ h => absurd (congrArg Path.data h) (by decide)
  automatic := fun h => by cases h
  ratioLimit := ⟨1500, by decide +kernel⟩
  commas := by decide +kernel
  tags := by decide +kernel
  stopCondition := fun h => by cases h
  hashes := fun ti h => by
    cases h
    rfl

theorem filesFit_sample :
    FilesFit samplePlatform sampleLibtorrent 100 ⟨∅, ∅⟩ "id"
      sampleParams.ltAddTorrentParams.infoHashes where
  kept := .inl rfl
  limit := fun _ _ _ _ => (by decide : 1 ≤ 100)

/-- What the resume files return for parameters stored in them. -/
def bencoded (original : LoadTorrentParams samplePlatform InfoHash) :
    Option (LoadTorrentParams samplePlatform InfoHash) :=
  (BencodeResumeDataStorage.load sampleLibtorrent 100
    (BencodeResumeDataStorage.store sampleLibtorrent ⟨∅, ∅⟩ "id" original) "id").toOption

/-- What the database returns for parameters stored in it. -/
def tabled (original : LoadTorrentParams samplePlatform InfoHash) :
    Option (LoadTorrentParams samplePlatform InfoHash) :=
  (DBResumeDataStorage.load sampleLibtorrent
    (DBResumeDataStorage.store sampleLibtorrent ∅ "id" original) "id").toOption

/-- The native parameters of the sample with the flag `stop_when_ready`. -/
def readyParams : AddTorrentParams InfoHash :=
  { sampleParams.ltAddTorrentParams with
    flags := { paused := false, autoManaged := true, stopWhenReady := true } }

/-- The native parameters of the sample with the metadata of another torrent. -/
def foreignParams : AddTorrentParams InfoHash :=
  { sampleParams.ltAddTorrentParams with ti := some ⟨some "b2", none⟩ }

end Qbutt.Resume
