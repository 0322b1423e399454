import Qbutt.Settings.Storage

/-!
# Saved settings survive crashes

Whatever fails or is interrupted, the next start reads the settings of a call of `save` that is not
older than the last one that returned true (`settings_survive`), provided that no save starts with
settings left in the side file that are in memory no more, or loses the side file while there is no
final one.  Settings that are left there come back otherwise (`removed_setting_returns`).
-/

namespace Qbutt.Settings

variable {ν : Type} {world world' : World ν} {files : Files ν} {saves : List (Table String ν)}
  {data : Table String ν} {saves' : List (Table String ν)} {script : List Fate}

/-! ### Tables with the same settings -/

def Same (left right : Table String ν) : Prop := ∀ key, left.lookup key = right.lookup key

theorem Same.refl (data : Table String ν) : Same data data := fun _ => rfl

theorem lookup_eq_none_of_isEmpty (h : data.entries.isEmpty) (key : String) :
    data.lookup key = none := by
  have hentries : data.entries = [] := List.isEmpty_iff.mp h
  rw [AList.lookup_eq_none, AList.mem_keys, AList.keys, hentries]
  exact List.not_mem_nil

/-- Settings that are left in the side file do not matter if they are all overwritten. -/
theorem same_union {left : Table String ν} (h : ∀ key, key ∈ left → key ∈ data) :
    Same (data ∪ left) data := by
  intro key
  by_cases hkey : key ∈ data
  · exact AList.lookup_union_left hkey
  · rw [AList.lookup_union_right hkey, AList.lookup_eq_none.mpr hkey,
      AList.lookup_eq_none.mpr fun hleft => hkey (h key hleft)]

/-! ### The invariant -/

def Recent (saves : List (Table String ν)) (file : Table String ν) : Prop :=
  ∃ data ∈ saves, Same file data

/-- Each file holds the settings of a save, and so does the absence of both. -/
structure Recoverable (saves : List (Table String ν)) (files : Files ν) : Prop where
  new : (contents files.new).entries.isEmpty = false → Recent saves (contents files.new)
  final : files.final.isSome → Recent saves (contents files.final)
  none : files.final = none → (contents files.new).entries.isEmpty → Recent saves ∅

theorem Recent.mono {file : Table String ν} (h : Recent saves file) (hsub : saves ⊆ saves') :
    Recent saves' file := by
  obtain ⟨data, hdata, hsame⟩ := h
  exact ⟨data, hsub hdata, hsame⟩

theorem Recoverable.mono (h : Recoverable saves files) (hsub : saves ⊆ saves') :
    Recoverable saves' files :=
  ⟨fun hnew => (h.new hnew).mono hsub, fun hfinal => (h.final hfinal).mono hsub,
    fun hfinal hnew => (h.none hfinal hnew).mono hsub⟩

theorem Recoverable.loaded (h : Recoverable saves files) : Recent saves (loadedData files) := by
  unfold loadedData
  cases hnew : (contents files.new).entries.isEmpty with
  | true =>
    rw [if_pos rfl]
    cases hfinal : files.final with
    | none => exact h.none hfinal hnew
    | some final => exact hfinal ▸ h.final (hfinal ▸ rfl)
  | false =>
    rw [if_neg Bool.false_ne_true]
    exact h.new hnew

/-! ### Writing and reading -/

/-- A save goes wrong if the side file holds settings that are not in memory, or if writing it fails
and it is removed while there is no final file. -/
def goesWrong (files : Files ν) (data : Table String ν) (script : List Fate) : Prop :=
  (∃ key, key ∈ contents files.new ∧ key ∉ data) ∨
    ((contents files.new).entries.isEmpty = false ∧ files.final = none ∧
      script.head? = some .fail ∧ script.tail.head? ≠ some .fail ∧ script.tail.head? ≠ some .kill)

/-- The side file holds what is written if no other settings are left in it. -/
theorem same_syncNew (h : ∀ key, key ∈ contents files.new → key ∈ data) :
    Same (contents (syncNew data files).new) data := by
  unfold syncNew
  split_ifs with hempty
  · -- Nothing is written, and nothing was there.
    intro key
    rw [lookup_eq_none_of_isEmpty hempty, AList.lookup_eq_none]
    intro hkey
    exact AList.lookup_eq_none.mp (lookup_eq_none_of_isEmpty hempty key) (h key hkey)
  · exact same_union h

theorem syncNew_final : (syncNew data files).final = files.final := by
  unfold syncNew
  split_ifs <;> rfl

theorem recent_empty (hdata : data ∈ saves) {file : Table String ν} (hsame : Same file data)
    (hempty : file.entries.isEmpty) : Recent saves ∅ := by
  refine ⟨data, hdata, fun key => ?_⟩
  rw [← hsame key, lookup_eq_none_of_isEmpty hempty]
  rfl

theorem Recoverable.syncNew (h : Recoverable saves files) (hdata : data ∈ saves)
    (hkeys : ∀ key, key ∈ contents files.new → key ∈ data) :
    Recoverable saves (syncNew data files) := by
  have hsame := same_syncNew hkeys
  refine ⟨fun _ => ⟨data, hdata, hsame⟩, ?_, fun _ hempty => recent_empty hdata hsame hempty⟩
  rw [syncNew_final]
  exact h.final

theorem Recoverable.removeFinal (h : Recoverable saves files) (hdata : data ∈ saves)
    (hsame : Same (contents files.new) data) : Recoverable saves (removeFinal files) :=
  ⟨h.new, nofun, fun _ hempty => recent_empty hdata hsame hempty⟩

/-- Renaming the side file keeps what is read. -/
theorem recoverable_renamed {new : Table String ν} (h : Recent saves new) :
    Recoverable saves ⟨none, some new⟩ :=
  ⟨nofun, fun _ => h, nofun⟩

theorem keeps_renameFile (hdata : data ∈ saves) :
    Prog.Keeps (Recoverable saves) (fun files => Same (contents files.new) data) renameFile
      fun renamed files => renamed = true → Recoverable [data] files := by
  refine Prog.keeps_get fun files _ hsame => Prog.keeps_ite (fun hfree => ?_) fun _ => ?_
  · obtain ⟨new, hnew⟩ := Option.isSome_iff_exists.mp (Bool.and_eq_true_iff.mp hfree).1
    have hcontents : contents files.new = new := by rw [hnew]; rfl
    have hsame' : Same new data := hcontents ▸ hsame
    refine Prog.keeps_tryEffect ?_ fun _ _ _ => nofun
    rintro _ hfiles rfl
    rw [hnew]
    exact ⟨recoverable_renamed ⟨data, hdata, hsame'⟩,
      fun _ => recoverable_renamed ⟨data, List.mem_singleton_self data, hsame'⟩⟩
  · exact Prog.keeps_pure fun _ _ _ => nofun

/-- The second half of a save, once the side file is written. -/
theorem keeps_replace (hdata : data ∈ saves) :
    Prog.Keeps (Recoverable saves) (fun files => Same (contents files.new) data)
      (Prog.tryEffect removeFinal >>= fun _ => renameFile)
      fun renamed files => renamed = true → Recoverable [data] files := by
  refine Prog.keeps_bind (Q := fun _ files => Same (contents files.new) data) ?_ fun _ =>
    keeps_renameFile hdata
  exact Prog.keeps_tryEffect (fun _ h hsame => ⟨h.removeFinal hdata hsame, hsame⟩) fun _ _ h => h

/-- A save that does not go wrong leaves the settings of some save behind, whatever happens to it,
and its own ones if it returns true. -/
theorem writeNativeSettings_spec (h : Recoverable saves files) (hdata : data ∈ saves)
    (hgood : ¬ goesWrong files data script) :
    Recoverable saves (writeNativeSettings data ⟨files, script, []⟩).2.state ∧
      ((writeNativeSettings data ⟨files, script, []⟩).1 = .ok true →
        Recoverable [data] (writeNativeSettings data ⟨files, script, []⟩).2.state) := by
  have hkeys : ∀ key, key ∈ contents files.new → key ∈ data := by
    intro key hkey
    by_contra hnot
    exact hgood (.inl ⟨key, hkey, hnot⟩)
  -- The run after the side file is written.
  have hreplace : ∀ rest trace, (∀ f ∈ trace, Recoverable saves f) →
      Recoverable saves ((Prog.tryEffect removeFinal >>= fun _ => renameFile)
        ⟨syncNew data files, rest, trace⟩).2.state ∧
      (((Prog.tryEffect removeFinal >>= fun _ => renameFile)
        ⟨syncNew data files, rest, trace⟩).1 = .ok true →
        Recoverable [data] ((Prog.tryEffect removeFinal >>= fun _ => renameFile)
          ⟨syncNew data files, rest, trace⟩).2.state) := by
    intro rest trace htrace
    obtain ⟨-, hstate, hresult⟩ := keeps_replace hdata ⟨syncNew data files, rest, trace⟩ htrace
      (h.syncNew hdata hkeys) (same_syncNew hkeys)
    exact ⟨hstate, fun hok => hresult true hok rfl⟩
  have hsynced : ∀ f ∈ [syncNew data files], Recoverable saves f := fun f hf =>
    List.mem_singleton.mp hf ▸ h.syncNew hdata hkeys
  rcases script with _ | ⟨_ | _ | _, rest⟩
  · exact hreplace [] _ hsynced
  · exact hreplace rest _ hsynced
  · -- Writing the side file failed, and it is removed.
    have hremoved : ((contents files.new).entries.isEmpty = true ∨ files.final.isSome) →
        Recoverable saves (removeNew files) := by
      intro hcase
      refine ⟨nofun, h.final, fun hfinal _ => ?_⟩
      rcases hcase with hempty | hsome
      · exact h.none hfinal hempty
      · rw [show files.final = none from hfinal] at hsome
        cases hsome
    have hsafe : rest.head? ≠ some .fail → rest.head? ≠ some .kill →
        (contents files.new).entries.isEmpty = true ∨ files.final.isSome := by
      intro hfail hkill
      by_contra hnot
      rw [not_or, Bool.not_eq_true, Option.not_isSome_iff_eq_none] at hnot
      exact hgood (.inr ⟨hnot.1, hnot.2, rfl, hfail, hkill⟩)
    rcases rest with _ | ⟨_ | _ | _, rest⟩
    · exact ⟨hremoved (hsafe nofun nofun), nofun⟩
    · exact ⟨hremoved (hsafe nofun nofun), nofun⟩
    · exact ⟨h, nofun⟩
    · exact ⟨h, nofun⟩
  · exact ⟨h, nofun⟩

theorem keeps_readNativeSettings :
    Prog.Keeps (Recoverable saves) (fun _ => True) (readNativeSettings (ν := ν)) fun loaded _ =>
      Recent saves loaded := by
  refine Prog.keeps_get fun files hfiles _ => Prog.keeps_ite (fun _ => ?_) fun hnew => ?_
  · exact Prog.keeps_pure fun _ _ _ => hfiles.loaded
  · obtain ⟨data, hdata, hsame⟩ := hfiles.new (Bool.eq_false_iff.mpr hnew)
    refine Prog.keeps_bind (Q := fun _ f => Same (contents f.new) data) ?_ fun _ => ?_
    · refine Prog.keeps_tryEffect ?_ ?_
      · rintro _ h rfl
        exact ⟨h.removeFinal hdata hsame, hsame⟩
      · rintro _ _ rfl
        exact hsame
    · exact Prog.keeps_bind (keeps_renameFile hdata) fun _ =>
        Prog.keeps_pure fun _ _ _ => hfiles.loaded

/-! ### Runs -/

def isGood (world : World ν) : Act ν → Prop
  | .save script => ∀ storage, world.storage = some storage → storage.dirty →
    ¬ goesWrong world.files storage.data script
  | _ => True

theorem World.save_recoverable {storage : SettingsStorage ν}
    (h : Recoverable world.saves world.files)
    (hgood : storage.dirty → ¬ goesWrong world.files storage.data script) :
    Recoverable (world.save storage script).saves (world.save storage script).files := by
  have hmore := h.mono (List.subset_append_left world.saves [storage.data])
  unfold World.save
  dsimp only
  cases hdirty : storage.dirty with
  | false => exact hmore
  | true =>
    obtain ⟨hstate, htrue⟩ := writeNativeSettings_spec hmore
      (List.mem_append_right _ (List.mem_singleton_self storage.data)) (hgood hdirty)
    rw [Bool.not_true, if_neg Bool.false_ne_true]
    rcases hrun : writeNativeSettings storage.data ⟨world.files, script, []⟩ with
      ⟨_ | _ | _, run⟩
    all_goals rw [hrun] at hstate htrue
    · exact hstate
    · exact hstate
    · exact htrue rfl

theorem World.restart_recoverable (h : Recoverable world.saves world.files) :
    Recoverable (world.restart script).saves (world.restart script).files := by
  obtain ⟨-, hstate, -⟩ :=
    keeps_readNativeSettings ⟨world.files, script, []⟩ nofun h trivial
  unfold World.restart
  rcases hrun : readNativeSettings ⟨world.files, script, []⟩ with ⟨_ | _, run⟩
  all_goals
    rw [hrun] at hstate
    exact hstate

theorem step_recoverable [DecidableEq ν] {act : Act ν} (h : Recoverable world.saves world.files)
    (hgood : isGood world act) (hstep : step world act = some world') :
    Recoverable world'.saves world'.files := by
  cases act with
  | store key value =>
    obtain ⟨storage, -, rfl⟩ := Option.map_eq_some_iff.mp hstep
    exact h
  | remove key =>
    obtain ⟨storage, -, rfl⟩ := Option.map_eq_some_iff.mp hstep
    exact h
  | save script =>
    obtain ⟨storage, hstorage, rfl⟩ := Option.map_eq_some_iff.mp hstep
    exact World.save_recoverable h (hgood storage hstorage)
  | restart script =>
    cases hstep
    exact World.restart_recoverable h

/-- In every run without a save that goes wrong, and whatever fails or is killed, the next start
reads exactly the settings of a save that is not older than the last one that returned true. -/
theorem settings_survive [DecidableEq ν] (h : (settings ν).Reachable isGood world) :
    ∃ data ∈ world.saves, Same (loadedData world.files) data := by
  refine (h.invariant ?_ fun _ _ _ h hgood hstep => step_recoverable h hgood hstep).loaded
  rintro world ⟨hnew, -, hsaves⟩
  rw [hsaves]
  refine ⟨?_, fun _ => ⟨_, List.mem_singleton_self _, .refl _⟩, fun hfinal _ => ?_⟩
  · rw [hnew]
    nofun
  · rw [hfinal]
    exact ⟨∅, List.mem_singleton_self _, .refl _⟩

/-! ### A profile -/

/-- A profile without files. -/
def blank : World ℕ := ⟨⟨none, none⟩, none, [∅]⟩

theorem reachable_blank {allowed : World ℕ → Act ℕ → Prop} : (settings ℕ).Reachable allowed blank :=
  .start ⟨rfl, rfl, rfl⟩

/-- A setting is stored, and the side file cannot be renamed when it is saved. -/
def unrenamed : List (Act ℕ) :=
  [.restart [], .store "a" 1, .save [.proceed, .proceed, .fail]]

theorem settings_survive_sample : ∃ world, (settings ℕ).runAll blank unrenamed = some world ∧
    ∃ data ∈ world.saves, Same (loadedData world.files) data := by
  have hgood : (settings ℕ).AllowedAll isGood blank unrenamed := by
    refine ⟨trivial, trivial, fun storage hstorage _ hwrong => ?_, trivial⟩
    rcases hwrong with ⟨key, hkey, -⟩ | ⟨-, -, hfail, -⟩
    · exact AList.notMem_empty key hkey
    · cases hfail
  have hrun : ∃ world, (settings ℕ).runAll blank unrenamed = some world := ⟨_, rfl⟩
  obtain ⟨world, hworld⟩ := hrun
  exact ⟨world, hworld, settings_survive
    (System.reachable_of_runAll unrenamed reachable_blank hgood hworld)⟩

/-- The side file of a failed save is left, a setting is removed, and the next save succeeds. -/
def leftover : List (Act ℕ) :=
  [.restart [], .store "a" 1, .store "b" 2, .save [.proceed, .proceed, .fail], .remove "a", .save []]

/-- A setting that was removed before the last save that returned true is read again. -/
theorem removed_setting_returns : ¬ ∀ world : World ℕ,
    (settings ℕ).Reachable (fun _ _ => True) world →
      ∃ data ∈ world.saves, Same (loadedData world.files) data := by
  intro hclaim
  have hrun : ∃ world, (settings ℕ).runAll blank leftover = some world ∧
      (world.saves.all fun data => (data.lookup "a").isNone) = true ∧
      (loadedData world.files).lookup "a" = some 1 := ⟨_, rfl, rfl, rfl⟩
  obtain ⟨world, hworld, hsaves, hloaded⟩ := hrun
  obtain ⟨data, hdata, hsame⟩ := hclaim world (System.reachable_of_runAll leftover reachable_blank
    (System.allowedAll_of_forall (fun _ _ _ => trivial) _) hworld)
  have hnone := List.all_eq_true.mp hsaves data hdata
  rw [← hsame, hloaded] at hnone
  cases hnone

end Qbutt.Settings
