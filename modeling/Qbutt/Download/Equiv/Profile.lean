import Qbutt.Download.Profile

/-!
# What the operations on the profile do

`keeps_removePartial` and `keeps_recoverJob` say where a clean-up and the recovery of one job can
stop, and what they have achieved when they return; `keeps_recover` puts the rounds of
`open_with_client` together.
-/

namespace Qbutt.Download

open Prog List

variable {ρ : Type} {s s' : Staging} {job : DownloadJob ρ} {E : Environment ρ}

/-! ### The staging area -/

structure Staging.Removes (id : String) (s s' : Staging) : Prop where
  part : ∀ id', s'.part id' = s.part id' ∨ (id' = id ∧ s'.part id' = none)
  folder : ∀ id', s'.folder id' = s.folder id' ∨ (id' = id ∧ s'.folder id' = false)

theorem Staging.removes_setPart {id : String} (h : Staging.Removes id s s') :
    Staging.Removes id s (s'.setPart id none) := by
  refine ⟨fun id' => ?_, fun id' => ?_⟩
  · cases s' with
    | missing => exact h.part id'
    | foreign => exact h.part id'
    | directory parts folders =>
      by_cases hid : id' = id
      · exact .inr ⟨hid, by simp [setPart, Staging.part, hid]⟩
      · have : (directory parts folders).part id' = s.part id' :=
          (h.part id').resolve_right fun h => hid h.1
        exact .inl (by rw [← this]; simp [setPart, Staging.part, hid])
  · have := h.folder id'
    cases s' <;> exact this

theorem Staging.removes_setFolder {id : String} (h : Staging.Removes id s s') :
    Staging.Removes id s (s'.setFolder id false) := by
  refine ⟨fun id' => ?_, fun id' => ?_⟩
  · have := h.part id'
    cases s' <;> exact this
  · cases s' with
    | missing => exact h.folder id'
    | foreign => exact h.folder id'
    | directory parts folders =>
      by_cases hid : id' = id
      · exact .inr ⟨hid, by simp [setFolder, Staging.folder, hid]⟩
      · have : (directory parts folders).folder id' = s.folder id' :=
          (h.folder id').resolve_right fun h => hid h.1
        exact .inl (by rw [← this]; simp [setFolder, Staging.folder, hid])

def Staging.Clear (s : Staging) (id : String) : Prop := s.part id = none ∧ s.folder id = false

theorem Staging.Clear.removes {id id' : String} (h : s.Clear id') (hs : Staging.Removes id s s') :
    s'.Clear id' := by
  refine ⟨?_, ?_⟩
  · rcases hs.part id' with hp | hp
    · rw [hp, h.1]
    · exact hp.2
  · rcases hs.folder id' with hf | hf
    · rw [hf, h.2]
    · exact hf.2

namespace Profile

variable {I : Profile ρ → Prop} {id : String} {p₀ : Profile ρ}

theorem keeps_removePartial (id : String)
    (hI : ∀ s, Staging.Removes id p₀.staging s → I { p₀ with staging := s }) :
    Prog.Keeps I (· = p₀) (removePartial id) fun _ p =>
      ∃ s, Staging.Removes id p₀.staging s ∧ s.Clear id ∧ p = { p₀ with staging := s } := by
  have hrefl : Staging.Removes id p₀.staging p₀.staging := ⟨fun _ => .inl rfl, fun _ => .inl rfl⟩
  have hpart := Staging.removes_setPart hrefl
  have hfolder := Staging.removes_setFolder hpart
  refine keeps_bind keeps_attempt fun _ => keeps_get fun p _ hp => ?_
  subst p
  refine keeps_bind (keeps_ofExcept
    (Q := fun present p => p₀.staging.safeExists = .ok present ∧ p = p₀)
    fun p _ hp present h => ⟨h, hp⟩) fun present => ?_
  refine keeps_when (fun hpresent => ?_) fun hpresent => ?_
  · refine keeps_bind (keeps_effect
      (R := fun _ p => p₀.staging.safeExists = .ok present ∧ p = p₀.setPart id none) ?_)
      fun _ => keeps_effect ?_
    · rintro _ - ⟨hsafe, rfl⟩
      exact ⟨hI _ hpart, hsafe, rfl⟩
    · rintro _ - ⟨hsafe, rfl⟩
      refine ⟨hI _ hfolder, _, hfolder, ?_, rfl⟩
      cases hs : p₀.staging with
      | missing => simp [hs, Staging.safeExists, hpresent] at hsafe
      | foreign => simp [hs, Staging.safeExists] at hsafe
      | directory parts folders =>
        simp [Staging.Clear, Staging.part, Staging.folder, Staging.setPart, Staging.setFolder]
  · intro p _ ⟨hsafe, hp⟩
    refine ⟨_, hrefl, ?_, hp⟩
    cases hs : p₀.staging with
    | missing => exact ⟨rfl, rfl⟩
    | foreign => simp [hs, Staging.safeExists] at hsafe
    | directory parts folders => simp [hs, Staging.safeExists, hpresent] at hsafe

/-! ### Recovery of one job -/

/-- The candidate of a job stands in the download directory with the journalled size and digest. -/
def Verified (E : Environment ρ) (p : Profile ρ) (job : DownloadJob ρ) : Prop :=
  ∃ candidate file, job.candidate = some candidate ∧
    candidate.path.parent = some E.destination ∧ p.files candidate.path = some file ∧
    file.content.length = candidate.size ∧ E.sha256 file.content = candidate.sha256

/-- `r` is the record that the recovery of `job` can arrive at: `is_file` may miss a file. -/
def RecoveredAs (E : Environment ρ) (p : Profile ρ) (job r : DownloadJob ρ) : Prop :=
  ∃ completed isFile, r = recoveredJob job completed isFile ∧
    (job.status = .publishing → (completed = true ↔ Verified E p job)) ∧
    (isFile = true → ∃ path, job.path = some path ∧ (p.files path).isSome)

theorem keeps_publicationCompleted :
    Prog.Keeps I (· = p₀) (publicationCompleted E job) fun completed p =>
      (job.status = .publishing → (completed = true ↔ Verified E p₀ job)) ∧ p = p₀ := by
  unfold publicationCompleted
  refine keeps_ite (fun _ => ?_) fun hstatus =>
    keeps_pure fun p _ hp => ⟨fun h => absurd h hstatus, hp⟩
  refine Prog.Keeps.mono (Q := fun completed p => (completed = true ↔ Verified E p₀ job) ∧ p = p₀)
    ?_ (fun p _ hp => hp) fun _ p _ h => ⟨fun _ => h.1, h.2⟩
  cases hcandidate : job.candidate with
  | none =>
    refine keeps_pure fun p _ hp => ⟨?_, hp⟩
    simp [Verified, hcandidate]
  | some candidate =>
    refine keeps_ite (fun hparent => ?_) fun hparent => ?_
    · refine keeps_bind keeps_attempt fun _ => keeps_get fun p _ hp => ?_
      subst p
      cases hfile : p₀.files candidate.path with
      | none =>
        refine keeps_pure fun p _ hp => ⟨?_, hp⟩
        simp [Verified, hcandidate, hfile]
      | some file =>
        refine keeps_pure fun p _ hp => ⟨?_, hp⟩
        simp [Verified, hcandidate, hparent, hfile]
    · refine keeps_pure fun p _ hp => ⟨?_, hp⟩
      simp [Verified, hcandidate, hparent]

theorem keeps_recoverJob
    (hclean : ∀ s, Staging.Removes job.id p₀.staging s → I { p₀ with staging := s })
    (hsave : ∀ s r, Staging.Removes job.id p₀.staging s → RecoveredAs E p₀ job r →
      I (save { p₀ with staging := s } r)) :
    Prog.Keeps I (· = p₀) (recoverJob E job) fun r p =>
      RecoveredAs E p₀ job r ∧
        ∃ s, Staging.Removes job.id p₀.staging s ∧ s.Clear job.id ∧
          (p = save { p₀ with staging := s } r ∨
            (r.status = job.status ∧ job.status ≠ .publishing ∧ p = { p₀ with staging := s })) := by
  refine keeps_bind (keeps_check.mono (fun p _ hp => hp) fun _ p _ h => h.2) fun _ => ?_
  refine keeps_bind keeps_publicationCompleted fun completed => ?_
  refine keeps_get fun p _ ⟨hcompleted, hp⟩ => ?_
  subst p
  refine keeps_bind keeps_probe fun readable => ?_
  extract_lets isFile recovered
  have hrecovered : RecoveredAs E p₀ job recovered := by
    refine ⟨completed, isFile, rfl, hcompleted, fun h => ?_⟩
    have hany := (Bool.and_eq_true_iff.mp h).2
    cases hpath : job.path with
    | none => simp [hpath] at hany
    | some path => exact ⟨path, rfl, by simpa [hpath] using hany⟩
  refine keeps_bind (keeps_removePartial _ hclean) fun _ => keeps_of_forall ?_
  rintro _ - ⟨s, hs, hclear, rfl⟩
  refine keeps_bind (Q := fun _ p => p = save { p₀ with staging := s } recovered ∨
    (recovered.status = job.status ∧ job.status ≠ .publishing ∧ p = { p₀ with staging := s }))
    (keeps_when (fun _ => keeps_effect ?_) ?_) fun _ => keeps_pure ?_
  · rintro _ - rfl
    exact ⟨hsave s _ hs hrecovered, .inl rfl⟩
  · intro hunchanged p _ hp
    simp only [decide_eq_false_iff_not, not_or, not_not] at hunchanged
    exact .inr ⟨hunchanged.1, hunchanged.2, hp⟩
  · exact fun p _ hp => ⟨hrecovered, s, hs, hclear, hp⟩

end Profile

/-! ### Recovery of all jobs -/

/-- What a job shows apart from its progress and the candidate it journals. -/
def DownloadJob.lasting (job : DownloadJob ρ) : DownloadJob ρ :=
  { job with bytes := 0, totalBytes := none, candidate := none }

namespace Profile

variable {I : Profile ρ → Prop}
  {E : Environment ρ} {p₀ : Profile ρ} {rest done : List (DownloadJob ρ)}

theorem recoveredJob_id (job : DownloadJob ρ) (completed isFile : Bool) :
    (recoveredJob job completed isFile).id = job.id := by
  unfold recoveredJob
  dsimp only
  split_ifs <;> rfl

theorem recoveredJob_isActive (job : DownloadJob ρ) (completed isFile : Bool) :
    (recoveredJob job completed isFile).isActive = false := by
  unfold recoveredJob
  dsimp only
  split_ifs with hpublishing hcompleted hactive hcomplete
  · rfl
  · rfl
  · rfl
  · rfl
  · exact Bool.eq_false_iff.mpr hactive

theorem recoveredJob_lasting (job : DownloadJob ρ) (completed isFile : Bool)
    (hstatus : (recoveredJob job completed isFile).status = job.status)
    (hpublishing : job.status ≠ .publishing) :
    (recoveredJob job completed isFile).lasting = job.lasting := by
  unfold recoveredJob at hstatus ⊢
  dsimp only at hstatus ⊢
  rw [if_neg hpublishing] at hstatus ⊢
  split_ifs at hstatus ⊢ with hactive hcomplete
  · dsimp only at hstatus
    rw [DownloadJob.isActive, ← hstatus] at hactive
    cases hactive
  · dsimp only at hstatus
    rw [hcomplete.1] at hstatus
    cases hstatus
  · rfl

/-- How the recovery leaves a job. -/
structure Settled (p : Profile ρ) (r : DownloadJob ρ) : Prop where
  idle : r.isActive = false
  candidate : r.candidate = none
  clear : p.staging.Clear r.id
  stored : (p.stored.lookup r.id).map DownloadJob.lasting = some r.lasting

theorem RecoveredAs.congr {p p' : Profile ρ} {r : DownloadJob ρ} (h : RecoveredAs E p job r)
    (hfiles : p.files = p'.files) : RecoveredAs E p' job r := by
  obtain ⟨completed, isFile, hr, hcompleted, hisFile⟩ := h
  refine ⟨completed, isFile, hr, fun hstatus => ?_, fun h => hfiles ▸ hisFile h⟩
  rw [hcompleted hstatus, Verified, Verified, hfiles]

/-- The invariant of the loop over the jobs stored in `p₀`. -/
structure Recovering (E : Environment ρ) (p₀ : Profile ρ) (rest done : List (DownloadJob ρ))
    (p : Profile ρ) : Prop where
  ids : ∀ id job, p.stored.lookup id = some job → job.id = id
  files : p.files = p₀.files
  waiting : ∀ job ∈ rest, p.stored.lookup job.id = some job ∧ p₀.stored.lookup job.id = some job
  nodup : (done.map DownloadJob.id ++ rest.map DownloadJob.id).Nodup
  settled : ∀ r ∈ done, p.Settled r
  recovered : ∀ r ∈ done, ∃ job, p₀.stored.lookup r.id = some job ∧ RecoveredAs E p₀ job r
  known : ∀ id, (p.stored.lookup id).isSome →
    id ∈ done.map DownloadJob.id ++ rest.map DownloadJob.id

theorem lookup_save (p : Profile ρ) (job : DownloadJob ρ) (id : String) :
    (p.save job).stored.lookup id = if id = job.id then some job else p.stored.lookup id :=
  Table.lookup_insert_eq ..

theorem Recovering.round {r : DownloadJob ρ} {p p' : Profile ρ}
    (h : Recovering E p₀ (job :: rest) done p) (hid : r.id = job.id) (hr : p'.Settled r)
    (hrecovered : RecoveredAs E p job r) (hfiles : p'.files = p.files)
    (hstored : ∀ id, id ≠ job.id → p'.stored.lookup id = p.stored.lookup id)
    (hids : ∀ id job, p'.stored.lookup id = some job → job.id = id)
    (hstaging : Staging.Removes job.id p.staging p'.staging) :
    Recovering E p₀ rest (done ++ [r]) p' := by
  have hnodup : (done.map DownloadJob.id ++ job.id :: rest.map DownloadJob.id).Nodup := h.nodup
  have hnot : job.id ∉ done.map DownloadJob.id ++ rest.map DownloadJob.id :=
    (nodup_cons.mp (nodup_middle.mp hnodup)).1
  have hids' : (done ++ [r]).map DownloadJob.id ++ rest.map DownloadJob.id =
      done.map DownloadJob.id ++ job.id :: rest.map DownloadJob.id := by
    rw [map_append, map_singleton, hid, append_assoc]
    rfl
  refine ⟨hids, hfiles.trans h.files, fun job' hjob' => ?_, hids' ▸ hnodup, fun r' hr' => ?_,
    fun r' hr' => ?_, fun id hsome => ?_⟩
  · have hne : job'.id ≠ job.id := fun heq =>
      hnot (mem_append_right _ (heq ▸ mem_map_of_mem hjob'))
    rw [hstored _ hne]
    exact h.waiting job' (mem_cons_of_mem _ hjob')
  · rcases mem_append.mp hr' with hr' | hr'
    · obtain ⟨hidle, hcandidate, hclear, hlasting⟩ := h.settled r' hr'
      have hne : r'.id ≠ job.id := fun heq =>
        hnot (mem_append_left _ (heq ▸ mem_map_of_mem hr'))
      exact ⟨hidle, hcandidate, hclear.removes hstaging, by rw [hstored _ hne, hlasting]⟩
    · obtain rfl := mem_singleton.mp hr'
      exact hr
  · rcases mem_append.mp hr' with hr' | hr'
    · exact h.recovered r' hr'
    · obtain rfl := mem_singleton.mp hr'
      exact ⟨job, hid ▸ (h.waiting job mem_cons_self).2, hrecovered.congr h.files⟩
  · rw [hids']
    by_cases heq : id = job.id
    · exact mem_append_right _ (heq ▸ mem_cons_self)
    · rw [hstored id heq] at hsome
      exact h.known id hsome

theorem Recovering.recoverJob
    (hclean : ∀ p id s, I p → Staging.Removes id p.staging s → I { p with staging := s })
    (hsave : ∀ p job r, I p → p₀.stored.lookup job.id = some job →
      p.stored.lookup job.id = some job → RecoveredAs E p job r → I (p.save r)) :
    Prog.Keeps I (Recovering E p₀ (job :: rest) done) (recoverJob E job) fun r =>
      Recovering E p₀ rest (done ++ [r]) := by
  refine keeps_of_forall fun p hI h => ?_
  obtain ⟨hjob, hjob₀⟩ := h.waiting job mem_cons_self
  refine (keeps_recoverJob (fun s hs => hclean p job.id s hI hs) fun s r hs hr =>
    hsave _ job r (hclean p job.id s hI hs) hjob₀ hjob hr).mono (fun _ _ hp => hp) ?_
  rintro r _ - ⟨hrecovered, s, hs, hclear, hp⟩
  obtain ⟨completed, isFile, rfl, -, -⟩ := id hrecovered
  have hid := recoveredJob_id job completed isFile
  have hidle := recoveredJob_isActive job completed isFile
  rcases hp with rfl | ⟨hstatus, hpublishing, rfl⟩
  · refine h.round hid ⟨hidle, rfl, hid ▸ hclear, ?_⟩ hrecovered rfl (fun id hne => ?_)
      (fun id job' hjob' => ?_) hs
    · rw [lookup_save, if_pos rfl, Option.map_some]
    · rw [lookup_save, hid, if_neg hne]
    · rw [lookup_save] at hjob'
      split_ifs at hjob' with heq
      · cases hjob'
        exact heq.symm
      · exact h.ids id job' hjob'
  · refine h.round hid ⟨hidle, rfl, hid ▸ hclear, ?_⟩ hrecovered rfl (fun _ _ => rfl) h.ids hs
    rw [hid, hjob, Option.map_some, recoveredJob_lasting job completed isFile hstatus hpublishing]

/-- The recovery as a whole keeps what each clean-up and each saved recovery keeps, and leaves every
stored job settled. -/
theorem keeps_recover
    (hids : ∀ p, I p → ∀ id job, p.stored.lookup id = some job → job.id = id)
    (hclean : ∀ p id s, I p → Staging.Removes id p.staging s → I { p with staging := s })
    (hsave : ∀ p job r, I p → p₀.stored.lookup job.id = some job →
      p.stored.lookup job.id = some job → RecoveredAs E p job r → I (p.save r)) :
    Prog.Keeps I (· = p₀) (recover E) fun jobs => Recovering E p₀ [] jobs := by
  refine keeps_bind keeps_attempt fun _ => keeps_get fun p hI hp => ?_
  subst p
  refine keeps_bind (keeps_ofExcept (Q := fun _ q => q = p₀) fun q _ hq _ _ => hq)
    fun _ => ?_
  refine keeps_bind keeps_attempt fun _ => ?_
  refine keeps_bind ((keeps_mapEach (J := Recovering E p₀)
    (fun job rest done => Recovering.recoverJob hclean hsave) p₀.stored.values []).mono ?_
    fun _ _ _ h => h) fun jobs =>
    keeps_bind keeps_attempt fun _ => keeps_pure fun q _ h => h
  intro p _ hp
  subst p
  have hkeys := Table.map_values (hids _ hI)
  refine ⟨hids _ hI, rfl, fun job hjob => ?_, ?_, by simp, by simp, fun id hsome => ?_⟩
  · obtain ⟨id, hid⟩ := Table.mem_values.mp hjob
    rw [hids _ hI id job hid]
    exact ⟨hid, hid⟩
  · rw [map_nil, nil_append, hkeys]
    exact AList.keys_nodup _
  · rw [map_nil, nil_append, hkeys]
    exact AList.mem_keys.mp (AList.lookup_isSome.mp hsome)

end Profile

end Qbutt.Download
