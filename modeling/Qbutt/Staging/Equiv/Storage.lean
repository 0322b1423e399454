import Mathlib.Algebra.Order.BigOperators.Group.List
import Qbutt.Staging.Storage

/-!
# The storage requirement does not under-report

Every operation is in range but one: `journalBytes + allocationUnit` is performed when its result is
`2^63` (`requireJournal_eq`), since the guard before it has room for `journalBytes + allocationUnit - 1`
only.
-/

namespace Qbutt.Staging

open Signed List

/-! ### What the sums are -/

/-- The bytes that a file needs beyond its data, as the test of its size counts them. -/
def overhead (unit : ℤ) (file : StorageFile) : ℤ := (slashes file.relative + 3) * unit

/-- What a file adds to `required`. -/
def charge (unit : ℤ) (file : StorageFile) : ℤ :=
  roundUp unit file.size + (slashes file.relative + 2) * unit

/-- What a file adds to the journal. -/
def estimate (file : StorageFile) : ℤ := 512 + 4 * qsize file.relative + 4 * qsize file.source

def SizesFit (unit : ℤ) : ℤ → List StorageFile → Prop
  | _, [] => True
  | required, file :: files =>
    (0 ≤ file.size ∧ required + file.size + overhead unit file ≤ maximum) ∧
      SizesFit unit (required + charge unit file) files

def payload (files : List StorageFile) : List StorageFile := files.filter fun file => !file.pad

def journalEstimate (unit : ℤ) (destination : String) (files : List StorageFile) : ℤ :=
  unit + (4096 + 4 * qsize destination) + ((payload files).map estimate).sum

theorem slashes_nonneg (relative : String) : 0 ≤ slashes relative := Int.natCast_nonneg _

theorem estimate_pos (file : StorageFile) : 0 < estimate file := by
  unfold estimate
  omega

theorem charge_bounds {unit : ℤ} (hunit : 0 < unit) (file : StorageFile) :
    file.size ≤ charge unit file ∧ charge unit file < file.size + overhead unit file ∧
      roundUp unit file.size + 2 * unit ≤ charge unit file := by
  have hle := roundUp_le hunit file.size
  have hge := le_roundUp hunit file.size
  have hslashes : 0 ≤ slashes file.relative * unit :=
    mul_nonneg (slashes_nonneg file.relative) hunit.le
  unfold charge overhead
  rw [add_mul, add_mul]
  omega

/-! ### The parts of the computation -/

theorem accountJournalString_eq {journal fixed : ℤ} (value : String) (hjournal : 0 ≤ journal)
    (hfixed : 0 ≤ fixed) (hfixed' : fixed ≤ maximum) :
    accountJournalString journal value fixed =
      .ok (if journal + (fixed + 4 * qsize value) ≤ maximum then
        some (journal + (fixed + 4 * qsize value)) else none) := by
  have hmax : maximum = 9223372036854775807 := by decide
  rw [accountJournalString, sub_eq (by omega) (by omega), ok_bind]
  by_cases hsize : (qsize value : ℤ) > (maximum - fixed) / 4
  · rw [if_pos hsize, if_neg (by omega)]
    rfl
  · rw [if_neg hsize, mul_eq (by omega) (by omega), ok_bind, add_eq (by omega) (by omega), ok_bind,
      sub_eq (by omega) (by omega), ok_bind]
    by_cases hfits : journal > maximum - (fixed + qsize value * 4)
    · rw [if_pos hfits, if_neg (by omega)]
      rfl
    · rw [if_neg hfits, if_pos (by omega), add_eq (by omega) (by omega), ok_bind]
      simp only [pure, Except.pure]
      congr 2
      ring

theorem checkSize_eq {required size extra : ℤ} (hrequired : 0 ≤ required) (hrequired' : required ≤ maximum)
    (hover : 0 ≤ extra) (hover' : extra ≤ maximum) :
    checkSize required size extra =
      if 0 ≤ size ∧ required + size + extra ≤ maximum then .ok () else .error (.failed invalidSize) := by
  rw [checkSize]
  by_cases hsize : size < 0
  · rw [if_pos hsize, if_neg (by omega)]
  · rw [if_neg hsize, sub_eq (by omega) (by omega), ok_bind]
    by_cases hroom : required > maximum - extra
    · rw [if_pos hroom, if_neg (by omega)]
    · rw [if_neg hroom, sub_eq (by omega) (by omega), ok_bind, sub_eq (by omega) (by omega), ok_bind]
      by_cases hleft : size > maximum - required - extra
      · rw [if_pos hleft, if_neg (by omega)]
      · rw [if_neg hleft, if_pos (by omega)]
        rfl

theorem requireFile_eq {unit required : ℤ} {file : StorageFile} (hunit : 4096 ≤ unit)
    (hrequired : 0 ≤ required) (hrequired' : required ≤ maximum) (hover : overhead unit file ≤ maximum) :
    requireFile unit required file =
      if 0 ≤ file.size ∧ required + file.size + overhead unit file ≤ maximum then
        .ok (required + charge unit file)
      else .error (.failed invalidSize) := by
  have hslashes := slashes_nonneg file.relative
  have hparts : slashes file.relative + 3 ≤ overhead unit file :=
    le_mul_of_one_le_right (by omega) (by omega)
  have hover0 : 0 ≤ overhead unit file := by omega
  have hsplit : overhead unit file = (slashes file.relative + 2) * unit + unit := by
    unfold overhead
    ring
  have hentries : 0 ≤ (slashes file.relative + 2) * unit :=
    mul_nonneg (by omega) (by omega)
  have hmul : (slashes file.relative + 3) * unit = overhead unit file := rfl
  rw [requireFile, add_eq (by omega) (by omega), ok_bind,
    mul_eq (by rw [hmul]; omega) (by rw [hmul]; omega), ok_bind, hmul,
    checkSize_eq hrequired hrequired' hover0 hover]
  by_cases hfits : 0 ≤ file.size ∧ required + file.size + overhead unit file ≤ maximum
  · obtain ⟨hsize, hsum⟩ := hfits
    have hround := roundUp_le (by omega : 0 < unit) file.size
    have hround' := le_roundUp (by omega : 0 < unit) file.size
    rw [if_pos ⟨hsize, hsum⟩, if_pos ⟨hsize, hsum⟩, ok_bind,
      alignUp_eq (by omega) hsize (by omega), ok_bind, add_eq (by omega) (by omega), ok_bind,
      mul_eq hentries (by omega), ok_bind, add_eq (by omega) (by omega), ok_bind]
    exact add_eq (by omega) (by omega)
  · rw [if_neg hfits, if_neg hfits, error_bind]

theorem accountFile_eq {journal : ℤ} (file : StorageFile) (hjournal : 0 ≤ journal) :
    accountFile journal file =
      if journal + estimate file ≤ maximum then .ok (journal + estimate file)
      else .error (.failed tooLarge) := by
  have hmax : maximum = 9223372036854775807 := by decide
  have hestimate : estimate file = 512 + 4 * qsize file.relative + 4 * qsize file.source := rfl
  rw [accountFile, accountJournalString_eq file.relative hjournal (by omega) (by omega), ok_bind]
  by_cases hrelative : journal + (512 + 4 * (qsize file.relative : ℤ)) ≤ maximum
  · rw [if_pos hrelative]
    show (accountJournalString _ file.source 0 >>= _) = _
    rw [accountJournalString_eq file.source (by omega) le_rfl (by omega), ok_bind]
    by_cases hsource :
        journal + (512 + 4 * (qsize file.relative : ℤ)) + (0 + 4 * qsize file.source) ≤ maximum
    · rw [if_pos hsource, if_pos (by omega)]
      simp only [pure, Except.pure, hestimate]
      congr 1
      ring
    · rw [if_neg hsource, if_neg (by omega)]
  · rw [if_neg hrelative, if_neg (by omega)]

/-- The loop over the files in terms of its sums. -/
theorem requireFiles_spec {unit : ℤ} (hunit : 4096 ≤ unit) {required journal : ℤ}
    {files : List StorageFile} (hrequired : 0 ≤ required) (hrequired' : required ≤ maximum)
    (hjournal : 0 ≤ journal) (hjournal' : journal ≤ maximum)
    (hover : ∀ file ∈ payload files, overhead unit file ≤ maximum) :
    (SizesFit unit required (payload files) →
      journal + ((payload files).map estimate).sum ≤ maximum →
      requireFiles unit required journal files =
        .ok (required + ((payload files).map (charge unit)).sum,
          journal + ((payload files).map estimate).sum)) ∧
    (¬ (SizesFit unit required (payload files) ∧
        journal + ((payload files).map estimate).sum ≤ maximum) →
      ∃ text, requireFiles unit required journal files = .error (.failed text)) := by
  induction files generalizing required journal with
  | nil =>
    refine ⟨fun _ _ => ?_, fun hnot => absurd ⟨trivial, ?_⟩ hnot⟩
    · simp [requireFiles, payload, pure, Except.pure]
    · simpa [payload] using hjournal'
  | cons file files ih =>
    by_cases hpad : file.pad = true
    · have hpayload : payload (file :: files) = payload files := by simp [payload, hpad]
      rw [hpayload] at hover ⊢
      rw [requireFiles, if_pos hpad]
      exact ih hrequired hrequired' hjournal hjournal' hover
    · have hpayload : payload (file :: files) = file :: payload files := by simp [payload, hpad]
      rw [hpayload] at hover ⊢
      have hfile := hover file mem_cons_self
      have hrest : ∀ file' ∈ payload files, overhead unit file' ≤ maximum :=
        fun file' h => hover file' (mem_cons_of_mem file h)
      have hestimate := estimate_pos file
      obtain ⟨hsizele, hcharge, -⟩ := charge_bounds (by omega : 0 < unit) file
      have hsum : 0 ≤ ((payload files).map estimate).sum := by
        refine sum_nonneg fun x hx => ?_
        obtain ⟨file', -, rfl⟩ := mem_map.mp hx
        exact (estimate_pos file').le
      rw [requireFiles, if_neg hpad, requireFile_eq hunit hrequired hrequired' hfile,
        map_cons, map_cons, sum_cons, sum_cons, SizesFit]
      by_cases hsize : 0 ≤ file.size ∧ required + file.size + overhead unit file ≤ maximum
      · rw [if_pos hsize, ok_bind, accountFile_eq file hjournal]
        by_cases haccount : journal + estimate file ≤ maximum
        · rw [if_pos haccount, ok_bind]
          obtain ⟨hok, herror⟩ := @ih (required + charge unit file) (journal + estimate file)
            (by omega) (by omega) (by omega) haccount hrest
          refine ⟨fun hfit hle => ?_, fun hnot => herror fun hboth => hnot ⟨⟨hsize, hboth.1⟩, ?_⟩⟩
          · rw [hok hfit.2 (by omega), add_assoc, add_assoc]
          · omega
        · rw [if_neg haccount, error_bind]
          exact ⟨fun _ hle => absurd hle (by omega), fun _ => ⟨_, rfl⟩⟩
      · rw [if_neg hsize, error_bind]
        exact ⟨fun hfit => absurd hfit.1 hsize, fun _ => ⟨_, rfl⟩⟩

theorem SizesFit.sum_charge_le {unit : ℤ} (hunit : 0 < unit) {required : ℤ}
    {files : List StorageFile} (h : SizesFit unit required files) (hrequired : required ≤ maximum) :
    required + (files.map (charge unit)).sum ≤ maximum := by
  induction files generalizing required with
  | nil => simpa using hrequired
  | cons file files ih =>
    obtain ⟨⟨hsize, hle⟩, hrest⟩ := h
    obtain ⟨-, hcharge, -⟩ := charge_bounds hunit file
    have hstep := ih hrest (by omega)
    rw [map_cons, sum_cons]
    omega

theorem SizesFit.sum_charge_nonneg {unit : ℤ} (hunit : 0 < unit) {required : ℤ}
    {files : List StorageFile} (h : SizesFit unit required files) :
    0 ≤ (files.map (charge unit)).sum := by
  induction files generalizing required with
  | nil => exact le_rfl
  | cons file files ih =>
    obtain ⟨⟨hsize, -⟩, hrest⟩ := h
    obtain ⟨hcharge, -, -⟩ := charge_bounds hunit file
    have hstep := ih hrest
    rw [map_cons, sum_cons]
    omega

theorem SizesFit.size_nonneg {unit : ℤ} {required : ℤ} {files : List StorageFile}
    (h : SizesFit unit required files) : ∀ file ∈ files, 0 ≤ file.size := by
  induction files generalizing required with
  | nil => exact fun _ h => by cases h
  | cons file files ih =>
    intro file' hfile'
    rcases mem_cons.mp hfile' with rfl | hfile'
    · exact h.1.1
    · exact ih h.2 file' hfile'

theorem sum_roundUp_le {unit : ℤ} (hunit : 0 < unit) (files : List StorageFile) :
    (files.map fun file => roundUp unit file.size).sum ≤ (files.map (charge unit)).sum := by
  refine sum_le_sum fun file _ => ?_
  obtain ⟨-, -, hle⟩ := charge_bounds hunit file
  omega

/-- After the loop: the guard lets one sum pass that is out of range. -/
theorem requireJournal_eq {unit required journal : ℤ} (hunit : 0 < unit) (hunit' : unit ≤ maximum)
    (hrequired : 0 ≤ required) (hrequired' : required ≤ maximum) (hjournal : unit ≤ journal)
    (hjournal' : journal ≤ maximum) :
    requireJournal unit required journal =
      if journal + unit = 2 ^ 63 then .error .overflow
      else if required + 2 * roundUp unit journal ≤ maximum then
        .ok (required + 2 * roundUp unit journal)
      else .error (.failed tooLarge) := by
  have hmax : maximum = 9223372036854775807 := by decide
  have hround := roundUp_le hunit journal
  have hround' := le_roundUp hunit journal
  rw [requireJournal, sub_eq (by omega) (by omega), ok_bind, add_eq (by omega) (by omega), ok_bind]
  by_cases hroom : journal > maximum - unit + 1
  · rw [if_pos hroom, if_neg (by omega), if_neg (by omega)]
  · rw [if_neg hroom]
    by_cases hedge : journal + unit = 2 ^ 63
    · rw [if_pos hedge, alignUp_overflow (by omega), error_bind]
    · rw [if_neg hedge, alignUp_eq hunit (by omega) (by omega), ok_bind]
      by_cases hhalf : roundUp unit journal > maximum / 2
      · rw [if_pos hhalf, if_neg (by omega)]
      · rw [if_neg hhalf, mul_eq (by omega) (by omega), ok_bind, sub_eq (by omega) (by omega), ok_bind]
        by_cases hleft : required > maximum - 2 * roundUp unit journal
        · rw [if_pos hleft, if_neg (by omega)]
        · rw [if_neg hleft, if_pos (by omega), add_eq (by omega) (by omega)]

/-! ### The whole computation -/

section Requirement

variable {storage : StorageInfo} {destination : String} {files : List StorageFile}

/-- The one sum that is performed out of range is reached. -/
def Overflows (storage : StorageInfo) (destination : String) (files : List StorageFile) : Prop :=
  storage.isReady = true ∧ SizesFit storage.allocationUnit 0 (payload files) ∧
    journalEstimate storage.allocationUnit destination files + storage.allocationUnit = 2 ^ 63

/-- What is asked of the outcome. -/
structure Accounted (storage : StorageInfo) (destination : String) (files : List StorageFile) :
    Prop where
  inRange : storageRequirement storage destination files ≠ .error .overflow
  enough : ∀ requirement, storageRequirement storage destination files = .ok requirement →
    ((payload files).map fun file => roundUp storage.allocationUnit file.size).sum +
        2 * roundUp storage.allocationUnit
          (journalEstimate storage.allocationUnit destination files) ≤
      requirement.requiredBytes
  refused : (∃ file ∈ payload files, file.size < 0) ∨
      maximum < ((payload files).map fun file => roundUp storage.allocationUnit file.size).sum +
        2 * roundUp storage.allocationUnit
          (journalEstimate storage.allocationUnit destination files) →
    ∃ text, storageRequirement storage destination files = .error (.failed text)

theorem Accounted.of_failed {text : String}
    (h : storageRequirement storage destination files = .error (.failed text)) :
    Accounted storage destination files where
  inRange := by
    rw [h]
    exact fun heq => by cases heq
  enough requirement heq := by
    rw [h] at heq
    cases heq
  refused _ := ⟨text, h⟩

theorem journalEstimate_bounds (unit : ℤ) (destination : String) (files : List StorageFile) :
    unit + (4096 + 4 * qsize destination) ≤ journalEstimate unit destination files ∧
      unit ≤ journalEstimate unit destination files := by
  have hsum : 0 ≤ ((payload files).map estimate).sum := by
    refine sum_nonneg fun x hx => ?_
    obtain ⟨file, -, rfl⟩ := mem_map.mp hx
    exact (estimate_pos file).le
  unfold journalEstimate
  omega

/-- Nothing but the sums matters. -/
theorem storageRequirement_eq (hblock : storage.blockSize ≤ maximum)
    (hover : ∀ file ∈ payload files, overhead storage.allocationUnit file ≤ maximum)
    (hready : storage.isReady = true) :
    (SizesFit storage.allocationUnit 0 (payload files) →
      journalEstimate storage.allocationUnit destination files ≤ maximum →
      storageRequirement storage destination files =
        (requireJournal storage.allocationUnit
          ((payload files).map (charge storage.allocationUnit)).sum
          (journalEstimate storage.allocationUnit destination files) >>= fun requiredBytes =>
            .ok { requiredBytes := requiredBytes, availableBytes := storage.bytesAvailable })) ∧
    (¬ (SizesFit storage.allocationUnit 0 (payload files) ∧
        journalEstimate storage.allocationUnit destination files ≤ maximum) →
      ∃ text, storageRequirement storage destination files = .error (.failed text)) := by
  have hmax : maximum = 9223372036854775807 := by decide
  have hunit : 4096 ≤ storage.allocationUnit := le_max_left _ _
  have hunit' : storage.allocationUnit ≤ maximum := max_le (by omega) hblock
  obtain ⟨hdestination, -⟩ := journalEstimate_bounds storage.allocationUnit destination files
  rw [storageRequirement, if_neg (by simp [hready]),
    accountJournalString_eq destination (by omega) (by omega) (by omega), ok_bind]
  by_cases hfits : storage.allocationUnit + (4096 + 4 * (qsize destination : ℤ)) ≤ maximum
  · rw [if_pos hfits]
    obtain ⟨hok, herror⟩ := @requireFiles_spec storage.allocationUnit hunit 0
      (storage.allocationUnit + (4096 + 4 * (qsize destination : ℤ))) files le_rfl (by omega)
      (by omega) hfits hover
    rw [zero_add] at hok
    refine ⟨fun hsizes hle => ?_, fun hnot => ?_⟩
    · show (requireFiles _ _ _ _ >>= _) = _
      rw [hok hsizes hle, ok_bind]
      rfl
    · obtain ⟨text, htext⟩ := herror hnot
      refine ⟨text, ?_⟩
      show (requireFiles _ _ _ _ >>= _) = _
      rw [htext, error_bind]
  · rw [if_neg hfits]
    exact ⟨fun _ hle => absurd hle (by omega), fun _ => ⟨_, rfl⟩⟩

theorem storageRequirement_overflow (hblock : storage.blockSize ≤ maximum)
    (hover : ∀ file ∈ payload files, overhead storage.allocationUnit file ≤ maximum)
    (h : Overflows storage destination files) :
    storageRequirement storage destination files = .error .overflow := by
  have hmax : maximum = 9223372036854775807 := by decide
  have hunit : 4096 ≤ storage.allocationUnit := le_max_left _ _
  have hunit' : storage.allocationUnit ≤ maximum := max_le (by omega) hblock
  obtain ⟨hready, hsizes, hedge⟩ := h
  obtain ⟨-, hestimate⟩ := journalEstimate_bounds storage.allocationUnit destination files
  have htotal := hsizes.sum_charge_le (by omega) (by omega)
  rw [zero_add] at htotal
  rw [(storageRequirement_eq hblock hover hready).1 hsizes (by omega),
    requireJournal_eq (by omega) hunit' (hsizes.sum_charge_nonneg (by omega)) htotal hestimate
      (by omega), if_pos hedge, error_bind]

theorem accounted_of_not_overflows (hblock : storage.blockSize ≤ maximum)
    (hover : ∀ file ∈ payload files, overhead storage.allocationUnit file ≤ maximum)
    (h : ¬ Overflows storage destination files) : Accounted storage destination files := by
  have hmax : maximum = 9223372036854775807 := by decide
  have hunit : 4096 ≤ storage.allocationUnit := le_max_left _ _
  have hunit' : storage.allocationUnit ≤ maximum := max_le (by omega) hblock
  by_cases hready : storage.isReady = true
  case neg =>
    have hfailed : storageRequirement storage destination files = .error (.failed cannotInspect) := by
      rw [storageRequirement, if_pos (by simpa using hready)]
    exact .of_failed hfailed
  obtain ⟨hrun, hrefused⟩ := @storageRequirement_eq storage destination files hblock hover hready
  by_cases hsizes : SizesFit storage.allocationUnit 0 (payload files) ∧
      journalEstimate storage.allocationUnit destination files ≤ maximum
  case neg =>
    obtain ⟨text, htext⟩ := hrefused hsizes
    exact .of_failed htext
  obtain ⟨-, hestimate⟩ := journalEstimate_bounds storage.allocationUnit destination files
  have htotal := hsizes.1.sum_charge_le (by omega) (by omega)
  rw [zero_add] at htotal
  have hround := sum_roundUp_le (by omega : 0 < storage.allocationUnit) (payload files)
  have heq := hrun hsizes.1 hsizes.2
  rw [requireJournal_eq (by omega) hunit' (hsizes.1.sum_charge_nonneg (by omega)) htotal hestimate
    hsizes.2, if_neg fun hedge => h ⟨hready, hsizes.1, hedge⟩] at heq
  by_cases hfits : ((payload files).map (charge storage.allocationUnit)).sum +
      2 * roundUp storage.allocationUnit
        (journalEstimate storage.allocationUnit destination files) ≤ maximum
  · rw [if_pos hfits, ok_bind] at heq
    constructor
    case inRange =>
      rw [heq]
      exact fun hne => by cases hne
    case enough =>
      intro requirement hrequirement
      rw [heq] at hrequirement
      cases hrequirement
      show _ ≤ _ + _
      omega
    case refused =>
      rintro (⟨file, hfile, hnegative⟩ | hlarge)
      · exact absurd (hsizes.1.size_nonneg file hfile) (not_le.mpr hnegative)
      · omega
  · rw [if_neg hfits, error_bind] at heq
    exact .of_failed heq

/-- Every operation is in range, a returned requirement covers the files and two journals, and a
negative size or a total that does not fit is an error, if and only if the computation does not come
to add the allocation unit to an estimate that is less by this unit than `2^63`. -/
theorem storage_requirement_accounted (hblock : storage.blockSize ≤ maximum)
    (hover : ∀ file ∈ payload files, overhead storage.allocationUnit file ≤ maximum) :
    Accounted storage destination files ↔ ¬ Overflows storage destination files :=
  ⟨fun h hoverflows => h.inRange (storageRequirement_overflow hblock hover hoverflows),
    accounted_of_not_overflows hblock hover⟩

end Requirement

/-- A torrent with one file in a directory. -/
def sampleFiles : List StorageFile :=
  [{ pad := false, size := 5000, relative := "a/b", source := "" }]

theorem storage_requirement_accounted_sample :
    Accounted { isReady := true, blockSize := 512, bytesAvailable := 0 } "C:/d" sampleFiles := by
  refine (storage_requirement_accounted (by decide) ?_).mpr fun h => ?_
  · intro file hfile
    obtain rfl := mem_singleton.mp hfile
    decide
  · exact absurd h.2.2 (by decide)

theorem qsize_replicate (n : ℕ) : qsize (String.ofList (List.replicate n 'a')) = n := by
  unfold qsize
  rw [String.toList_ofList, map_replicate, sum_replicate]
  simp

theorem overflows_of_length {n : ℕ} (h : (n : ℤ) = 2 ^ 61 - 3072) :
    Overflows { isReady := true, blockSize := 4096, bytesAvailable := 0 }
      (String.ofList (List.replicate n 'a')) [] := by
  refine ⟨rfl, trivial, ?_⟩
  unfold journalEstimate
  rw [qsize_replicate]
  show (4096 : ℤ) + (4096 + 4 * (n : ℤ)) + 0 + 4096 = 2 ^ 63
  rw [h]
  norm_num

/-- With a path of `2^61 - 3072` characters the estimate is `2^63 - 4096`; the allocation unit is added
to it. -/
theorem long_destination_overflows :
    ¬ Accounted { isReady := true, blockSize := 4096, bytesAvailable := 0 }
      (String.ofList (List.replicate (2 ^ 61 - 3072) 'a')) [] := by
  intro h
  refine h.inRange (storageRequirement_overflow (by decide) (fun file hfile => ?_)
    (overflows_of_length (by norm_num)))
  cases hfile

end Qbutt.Staging
