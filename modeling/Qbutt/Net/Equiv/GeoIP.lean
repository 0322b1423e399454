import Mathlib.Data.UInt
import Qbutt.Algorithm.Except
import Qbutt.Net.GeoIP

/-!
# Reading the location database

Reading terminates if and only if no field that is reached contains itself (`terminates_iff`), and it
stays inside the data if and only if every field that is reached fits (`inside_iff`).  Neither is
checked: a file may be loaded without end (`cyclic_file_not_loaded`), and a text at its end may be
longer than the file (`long_text_outside`).
-/

namespace Qbutt.GeoIP

open Procedure List

namespace GeoIPDatabase

variable {env : Surroundings} {db : GeoIPDatabase}

/-! ### Bytes -/

def positions (i : ℤ) : ℕ → List ℤ
  | 0 => []
  | n + 1 => i :: positions (i + 1) n

theorem mem_positions {i x : ℤ} {n : ℕ} : x ∈ positions i n ↔ i ≤ x ∧ x < i + n := by
  induction n generalizing i with
  | zero =>
    rw [positions, Nat.cast_zero, add_zero]
    constructor
    · exact fun h => absurd h not_mem_nil
    · omega
  | succ n ih =>
    rw [positions, mem_cons, ih, Nat.cast_succ]
    omega

def dataFrom (env : Surroundings) (db : GeoIPDatabase) (i : ℤ) : ℕ → List UInt8
  | 0 => []
  | n + 1 => db.dataAt env i :: dataFrom env db (i + 1) n

theorem straight_byte (i : ℤ) : Straight (db.byte env i) [i] (db.dataAt env i) := rfl

variable (env db) in
theorem straight_bytesFrom (i : ℤ) (n : ℕ) :
    Straight (db.bytesFrom env i n) (positions i n) (db.dataFrom env i n) := by
  induction n generalizing i with
  | zero => exact straight_pure []
  | succ n ih =>
    exact (straight_byte i).bind ((ih (i + 1)).map fun bytes => db.dataAt env i :: bytes)

variable (env db) in
theorem straight_byteOf (offset : UInt32) (k : ℕ) :
    Straight (db.byteOf env offset k) [(offset.toNat : ℤ) + k]
      (db.dataAt env (offset.toNat + k)).toUInt32 :=
  (straight_byte _).bind (straight_pure _)

/-! ### Descriptors -/

/-- The number of bytes from an offset to the end, as the code computes it. -/
def availSize (db : GeoIPDatabase) (offset : UInt32) : ℤ := asInt (db.m_size - offset)

def firstByte (env : Surroundings) (db : GeoIPDatabase) (offset : UInt32) : UInt32 :=
  (db.dataAt env offset.toNat).toUInt32

/-- The descriptor has its type in a second byte. -/
def IsExtended (env : Surroundings) (db : GeoIPDatabase) (offset : UInt32) : Prop :=
  DataType.ofCode ((db.firstByte env offset &&& 0xE0) >>> 5).toNat = .unknown ∧
    db.firstByte env offset &&& 0x1F ≤ 28

variable (env db) in
theorem straight_readPointerOffset (offset first size : UInt32) :
    ∃ notes target, Straight (db.readPointerOffset env offset first size) notes target ∧
      ∀ x ∈ notes, (offset.toNat : ℤ) ≤ x ∧ x < offset.toNat + size.toNat + 2 := by
  unfold readPointerOffset
  split_ifs with h0 h1 h2
  · refine ⟨_, _, (straight_byteOf env db offset 1).bind (straight_pure _), ?_⟩
    intro x hx
    simp at hx
    omega
  · refine ⟨_, _, (straight_byteOf env db offset 1).bind
      ((straight_byteOf env db offset 2).bind (straight_pure _)), ?_⟩
    intro x hx
    subst h1
    simp at hx ⊢
    omega
  · refine ⟨_, _, (straight_byteOf env db offset 1).bind ((straight_byteOf env db offset 2).bind
      ((straight_byteOf env db offset 3).bind (straight_pure _))), ?_⟩
    intro x hx
    subst h2
    simp at hx ⊢
    omega
  · refine ⟨_, _, (straight_byteOf env db offset 1).bind ((straight_byteOf env db offset 2).bind
      ((straight_byteOf env db offset 3).bind ((straight_byteOf env db offset 4).bind (straight_pure _)))), ?_⟩
    intro x hx
    have hsize : 3 ≤ size.toNat := by
      have h0' : size.toNat ≠ 0 := fun h => h0 (UInt32.toNat_inj.mp h)
      have h1' : size.toNat ≠ 1 := fun h => h1 (UInt32.toNat_inj.mp h)
      have h2' : size.toNat ≠ 2 := fun h => h2 (UInt32.toNat_inj.mp h)
      omega
    simp at hx
    omega

def Behind (offset : UInt32) (room : ℤ) (next : UInt32) : Prop :=
  ∃ k : ℕ, (k : ℤ) ≤ room ∧ next = offset + UInt32.ofNat k

variable (env db) in
theorem straight_readPointer (offset first : UInt32) (room : ℤ) :
    ∃ notes result, Straight (db.readPointer env offset first room) notes result ∧
      (∀ x ∈ notes, (offset.toNat : ℤ) ≤ x ∧ x < offset.toNat + room) ∧
      ∀ descr next, result = some (descr, next) → Behind offset room next := by
  unfold readPointer
  extract_lets size
  split_ifs with hroom
  · exact ⟨_, _, straight_pure none, by simp, by simp⟩
  · obtain ⟨notes, target, htarget, hnear⟩ :=
      straight_readPointerOffset env db offset first size
    refine ⟨_, _, htarget.bind (straight_pure _), ?_, ?_⟩
    · intro x hx
      rw [append_nil] at hx
      have := hnear x hx
      omega
    · rintro descr next ⟨⟩
      refine ⟨size.toNat + 2, by omega, ?_⟩
      rw [add_assoc]
      congr 1

variable (env db) in
theorem straight_readSize (offset first : UInt32) (fieldType : DataType) {room : ℤ}
    (hroom : 1 ≤ room) :
    ∃ notes result, Straight (db.readSize env offset first fieldType room) notes result ∧
      (fieldType = .unknown ∧ first &&& 0x1F ≤ 28 → (offset.toNat : ℤ) + 1 ∈ notes) ∧
      (∀ x ∈ notes, (offset.toNat : ℤ) ≤ x ∧ (x < offset.toNat + room ∨
        (fieldType = .unknown ∧ first &&& 0x1F ≤ 28) ∧ x = offset.toNat + 1)) ∧
      ∀ descr next, result = some (descr, next) → Behind offset room next := by
  unfold readSize
  extract_lets fieldSize
  split_ifs with hsmall hunknown h29 hroom2 h30 hroom3 hroom4
  · by_cases hbad : (db.dataAt env (offset.toNat + 1)).toUInt32.toNat + 7 ≤ 7 ∨
        15 < (db.dataAt env (offset.toNat + 1)).toUInt32.toNat + 7 ∨ room < 3
    · refine ⟨_, none, (straight_byteOf env db offset 1).bind (by
        rw [Nat.cast_one, if_pos hbad]
        exact straight_pure _), by simp, ?_, by simp⟩
      intro x hx
      simp at hx
      exact ⟨by omega, .inr ⟨⟨hunknown, hsmall⟩, hx⟩⟩
    · refine ⟨_, _, (straight_byteOf env db offset 1).bind (by
        rw [Nat.cast_one, if_neg hbad]
        exact straight_pure _), by simp, ?_, ?_⟩
      · intro x hx
        simp at hx
        exact ⟨by omega, .inr ⟨⟨hunknown, hsmall⟩, hx⟩⟩
      · rintro descr next ⟨⟩
        exact ⟨2, by omega, rfl⟩
  · refine ⟨_, _, straight_pure _, fun h => absurd h.1 hunknown, by simp, ?_⟩
    rintro descr next ⟨⟩
    exact ⟨1, by omega, rfl⟩
  · exact ⟨_, _, straight_pure none, fun h => absurd h.2 hsmall, by simp, by simp⟩
  · refine ⟨_, _, (straight_byteOf env db offset 1).bind (straight_pure _), fun h => absurd h.2 hsmall, ?_,
      ?_⟩
    · intro x hx
      simp at hx
      omega
    · rintro descr next ⟨⟩
      exact ⟨2, by omega, rfl⟩
  · exact ⟨_, _, straight_pure none, fun h => absurd h.2 hsmall, by simp, by simp⟩
  · refine ⟨_, _, (straight_byteOf env db offset 1).bind ((straight_byteOf env db offset 2).bind
      (straight_pure _)), fun h => absurd h.2 hsmall, ?_, ?_⟩
    · intro x hx
      simp at hx
      omega
    · rintro descr next ⟨⟩
      exact ⟨3, by omega, rfl⟩
  · exact ⟨_, _, straight_pure none, fun h => absurd h.2 hsmall, by simp, by simp⟩
  · refine ⟨_, _, (straight_byteOf env db offset 1).bind ((straight_byteOf env db offset 2).bind
      ((straight_byteOf env db offset 3).bind (straight_pure _))), fun h => absurd h.2 hsmall, ?_, ?_⟩
    · intro x hx
      simp at hx
      omega
    · rintro descr next ⟨⟩
      exact ⟨4, by omega, rfl⟩

def header (env : Surroundings) (db : GeoIPDatabase) (offset : UInt32) :
    Option (DataFieldDescriptor × UInt32) :=
  (db.readDataFieldDescriptor env offset).alone.2.join

structure Describes (env : Surroundings) (db : GeoIPDatabase) (offset : UInt32)
    (notes : List ℤ) : Prop where
  straight : Straight (db.readDataFieldDescriptor env offset) notes (db.header env offset)
  first : 1 ≤ db.availSize offset → (offset.toNat : ℤ) ∈ notes
  second : 1 ≤ db.availSize offset → db.IsExtended env offset → (offset.toNat : ℤ) + 1 ∈ notes
  near : ∀ x ∈ notes, 1 ≤ db.availSize offset ∧ (offset.toNat : ℤ) ≤ x ∧
    (x < offset.toNat + db.availSize offset ∨
      db.IsExtended env offset ∧ x = (offset.toNat : ℤ) + 1)
  behind : ∀ descr next, db.header env offset = some (descr, next) →
    1 ≤ db.availSize offset ∧ Behind offset (db.availSize offset) next

theorem exists_describes (env : Surroundings) (db : GeoIPDatabase) (offset : UInt32) :
    ∃ notes, db.Describes env offset notes := by
  have hheader : ∀ {notes result},
      Straight (db.readDataFieldDescriptor env offset) notes result →
        db.header env offset = result := by
    intro notes result h
    rw [header, show (db.readDataFieldDescriptor env offset).alone = (notes, some result) from h]
    rfl
  by_cases havail : db.availSize offset < 1
  · have hstraight : Straight (db.readDataFieldDescriptor env offset) [] none := by
      unfold readDataFieldDescriptor
      extract_lets room
      rw [if_pos (show room < 1 from havail)]
      exact straight_pure none
    refine ⟨[], ⟨(hheader hstraight).symm ▸ hstraight, by omega, by omega, by simp, ?_⟩⟩
    intro descr next h
    rw [hheader hstraight] at h
    cases h
  · have hwhole : ∀ {notes result},
        Straight (if DataType.ofCode ((db.firstByte env offset &&& 0xE0) >>> 5).toNat = .pointer
            then db.readPointer env offset (db.firstByte env offset) (db.availSize offset)
            else db.readSize env offset (db.firstByte env offset)
              (.ofCode ((db.firstByte env offset &&& 0xE0) >>> 5).toNat) (db.availSize offset))
          notes result →
        Straight (db.readDataFieldDescriptor env offset) ((offset.toNat : ℤ) :: notes) result := by
      intro notes result h
      have hbyte := straight_byteOf env db offset 0
      rw [Nat.cast_zero, add_zero] at hbyte
      unfold readDataFieldDescriptor
      extract_lets room
      rw [if_neg (show ¬ room < 1 from havail)]
      exact hbyte.bind h
    by_cases hpointer :
        DataType.ofCode ((db.firstByte env offset &&& 0xE0) >>> 5).toNat = .pointer
    · rw [if_pos hpointer] at hwhole
      obtain ⟨notes, result, hstraight, hnear, hbehind⟩ :=
        straight_readPointer env db offset (db.firstByte env offset)
          (db.availSize offset)
      have hwhole := hwhole hstraight
      refine ⟨_, ⟨(hheader hwhole).symm ▸ hwhole, fun _ => mem_cons_self, ?_, ?_, ?_⟩⟩
      · intro _ hextended
        rw [IsExtended, hpointer] at hextended
        cases hextended.1
      · intro x hx
        rcases mem_cons.mp hx with rfl | hx
        · omega
        · have := hnear x hx
          omega
      · intro descr next h
        rw [hheader hwhole] at h
        exact ⟨by omega, hbehind descr next h⟩
    · rw [if_neg hpointer] at hwhole
      obtain ⟨notes, result, hstraight, hsecond, hnear, hbehind⟩ :=
        straight_readSize env db offset (db.firstByte env offset)
          (.ofCode ((db.firstByte env offset &&& 0xE0) >>> 5).toNat)
          (show 1 ≤ db.availSize offset by omega)
      have hwhole := hwhole hstraight
      refine ⟨_, ⟨(hheader hwhole).symm ▸ hwhole, fun _ => mem_cons_self,
        fun _ hextended => mem_cons_of_mem _ (hsecond hextended), ?_, ?_⟩⟩
      · intro x hx
        rcases mem_cons.mp hx with rfl | hx
        · omega
        · obtain ⟨hlow, h⟩ := hnear x hx
          exact ⟨by omega, hlow, h⟩
      · intro descr next h
        rw [hheader hwhole] at h
        exact ⟨by omega, hbehind descr next h⟩

/-! ### What fits -/

def InData (db : GeoIPDatabase) (x : ℤ) : Prop := 0 ≤ x ∧ x < db.m_data.length

/-- If a descriptor is read, it is read in the data: the offset is not so far behind the data that
the number of bytes up to the end wraps around, and the second byte of the type is there. -/
def DescriptorFits (env : Surroundings) (db : GeoIPDatabase) (offset : UInt32) : Prop :=
  1 ≤ db.availSize offset →
    offset.toNat < db.m_data.length ∧
      (db.IsExtended env offset → offset.toNat + 1 < db.m_data.length)

/-- A text or byte array is not longer than the data behind its descriptor. -/
def ContentFits (db : GeoIPDatabase) (descr : DataFieldDescriptor) (offset : UInt32) : Prop :=
  descr.fieldType = .string ∨ descr.fieldType = .bytes →
    offset.toNat + descr.fieldSize.toNat ≤ db.m_data.length

/-- A field fits into the data, the one that a pointer leads to for a pointer. -/
def FieldFits (env : Surroundings) (db : GeoIPDatabase) (offset : UInt32) : Prop :=
  db.DescriptorFits env offset ∧
    match db.header env offset with
    | none => True
    | some (descr, next) =>
      if descr.fieldType = .pointer then
        db.DescriptorFits env (db.pointerTarget descr) ∧
          match db.header env (db.pointerTarget descr) with
          | none => True
          | some (descr, next) => db.ContentFits descr next
      else db.ContentFits descr next

section Fits

variable {offset : UInt32} (hsize : db.m_data.length ≤ MAX_FILE_SIZE) {descr : DataFieldDescriptor}

include hsize

theorem toNat_m_size : db.m_size.toNat = db.m_data.length := by
  rw [m_size, UInt32.toNat_ofNat']
  exact Nat.mod_eq_of_lt (by rw [MAX_FILE_SIZE] at hsize; omega)

theorem availSize_of_le (h : offset.toNat ≤ db.m_data.length) :
    db.availSize offset = db.m_data.length - offset.toNat := by
  have hlength := toNat_m_size hsize
  have hsub : (db.m_size - offset).toNat = db.m_data.length - offset.toNat := by
    rw [UInt32.toNat_sub, hlength]
    rw [MAX_FILE_SIZE] at hsize
    omega
  rw [availSize, asInt, hsub, if_pos (by rw [MAX_FILE_SIZE] at hsize; omega)]
  omega

theorem descriptor_inside {notes : List ℤ} (h : db.Describes env offset notes) :
    (∀ x ∈ notes, db.InData x) ↔ db.DescriptorFits env offset := by
  constructor
  · intro hnotes havail
    refine ⟨?_, fun hextended => ?_⟩
    · exact_mod_cast (hnotes _ (h.first havail)).2
    · exact_mod_cast (hnotes _ (h.second havail hextended)).2
  · intro hfits x hx
    obtain ⟨havail, hlow, hnear⟩ := h.near x hx
    obtain ⟨hlt, hsecond⟩ := hfits havail
    have hroom := availSize_of_le hsize hlt.le
    refine ⟨by omega, ?_⟩
    rcases hnear with hnear | ⟨hextended, rfl⟩
    · omega
    · exact_mod_cast hsecond hextended

theorem next_le (hfits : db.DescriptorFits env offset) {next : UInt32}
    (h : db.header env offset = some (descr, next)) : next.toNat ≤ db.m_data.length := by
  obtain ⟨notes, hdescribes⟩ := exists_describes env db offset
  obtain ⟨havail, k, hk, rfl⟩ := hdescribes.behind descr next h
  obtain ⟨hlt, -⟩ := hfits havail
  rw [availSize_of_le hsize hlt.le] at hk
  rw [MAX_FILE_SIZE] at hsize
  rw [UInt32.toNat_add, UInt32.toNat_ofNat']
  omega

variable (env) in
theorem straight_readPlainValue (size : ℕ) (offset fieldSize : UInt32) :
    ∃ notes result, Straight (db.readPlainValue env size offset fieldSize) notes result ∧
      (offset.toNat ≤ db.m_data.length → ∀ x ∈ notes, db.InData x) := by
  unfold readPlainValue
  extract_lets len room
  split_ifs with hroom
  · refine ⟨_, _, (straight_bytesFrom env db _ _).bind (straight_pure _), fun hle x hx => ?_⟩
    rw [append_nil, mem_positions] at hx
    have hsub : room.toNat = db.m_data.length - offset.toNat := by
      rw [UInt32.toNat_sub, toNat_m_size hsize]
      rw [MAX_FILE_SIZE] at hsize
      omega
    rw [hsub] at hroom
    exact ⟨by omega, by omega⟩
  · exact ⟨_, _, straight_pure _, fun _ x hx => absurd hx not_mem_nil⟩

variable {body : UInt32 → Reader (QVariant × UInt32)}

omit hsize in
theorem emits_readField {x : ℤ} : ¬ Emits body (readField offset) x := by
  rw [readField, emits_call]
  rintro ⟨_, -, h⟩
  exact not_emits_pure h

omit hsize in
theorem not_emits_readMapValue (count : ℕ) (entries : QVariantHash) (offset : UInt32) (x : ℤ) :
    ¬ Emits body (readMapValue count entries offset) x := by
  induction count generalizing entries offset with
  | zero => exact not_emits_pure
  | succ count ih =>
    rw [readMapValue, emits_bind]
    rintro (h | ⟨⟨field, next⟩, -, h⟩)
    · exact emits_readField h
    · dsimp only at h
      split at h
      · rw [emits_bind] at h
        rcases h with h | ⟨⟨value, next'⟩, -, h⟩
        · exact emits_readField h
        · dsimp only at h
          split at h
          · exact not_emits_pure h
          · exact ih _ _ h
      · exact not_emits_pure h

omit hsize in
theorem not_emits_readArrayValue (count : ℕ) (items : List QVariant) (offset : UInt32) (x : ℤ) :
    ¬ Emits body (readArrayValue count items offset) x := by
  induction count generalizing items offset with
  | zero => exact not_emits_pure
  | succ count ih =>
    rw [readArrayValue, emits_bind]
    rintro (h | ⟨⟨field, next⟩, -, h⟩)
    · exact emits_readField h
    · dsimp only at h
      split at h
      · exact not_emits_pure h
      · exact ih _ _ h

theorem plain_inside {size : ℕ} {fieldSize : UInt32} (hle : offset.toNat ≤ db.m_data.length)
    (f : ℕ × UInt32 → QVariant × UInt32) {x : ℤ}
    (h : Emits body (db.readPlainValue env size offset fieldSize >>= fun r => pure (f r)) x) :
    db.InData x := by
  obtain ⟨notes, result, hstraight, hinside⟩ :=
    straight_readPlainValue env hsize size offset fieldSize
  exact hinside hle x ((hstraight.map f).emits_iff.mp h)

/-- What is read behind a descriptor is in the data if a text or byte array fits. -/
theorem content_inside (hle : offset.toNat ≤ db.m_data.length) :
    (∀ x, Emits body (db.readFieldValue env descr offset) x → db.InData x) ↔
      db.ContentFits descr offset := by
  have hbytes : ∀ f : List UInt8 → QVariant × UInt32,
      (∀ x, Emits body (db.bytesFrom env offset.toNat descr.fieldSize.toNat >>= fun bytes =>
        pure (f bytes)) x → db.InData x) ↔
        offset.toNat + descr.fieldSize.toNat ≤ db.m_data.length := by
    intro f
    have hstraight := (straight_bytesFrom env db offset.toNat
      descr.fieldSize.toNat).map f
    constructor
    · intro h
      by_cases hempty : descr.fieldSize.toNat = 0
      · omega
      · have hlast := h (offset.toNat + descr.fieldSize.toNat - 1) (by
          rw [hstraight.emits_iff, mem_positions]
          omega)
        have := hlast.2
        omega
    · intro hfits x hx
      rw [hstraight.emits_iff, mem_positions] at hx
      exact ⟨by omega, by omega⟩
  unfold readFieldValue ContentFits
  extract_lets size
  cases htype : descr.fieldType with
  | string => exact (hbytes _).trans (by simp)
  | bytes => exact (hbytes _).trans (by simp)
  | double =>
    refine iff_of_true (fun x hx => ?_) (by simp)
    dsimp only at hx
    split_ifs at hx
    · exact plain_inside hsize hle _ hx
    · exact absurd hx not_emits_pure
  | float =>
    refine iff_of_true (fun x hx => ?_) (by simp)
    dsimp only at hx
    split_ifs at hx
    · exact plain_inside hsize hle _ hx
    · exact absurd hx not_emits_pure
  | integer16 => exact iff_of_true (fun x hx => plain_inside hsize hle _ hx) (by simp)
  | integer32 => exact iff_of_true (fun x hx => plain_inside hsize hle _ hx) (by simp)
  | signedInteger32 => exact iff_of_true (fun x hx => plain_inside hsize hle _ hx) (by simp)
  | integer64 => exact iff_of_true (fun x hx => plain_inside hsize hle _ hx) (by simp)
  | map => exact iff_of_true (fun x hx => absurd hx (not_emits_readMapValue _ _ _ _)) (by simp)
  | array => exact iff_of_true (fun x hx => absurd hx (not_emits_readArrayValue _ _ _ _)) (by simp)
  | boolean => exact iff_of_true (fun x hx => absurd hx not_emits_pure) (by simp)
  | _ => exact iff_of_true (fun x hx => absurd hx not_emits_pure) (by simp)

theorem field_inside (body : UInt32 → Reader (QVariant × UInt32)) :
    (∀ x, Emits body (db.readDataField env offset) x → db.InData x) ↔ db.FieldFits env offset := by
  obtain ⟨notes, hdescribes⟩ := exists_describes env db offset
  unfold readDataField FieldFits
  simp only [hdescribes.straight.emits_bind_iff, or_imp, forall_and,
    descriptor_inside hsize hdescribes]
  refine and_congr_right fun hfits => ?_
  cases hheader : db.header env offset with
  | none => exact iff_of_true (fun x hx => absurd hx not_emits_pure) trivial
  | some found =>
    obtain ⟨descr, next⟩ := found
    dsimp only
    split_ifs with hpointer
    · obtain ⟨notes', hdescribes'⟩ := exists_describes env db (db.pointerTarget descr)
      simp only [hdescribes'.straight.emits_bind_iff, or_imp, forall_and,
        descriptor_inside hsize hdescribes']
      refine and_congr_right fun hfits' => ?_
      cases hheader' : db.header env (db.pointerTarget descr) with
      | none => exact iff_of_true (fun x hx => absurd hx not_emits_pure) trivial
      | some found' =>
        obtain ⟨descr', next'⟩ := found'
        dsimp only
        rw [← content_inside hsize (next_le hsize hfits' hheader')]
        refine forall_congr' fun x => imp_congr_left ?_
        rw [emits_bind]
        exact or_iff_left (by rintro ⟨_, _, h⟩; exact not_emits_pure h)
    · exact content_inside hsize (next_le hsize hfits hheader)

end Fits

/-! ### The tree -/

/-- Where a record of a node begins. -/
def recordStart (db : GeoIPDatabase) (ptr : ℕ) (right : Bool) : ℕ :=
  if right then ptr + db.m_recordBytes else ptr

def recordNumber (env : Surroundings) (db : GeoIPDatabase) (ptr : ℕ) (right : Bool) : UInt32 :=
  UInt32.ofNat (fromBigEndian (db.dataFrom env (db.recordStart ptr right) db.m_recordBytes))

def nodeAt (env : Surroundings) (db : GeoIPDatabase) : List Bool → ℕ → Option ℕ
  | [], ptr => some ptr
  | right :: path, ptr =>
    if db.recordNumber env ptr right < db.m_nodeCount then
      nodeAt env db path (db.recordNumber env ptr right * db.m_nodeSize).toNat
    else none

/-- An address leads to the node before its last bit. -/
def IsNode (env : Surroundings) (db : GeoIPDatabase) (ptr : ℕ) : Prop :=
  ∃ path, path.length < 128 ∧ db.nodeAt env path 0 = some ptr

/-- An address leads to the record of data with this number. -/
def IsRecord (env : Surroundings) (db : GeoIPDatabase) (id : UInt32) : Prop :=
  ∃ ptr right, db.IsNode env ptr ∧ db.recordNumber env ptr right = id ∧ db.m_nodeCount < id

variable {node : ℕ}

section Tree

variable {body : UInt32 → Reader (QVariant × UInt32)} {countries : Countries} {ptr : ℕ}
  {id s : UInt32} {x : ℤ} {bits : List Bool}

theorem straight_readRecord (ptr : ℕ) (right : Bool) :
    Straight (db.readRecord env ptr right)
      (positions (db.recordStart ptr right) db.m_recordBytes) (db.recordNumber env ptr right) :=
  (straight_bytesFrom env db _ _).map fun bytes => UInt32.ofNat (fromBigEndian bytes)

theorem not_emits_country : ¬ Emits body (db.country env countries id) x := by
  unfold country
  extract_lets found
  split_ifs with hempty
  · rw [emits_bind]
    rintro (h | ⟨⟨val, next⟩, -, h⟩)
    · exact emits_readField h
    · dsimp only at h
      split at h
      · exact not_emits_pure h
      · exact not_emits_pure h
  · exact not_emits_pure

theorem calls_readField {offset : UInt32} : Calls body (readField offset) s ↔ s = offset := by
  rw [readField, calls_call]
  exact or_iff_left fun ⟨_, _, h⟩ => not_calls_pure h

theorem calls_country :
    Calls body (db.country env countries id) s ↔
      (countries.lookup id).getD [] = [] ∧ s = db.recordOffset id := by
  unfold country
  extract_lets found
  split_ifs with hempty
  · rw [calls_bind, calls_readField, or_iff_left]
    · exact (and_iff_right (isEmpty_iff.mp hempty)).symm
    · rintro ⟨⟨val, next⟩, -, h⟩
      dsimp only at h
      split at h
      · exact not_calls_pure h
      · exact not_calls_pure h
  · refine iff_of_false not_calls_pure fun h => hempty ?_
    exact isEmpty_iff.mpr h.1

/-- The way that some bits take from a node on goes on from another node with this record. -/
def Passes (env : Surroundings) (db : GeoIPDatabase) (bits : List Bool) (ptr node : ℕ)
    (right : Bool) : Prop :=
  ∃ path rest, bits = path ++ right :: rest ∧ db.nodeAt env path ptr = some node

theorem passes_cons {right right' : Bool} :
    db.Passes env (right :: bits) ptr node right' ↔
      (node = ptr ∧ right' = right) ∨ db.recordNumber env ptr right < db.m_nodeCount ∧
        db.Passes env bits (db.recordNumber env ptr right * db.m_nodeSize).toNat node right' := by
  constructor
  · rintro ⟨path, rest, hbits, hnode⟩
    cases path with
    | nil =>
      cases hbits
      exact .inl ⟨(Option.some.inj hnode).symm, rfl⟩
    | cons first path =>
      cases hbits
      rw [nodeAt] at hnode
      split_ifs at hnode with hlt
      exact .inr ⟨hlt, path, rest, rfl, hnode⟩
  · rintro (⟨rfl, rfl⟩ | ⟨hlt, path, rest, rfl, hnode⟩)
    · exact ⟨[], bits, rfl, rfl⟩
    · refine ⟨right :: path, rest, rfl, ?_⟩
      rw [nodeAt, if_pos hlt]
      exact hnode

theorem not_passes_nil {right : Bool} : ¬ db.Passes env [] ptr node right := by
  rintro ⟨path, rest, hbits, -⟩
  simp at hbits

theorem lt_of_not {id n : UInt32} (hne : id ≠ n) (hnot : ¬ n < id) : id < n := by
  rw [UInt32.lt_iff_toNat_lt] at hnot ⊢
  have hne' : id.toNat ≠ n.toNat := fun h => hne (UInt32.toNat_inj.mp h)
  omega

/-- What is read along the way of an address. -/
theorem emits_walk :
    Emits body (db.walk env countries bits ptr) x ↔
      ∃ node right, db.Passes env bits ptr node right ∧
        x ∈ positions (db.recordStart node right) db.m_recordBytes := by
  induction bits generalizing ptr with
  | nil => exact iff_of_false not_emits_pure fun ⟨_, _, h, _⟩ => not_passes_nil h
  | cons right bits ih =>
    rw [walk, (straight_readRecord ptr right).emits_bind_iff]
    constructor
    · rintro (h | h)
      · exact ⟨ptr, right, passes_cons.mpr (.inl ⟨rfl, rfl⟩), h⟩
      · split_ifs at h with heq hgt
        · exact absurd h not_emits_pure
        · exact absurd h not_emits_country
        · obtain ⟨node, right', hpasses, hx⟩ := ih.mp h
          exact ⟨node, right', passes_cons.mpr (.inr ⟨lt_of_not heq hgt, hpasses⟩), hx⟩
    · rintro ⟨node, right', hpasses, hx⟩
      rcases passes_cons.mp hpasses with ⟨rfl, rfl⟩ | ⟨hlt, hpasses⟩
      · exact .inl hx
      · refine .inr ?_
        rw [if_neg (UInt32.ne_of_lt hlt), if_neg (UInt32.not_lt.mpr (UInt32.le_of_lt hlt))]
        exact ih.mpr ⟨node, right', hpasses, hx⟩

/-- What is called at the end of the way of an address. -/
theorem calls_walk :
    Calls body (db.walk env countries bits ptr) s ↔
      ∃ node right, db.Passes env bits ptr node right ∧
        db.m_nodeCount < db.recordNumber env node right ∧
        (countries.lookup (db.recordNumber env node right)).getD [] = [] ∧
        s = db.recordOffset (db.recordNumber env node right) := by
  induction bits generalizing ptr with
  | nil => exact iff_of_false not_calls_pure fun ⟨_, _, h, _⟩ => not_passes_nil h
  | cons right bits ih =>
    rw [walk, (straight_readRecord ptr right).calls_bind_iff]
    constructor
    · intro h
      split_ifs at h with heq hgt
      · exact absurd h not_calls_pure
      · exact ⟨ptr, right, passes_cons.mpr (.inl ⟨rfl, rfl⟩), hgt, calls_country.mp h⟩
      · obtain ⟨node, right', hpasses, hs⟩ := ih.mp h
        exact ⟨node, right', passes_cons.mpr (.inr ⟨lt_of_not heq hgt, hpasses⟩), hs⟩
    · rintro ⟨node, right', hpasses, hgt, hs⟩
      rcases passes_cons.mp hpasses with ⟨rfl, rfl⟩ | ⟨hlt, hpasses⟩
      · rw [if_neg (UInt32.ne_of_lt hgt).symm, if_pos hgt]
        exact calls_country.mpr hs
      · rw [if_neg (UInt32.ne_of_lt hlt), if_neg (UInt32.not_lt.mpr (UInt32.le_of_lt hlt))]
        exact ih.mpr ⟨node, right', hpasses, hgt, hs⟩

theorem exists_address {path : List Bool} (h : path.length < 128) (right : Bool) :
    ∃ (addr : Address) (rest : List Bool), List.ofFn addr = path ++ right :: rest := by
  let bits := path ++ right :: List.replicate (127 - path.length) false
  have hlength : bits.length = 128 := by
    simp only [bits, length_append, length_cons, length_replicate]
    omega
  refine ⟨fun i => bits.get (i.cast hlength.symm), List.replicate (127 - path.length) false, ?_⟩
  apply ext_getElem
  · rw [length_ofFn]
    exact hlength.symm
  · intro i hi hi'
    rw [List.getElem_ofFn]
    rfl

theorem isNode_of_passes {addr : Address} {right : Bool}
    (h : db.Passes env (List.ofFn addr) 0 node right) : db.IsNode env node := by
  obtain ⟨path, rest, hbits, hnode⟩ := h
  refine ⟨path, ?_, hnode⟩
  have hlength := congrArg List.length hbits
  rw [length_ofFn, length_append, length_cons] at hlength
  omega

theorem isNode_iff :
    db.IsNode env node ↔
      ∀ right, ∃ addr : Address, db.Passes env (List.ofFn addr) 0 node right := by
  constructor
  · rintro ⟨path, hlength, hnode⟩ right
    obtain ⟨addr, rest, hbits⟩ := exists_address hlength right
    exact ⟨addr, path, rest, hbits, hnode⟩
  · intro h
    obtain ⟨addr, hpasses⟩ := h true
    exact isNode_of_passes hpasses

/-- What the lookups read of the tree: the records of its nodes. -/
theorem emits_lookups {addrs : List Address}
    (h : Emits body (db.lookups env countries addrs) x) :
    ∃ node right, db.IsNode env node ∧
      x ∈ positions (db.recordStart node right) db.m_recordBytes := by
  induction addrs generalizing countries with
  | nil => exact absurd h not_emits_pure
  | cons addr addrs ih =>
    rw [lookups, emits_bind] at h
    rcases h with h | ⟨⟨found, countries'⟩, -, h⟩
    · obtain ⟨node, right, hpasses, hx⟩ := emits_walk.mp h
      exact ⟨node, right, isNode_of_passes hpasses, hx⟩
    · dsimp only at h
      rw [emits_bind] at h
      rcases h with h | ⟨_, -, h⟩
      · exact ih h
      · exact absurd h not_emits_pure

/-- What the lookups call: the records of data. -/
theorem calls_lookups {addrs : List Address} (h : Calls body (db.lookups env countries addrs) s) :
    ∃ id, db.IsRecord env id ∧ s = db.recordOffset id := by
  induction addrs generalizing countries with
  | nil => exact absurd h not_calls_pure
  | cons addr addrs ih =>
    rw [lookups, calls_bind] at h
    rcases h with h | ⟨⟨found, countries'⟩, -, h⟩
    · obtain ⟨node, right, hpasses, hgt, -, hs⟩ := calls_walk.mp h
      exact ⟨_, ⟨node, right, isNode_of_passes hpasses, rfl, hgt⟩, hs⟩
    · dsimp only at h
      rw [calls_bind] at h
      rcases h with h | ⟨_, -, h⟩
      · exact ih h
      · exact absurd h not_calls_pure

variable (body) in
theorem exists_emits_lookups (h : db.IsNode env node) (right : Bool)
    (hx : x ∈ positions (db.recordStart node right) db.m_recordBytes) :
    ∃ addr, Emits body (db.lookups env [] [addr]) x := by
  obtain ⟨addr, hpasses⟩ := isNode_iff.mp h right
  refine ⟨addr, ?_⟩
  rw [lookups, emits_bind]
  exact .inl (emits_walk.mpr ⟨node, right, hpasses, hx⟩)

variable (body) in
theorem exists_calls_lookups (h : db.IsRecord env id) :
    ∃ addr, Calls body (db.lookups env [] [addr]) (db.recordOffset id) := by
  obtain ⟨node, right, hnode, rfl, hgt⟩ := h
  obtain ⟨addr, hpasses⟩ := isNode_iff.mp hnode right
  refine ⟨addr, ?_⟩
  rw [lookups, calls_bind]
  exact .inl (calls_walk.mpr ⟨node, right, hpasses, hgt, rfl, rfl⟩)

end Tree

/-! ### Loading -/

/-- What the metadata of a supported database says of its tree. -/
structure Supported (db : GeoIPDatabase) : Prop where
  recordSize : db.m_recordSize = 24
  nodeSize : db.m_nodeSize = 6
  recordBytes : db.m_recordBytes = 3
  indexSize : db.m_indexSize = db.m_nodeCount * 6

theorem parseMetadata_spec {metadata : QVariantHash} {db' : GeoIPDatabase}
    (h : db.parseMetadata metadata = .ok db') : db'.m_data = db.m_data ∧ db'.Supported := by
  unfold parseMetadata at h
  obtain ⟨versionMajor, -, h⟩ := bind_eq_ok.mp h
  obtain ⟨versionMinor, -, h⟩ := bind_eq_ok.mp h
  obtain ⟨-, -, h⟩ := bind_eq_ok.mp h
  obtain ⟨ipVersion, -, h⟩ := bind_eq_ok.mp h
  obtain ⟨-, -, h⟩ := bind_eq_ok.mp h
  obtain ⟨recordSize, -, h⟩ := bind_eq_ok.mp h
  obtain ⟨⟨⟩, hsize, h⟩ := bind_eq_ok.mp h
  extract_lets nodeSize at h
  have hnode : nodeSize = recordSize / 4 := rfl
  obtain ⟨nodeCount, -, h⟩ := bind_eq_ok.mp h
  obtain ⟨dbType, -, h⟩ := bind_eq_ok.mp h
  obtain ⟨buildEpoch, -, h⟩ := bind_eq_ok.mp h
  obtain ⟨-, -, h⟩ := bind_eq_ok.mp h
  obtain ⟨-, -, h⟩ := bind_eq_ok.mp h
  have hrecord : recordSize = 24 := by
    unfold check at hsize
    split_ifs at hsize with heq
    exact beq_iff_eq.mp heq
  rw [hrecord] at hnode h
  cases h
  rw [hnode]
  exact ⟨rfl, rfl, rfl, rfl, rfl⟩

/-- Why the data section is looked for in the data only: the size of the tree does not wrap around
to a number just below zero. -/
def IndexFits (db : GeoIPDatabase) : Prop :=
  ¬ (asInt db.m_indexSize < 0 ∧ 0 ≤ asInt db.m_indexSize + 16 ∧
    asInt db.m_indexSize + 16 ≤ db.m_data.length)

/-- The tree is as long as the database says, and the data section is behind it. -/
theorem loadDB_index (hsize : db.m_data.length ≤ MAX_FILE_SIZE)
    (hguard : ¬ db.m_size.toNat < asSize (asInt db.m_indexSize + SEPARATOR_SIZE)) :
    (db.IndexFits ↔ 0 ≤ asInt db.m_indexSize) ∧
      asInt db.m_indexSize + 16 ≤ db.m_data.length := by
  have hlow : -2 ^ 31 ≤ asInt db.m_indexSize ∧ asInt db.m_indexSize < 2 ^ 31 := by
    have := db.m_indexSize.toNat_lt
    unfold asInt
    split_ifs <;> omega
  rw [toNat_m_size hsize, asSize, SEPARATOR_SIZE] at hguard
  rw [MAX_FILE_SIZE] at hsize
  unfold IndexFits
  constructor
  · constructor
    · intro h
      by_contra hneg
      refine h ⟨by omega, ?_, ?_⟩
      · omega
      · omega
    · omega
  · omega

section Load

variable {body : UInt32 → Reader (QVariant × UInt32)} {data : List UInt8} {s : UInt32} {x : ℤ}
  {db : GeoIPDatabase}

/-- The database before its metadata are read. -/
def fresh (data : List UInt8) : GeoIPDatabase := { m_data := data }

/-- Whether the data are long enough for the tree and the separator, as the code computes it. -/
def LongEnough (db : GeoIPDatabase) : Prop :=
  ¬ db.m_size.toNat < asSize (asInt db.m_indexSize + SEPARATOR_SIZE)

theorem Supported.index (h : db.Supported) :
    db.m_nodeCount * (db.m_recordSize / 4) = db.m_indexSize := by
  rw [h.recordSize, h.indexSize]
  rfl

theorem emits_loadDB (h : db.Supported) :
    Emits body (db.loadDB env) x ↔
      db.LongEnough ∧ x ∈ positions (asInt db.m_indexSize) SEPARATOR_SIZE := by
  unfold loadDB LongEnough
  rw [h.index]
  extract_lets indexSize
  split_ifs with hguard
  · exact iff_of_false not_emits_pure fun h => h.1 hguard
  · rw [(straight_bytesFrom env db _ _).emits_bind_iff, and_iff_right hguard]
    refine or_iff_left fun h => ?_
    split_ifs at h
    · exact not_emits_pure h
    · exact not_emits_pure h

theorem not_calls_loadDB : ¬ Calls body (db.loadDB env) s := by
  unfold loadDB
  extract_lets indexSize
  split_ifs with hguard
  · exact not_calls_pure
  · rw [(straight_bytesFrom env db _ _).calls_bind_iff]
    split_ifs
    · exact not_calls_pure
    · exact not_calls_pure

theorem longEnough_of_runs (h : db.Supported) (hruns : Runs body (db.loadDB env) (.ok ())) :
    db.LongEnough := by
  unfold loadDB at hruns
  rw [h.index] at hruns
  extract_lets indexSize at hruns
  split_ifs at hruns with hguard
  · cases runs_pure.mp hruns
  · exact hguard

theorem not_emits_readMetadata (found : Option UInt32) : ¬ Emits body (readMetadataAt found) x := by
  cases found with
  | none => exact not_emits_pure
  | some offset =>
    rw [readMetadataAt, emits_bind]
    rintro (h | ⟨_, -, h⟩)
    · exact emits_readField h
    · exact not_emits_pure h

theorem calls_readMetadata {found : Option UInt32} :
    Calls body (readMetadataAt found) s ↔ found = some s := by
  cases found with
  | none => exact iff_of_false not_calls_pure nofun
  | some offset =>
    rw [readMetadataAt, calls_bind, calls_readField, Option.some.injEq, or_iff_left, eq_comm]
    rintro ⟨_, -, h⟩
    exact not_calls_pure h

/-- The metadata of the data are read, and are those of a supported database. -/
def Parses (env : Surroundings) (data : List UInt8) (db : GeoIPDatabase) : Prop :=
  ∃ metadata, Runs ((fresh data).readDataField env) (fresh data).readMetadata metadata ∧
    (fresh data).parseMetadata metadata = .ok db

theorem Parses.supported (h : Parses env data db) : db.Supported := by
  obtain ⟨metadata, -, hparse⟩ := h
  exact (parseMetadata_spec hparse).2

theorem Parses.m_data (h : Parses env data db) : db.m_data = data := by
  obtain ⟨metadata, -, hparse⟩ := h
  exact (parseMetadata_spec hparse).1

theorem load_eq : load env data =
    if MAX_FILE_SIZE < data.length then pure (.error "Unsupported database file size.")
    else do
      let metadata ← (fresh data).readMetadata
      match (fresh data).parseMetadata metadata with
      | .error error => return .error error
      | .ok db =>
        match ← db.loadDB env with
        | .error error => return .error error
        | .ok () => return .ok db := rfl

theorem emits_load :
    Emits ((fresh data).readDataField env) (load env data) x ↔
      data.length ≤ MAX_FILE_SIZE ∧ ∃ db, Parses env data db ∧
        db.LongEnough ∧ x ∈ positions (asInt db.m_indexSize) SEPARATOR_SIZE := by
  rw [load_eq]
  split_ifs with hsize
  · exact iff_of_false not_emits_pure fun h => absurd h.1 (not_le.mpr hsize)
  · rw [and_iff_right (not_lt.mp hsize), emits_bind, readMetadata,
      or_iff_right (not_emits_readMetadata _)]
    constructor
    · rintro ⟨metadata, hruns, h⟩
      split at h
      · exact absurd h not_emits_pure
      · next db hparse =>
        have hparses : Parses env data db := ⟨metadata, hruns, hparse⟩
        rw [emits_bind] at h
        rcases h with h | ⟨result, -, h⟩
        · exact ⟨db, hparses, (emits_loadDB hparses.supported).mp h⟩
        · split at h
          · exact absurd h not_emits_pure
          · exact absurd h not_emits_pure
    · rintro ⟨db, hparses, h⟩
      obtain ⟨metadata, hruns, hparse⟩ := hparses
      refine ⟨metadata, hruns, ?_⟩
      rw [hparse]
      dsimp only
      rw [emits_bind]
      exact .inl ((emits_loadDB (parseMetadata_spec hparse).2).mpr h)

theorem calls_load :
    Calls ((fresh data).readDataField env) (load env data) s ↔
      data.length ≤ MAX_FILE_SIZE ∧ (fresh data).metadataOffset = some s := by
  rw [load_eq]
  split_ifs with hsize
  · exact iff_of_false not_calls_pure fun h => absurd h.1 (not_le.mpr hsize)
  · rw [and_iff_right (not_lt.mp hsize), calls_bind, readMetadata, calls_readMetadata]
    refine or_iff_left fun ⟨metadata, _, h⟩ => ?_
    split at h
    · exact not_calls_pure h
    · rw [calls_bind] at h
      rcases h with h | ⟨result, -, h⟩
      · exact not_calls_loadDB h
      · split at h
        · exact not_calls_pure h
        · exact not_calls_pure h

def Loads (env : Surroundings) (data : List UInt8) (db : GeoIPDatabase) : Prop :=
  ∃ n, ((load env data).runWith (eval ((fresh data).readDataField env) n)).2 = some (.ok db)

theorem Loads.spec (h : Loads env data db) :
    data.length ≤ MAX_FILE_SIZE ∧ Parses env data db ∧ db.LongEnough := by
  have hruns := exists_runWith_iff.mp h
  rw [load_eq] at hruns
  split_ifs at hruns with hsize
  · cases runs_pure.mp hruns
  · obtain ⟨metadata, hmetadata, hruns⟩ := runs_bind.mp hruns
    split at hruns
    · cases runs_pure.mp hruns
    · next db' hparse =>
      obtain ⟨result, hresult, hruns⟩ := runs_bind.mp hruns
      split at hruns
      · cases runs_pure.mp hruns
      · cases runs_pure.mp hruns
        have hparses : Parses env data db := ⟨metadata, hmetadata, hparse⟩
        exact ⟨not_lt.mp hsize, hparses, longEnough_of_runs hparses.supported hresult⟩

end Load

/-! ### Termination -/

instance : Finite UInt32 := Finite.of_injective UInt32.toFin fun _ _ h => UInt32.toFin_inj.mp h

/-- A field that is read, as a key, a value or an item, for another one. -/
def Reached (env : Surroundings) (db : GeoIPDatabase) : UInt32 → UInt32 → Prop :=
  Relation.ReflTransGen (Visits (db.readDataField env))

/-- A field that is reached from an offset contains itself. -/
def Cyclic (env : Surroundings) (db : GeoIPDatabase) (start : UInt32) : Prop :=
  ∃ q, db.Reached env start q ∧ Relation.TransGen (Visits (db.readDataField env)) q q

/-- Loading the data ends, and so does every sequence of lookups in what was loaded. -/
def Terminates (env : Surroundings) (data : List UInt8) : Prop :=
  Finishes ((fresh data).readDataField env) (load env data) ∧
    ∀ db, Loads env data db → ∀ addrs, Finishes (db.readDataField env) (db.lookups env [] addrs)

/-- No field contains itself, of those that are reached from the metadata and from the records of
data that addresses lead to. -/
structure Acyclic (env : Surroundings) (data : List UInt8) : Prop where
  metadata : data.length ≤ MAX_FILE_SIZE → ∀ start, (fresh data).metadataOffset = some start →
    ¬ (fresh data).Cyclic env start
  records : ∀ db, Loads env data db → ∀ id, db.IsRecord env id →
    ¬ db.Cyclic env (db.recordOffset id)

section Sample

/-- Memory with nothing in it, and texts of ASCII characters. -/
def emptySurroundings : Surroundings where
  memory _ := 0
  fromUtf8 bytes := bytes.map fun b => Char.ofNat b.toNat
  convert _ := []

/-- Metadata that are a map with one entry, the value of which is a pointer to the map. -/
def cyclicFile : List UInt8 := [0, 0] ++ METADATA_BEGIN_MARK ++ [0xE1, 0x41, 97, 0x20, 0x00]

end Sample

/-! ### Positions -/

/-- What is read for loading the data and for lookups in what was loaded is in the data. -/
def Inside (env : Surroundings) (data : List UInt8) : Prop :=
  (∀ x, (∃ n, x ∈ ((load env data).runWith (eval ((fresh data).readDataField env) n)).1) →
    (fresh data).InData x) ∧
  ∀ db, Loads env data db → ∀ addrs x,
    (∃ n, x ∈ ((db.lookups env [] addrs).runWith (eval (db.readDataField env) n)).1) →
      db.InData x

/-- Everything that is reached fits: the fields that are reached from the metadata and from the
records of data that addresses lead to, the tree before the data section, and, if the size of the
tree wraps around, each node that an address leads to. -/
structure Fits (env : Surroundings) (data : List UInt8) : Prop where
  metadata : data.length ≤ MAX_FILE_SIZE → ∀ start, (fresh data).metadataOffset = some start →
    ∀ q, (fresh data).Reached env start q → (fresh data).FieldFits env q
  index : data.length ≤ MAX_FILE_SIZE → ∀ db, Parses env data db → db.IndexFits
  nodes : ∀ db, Loads env data db → 2 ^ 32 ≤ 6 * db.m_nodeCount.toNat → ∀ node,
    db.IsNode env node → node + 6 ≤ data.length
  records : ∀ db, Loads env data db → ∀ id, db.IsRecord env id →
    ∀ q, db.Reached env (db.recordOffset id) q → db.FieldFits env q

/-- The nodes of a tree whose size does not wrap around are before the data section. -/
theorem node_le {data : List UInt8} (hloads : Loads env data db) (hfits : db.IndexFits)
    (hsmall : 6 * db.m_nodeCount.toNat < 2 ^ 32) (h : db.IsNode env node) :
    node + 6 ≤ data.length := by
  obtain ⟨hsize, hparses, hlong⟩ := hloads.spec
  obtain ⟨hrecord, hnodeSize, hbytes, hindex⟩ := hparses.supported
  have hdata := hparses.m_data
  rw [← hdata] at hsize ⊢
  obtain ⟨hpos, hend⟩ := loadDB_index hsize hlong
  have hnonneg := hpos.mp hfits
  have htree : 6 * db.m_nodeCount.toNat + 16 ≤ db.m_data.length := by
    have hmul : db.m_indexSize.toNat = 6 * db.m_nodeCount.toNat := by
      rw [hindex, UInt32.toNat_mul]
      show db.m_nodeCount.toNat * 6 % 2 ^ 32 = _
      omega
    rw [asInt, hmul] at hnonneg hend
    split_ifs at hnonneg hend <;> omega
  obtain ⟨path, -, hpath⟩ := h
  have hroot : 0 + 6 ≤ db.m_data.length := by omega
  generalize 0 = ptr at hpath hroot
  -- A child is in front of the data section, since its number is smaller than that of the nodes.
  induction path generalizing ptr with
  | nil =>
    cases hpath
    exact hroot
  | cons right path ih =>
    rw [nodeAt] at hpath
    split_ifs at hpath with hlt
    refine ih _ hpath ?_
    rw [UInt32.lt_iff_toNat_lt] at hlt
    rw [hnodeSize, UInt32.toNat_mul]
    show (db.recordNumber env ptr right).toNat * 6 % 2 ^ 32 + 6 ≤ _
    omega

theorem mem_recordStart (hbytes : db.m_recordBytes = 3) {x : ℤ} :
    (∃ right, x ∈ positions (db.recordStart node right) db.m_recordBytes) ↔
      node ≤ x ∧ x < node + 6 := by
  constructor
  · rintro ⟨right, hx⟩
    rw [mem_positions, hbytes] at hx
    cases right with
    | false =>
      have hstart : db.recordStart node false = node := if_neg Bool.false_ne_true
      rw [hstart] at hx
      exact ⟨by omega, by omega⟩
    | true =>
      have hstart : db.recordStart node true = node + 3 := by rw [recordStart, if_pos rfl, hbytes]
      rw [hstart] at hx
      exact ⟨by omega, by omega⟩
  · rintro ⟨hlow, hhigh⟩
    by_cases hfirst : x < node + 3
    · refine ⟨false, mem_positions.mpr ?_⟩
      have hstart : db.recordStart node false = node := if_neg Bool.false_ne_true
      rw [hstart, hbytes]
      exact ⟨hlow, hfirst⟩
    · refine ⟨true, mem_positions.mpr ?_⟩
      have hstart : db.recordStart node true = node + 3 := by rw [recordStart, if_pos rfl, hbytes]
      rw [hstart, hbytes]
      exact ⟨by omega, by omega⟩

theorem inside_iff (env : Surroundings) (data : List UInt8) : Inside env data ↔ Fits env data := by
  unfold Inside
  simp only [mem_notes_iff]
  constructor
  · rintro ⟨hload, hlookups⟩
    refine ⟨fun hsize start hstart q hq => ?_, fun hsize db hdb => ?_, fun db hdb _ node hnode => ?_,
      fun db hdb id hid q hq => ?_⟩
    · refine (field_inside hsize ((fresh data).readDataField env)).mp fun x hx => ?_
      exact hload x (.inr ⟨start, calls_load.mpr ⟨hsize, hstart⟩, q, hq, hx⟩)
    · by_contra hwraps
      rw [IndexFits, not_not] at hwraps
      have hlong : db.LongEnough := by
        unfold LongEnough
        rw [toNat_m_size (hdb.m_data.symm ▸ hsize), asSize, SEPARATOR_SIZE]
        omega
      have hx := hload (asInt db.m_indexSize) (.inl (emits_load.mpr ⟨hsize, db, hdb, hlong,
        mem_positions.mpr ⟨le_rfl, by rw [SEPARATOR_SIZE]; omega⟩⟩))
      have := hx.1
      omega
    · have hlast : ∃ right, ((node + 5 : ℕ) : ℤ) ∈
          positions (db.recordStart node right) db.m_recordBytes :=
        (mem_recordStart hdb.spec.2.1.supported.recordBytes).mpr ⟨by omega, by omega⟩
      obtain ⟨right, hright⟩ := hlast
      obtain ⟨addr, hemits⟩ :=
        exists_emits_lookups (db.readDataField env) hnode right hright
      have hx := (hlookups db hdb [addr] _ (.inl hemits)).2
      rw [hdb.spec.2.1.m_data] at hx
      omega
    · have hsize : db.m_data.length ≤ MAX_FILE_SIZE := by
        rw [hdb.spec.2.1.m_data]
        exact hdb.spec.1
      obtain ⟨addr, hcalls⟩ := exists_calls_lookups (db.readDataField env) hid
      exact (field_inside hsize (db.readDataField env)).mp fun x hx =>
        hlookups db hdb [addr] x (.inr ⟨_, hcalls, q, hq, hx⟩)
  · rintro ⟨hmetadata, hindex, hnodes, hrecords⟩
    refine ⟨?_, fun db hdb addrs => ?_⟩
    · rintro x (hx | ⟨s, hs, q, hq, hx⟩)
      · obtain ⟨hsize, db, hparses, hlong, hx⟩ := emits_load.mp hx
        have hdata := hparses.m_data
        obtain ⟨hpos, hend⟩ := loadDB_index (hdata.symm ▸ hsize) hlong
        have hnonneg := hpos.mp (hindex hsize db hparses)
        rw [mem_positions, SEPARATOR_SIZE] at hx
        rw [hdata] at hend
        exact ⟨by omega, show x < data.length by omega⟩
      · obtain ⟨hsize, hstart⟩ := calls_load.mp hs
        exact (field_inside hsize _).mpr (hmetadata hsize s hstart q hq) x hx
    · obtain ⟨hsize, hparses, hlong⟩ := hdb.spec
      have hdata := hparses.m_data
      rintro x (hx | ⟨s, hs, q, hq, hx⟩)
      · obtain ⟨node, right, hnode, hx⟩ := emits_lookups hx
        obtain ⟨hlow, hhigh⟩ := (mem_recordStart hparses.supported.recordBytes).mp ⟨right, hx⟩
        have hnode6 : node + 6 ≤ data.length := by
          by_cases hsmall : 6 * db.m_nodeCount.toNat < 2 ^ 32
          · exact node_le hdb (hindex hsize db hparses) hsmall hnode
          · exact hnodes db hdb (not_lt.mp hsmall) node hnode
        refine ⟨by omega, ?_⟩
        rw [hdata]
        omega
      · obtain ⟨id, hid, rfl⟩ := calls_lookups hs
        exact (field_inside (hdata.symm ▸ hsize) _).mpr (hrecords db hdb id hid q hq) x hx

section Sample

/-- Metadata that begin with a text of 28 characters, at the end of the file. -/
def longTextFile : List UInt8 := METADATA_BEGIN_MARK ++ [0x5C]

theorem long_text_outside :
    ¬ ∀ (env : Surroundings) (data : List UInt8), data.length ≤ MAX_FILE_SIZE →
      Inside env data := by
  intro h
  have hx := (h emptySurroundings longTextFile (by decide)).1 15 ⟨1, by decide +kernel⟩
  exact absurd hx.2 (by decide)

end Sample

end GeoIPDatabase

end Qbutt.GeoIP
