import Mathlib.Data.Nat.Digits.Lemmas

/-!
# The public key of a paste

`public_key` reads a key of 32 bytes from Base58 digits, multiplying the key in place by 58 for
each digit.  It takes exactly the canonical encodings (`publicKey_canonical`): the number of the key
in base 58, behind one `1` for each leading byte that is zero.
-/

namespace Qbutt.Content.PublicKey

open List

/-! ### The code -/

inductive Failure where
  | invalidResponse (message : String)
  /-- An addition or a product left the 16 bits of the carry. -/
  | overflow
  deriving DecidableEq

def alphabet : List UInt8 :=
  "123456789ABCDEFGHJKLMNPQRSTUVWXYZabcdefghijkmnopqrstuvwxyz".toUTF8.toList

def invalidKey : Failure := .invalidResponse "invalid FitGirl public paste key"

/-- The loop over the bytes, the last one first. -/
def multiply : ℕ → List UInt8 → Option (List UInt8 × ℕ)
  | carry, [] => some ([], carry)
  | carry, byte :: bytes =>
    let carry := carry + byte.toNat * 58
    if 2 ^ 16 ≤ carry then none
    else (multiply (carry / 2 ^ 8) bytes).map fun (bytes, rest) =>
      (UInt8.ofNat carry :: bytes, rest)

def addCharacter (decoded : List UInt8) (character : UInt8) : Except Failure (List UInt8) :=
  match alphabet.idxOf? character with
  | none => .error invalidKey
  | some carry =>
    match multiply carry decoded.reverse with
    | none => .error .overflow
    | some (bytes, carry) => if carry ≠ 0 then .error invalidKey else .ok bytes.reverse

def publicKey (value : List UInt8) : Except Failure (List UInt8) :=
  if value = [] ∨ 44 < value.length then .error invalidKey
  else do
    let decoded ← value.foldlM addCharacter (List.replicate 32 0)
    let leadingZeroes := (decoded.takeWhile (· = 0)).length
    if (value.takeWhile (· = 49)).length ≠ leadingZeroes then .error invalidKey
    else .ok decoded

/-! ### Digits -/

/-- Digits, the highest one first, are zeros and then the digits of their number. -/
theorem eq_replicate_append_digits {b : ℕ} (hb : 1 < b) {digits : List ℕ}
    (hdigits : ∀ d ∈ digits, d < b) :
    digits = List.replicate (digits.takeWhile (· = 0)).length 0 ++
      (Nat.digits b (Nat.ofDigits b digits.reverse)).reverse := by
  induction digits with
  | nil => simp
  | cons d digits ih =>
    rw [forall_mem_cons] at hdigits
    rw [reverse_cons]
    by_cases hd : d = 0
    · subst hd
      rw [Nat.ofDigits_append_zero, takeWhile_cons_of_pos (by simp), length_cons,
        replicate_succ, cons_append, ← ih hdigits.2]
    · rw [takeWhile_cons_of_neg (by simpa using hd), Nat.digits_ofDigits b hb]
      · simp
      · simpa [or_imp, forall_and] using hdigits.symm
      · simpa using hd

def number (bytes : List UInt8) : ℕ := Nat.ofDigits 256 (bytes.reverse.map UInt8.toNat)

theorem toNat_lt_of_mem {bytes : List UInt8} : ∀ digit ∈ bytes.map UInt8.toNat, digit < 256 := by
  intro digit hdigit
  obtain ⟨byte, -, rfl⟩ := mem_map.mp hdigit
  exact byte.toNat_lt

theorem number_lt (bytes : List UInt8) : number bytes < 256 ^ bytes.length := by
  have h := Nat.ofDigits_lt_base_pow_length (b := 256) (l := bytes.reverse.map UInt8.toNat)
    (by norm_num) toNat_lt_of_mem
  rwa [length_map, length_reverse] at h

variable {key : List UInt8}

theorem number_inj {key' : List UInt8} (hlength : key.length = key'.length)
    (h : number key = number key') : key = key' := by
  have h' := Nat.ofDigits_inj_of_len_eq (by norm_num) (by simpa using hlength)
    toNat_lt_of_mem toNat_lt_of_mem h
  exact reverse_injective (map_injective_iff.mpr (fun _ _ => UInt8.toNat_inj.mp) h')

/-- The digit with the given value. -/
def char (d : ℕ) : UInt8 := alphabet.getD d 0

def encode (key : List UInt8) : List UInt8 :=
  List.replicate (key.takeWhile (· = 0)).length 49 ++
    (Nat.digits 58 (number key)).reverse.map char

theorem idxOf?_alphabet {d : ℕ} (hd : d < 58) : alphabet.idxOf? (char d) = some d := by
  have hall : ∀ d < 58, alphabet.idxOf? (char d) = some d := by decide +kernel
  exact hall d hd

theorem idxOf?_eq_some {character : UInt8} {d : ℕ} (h : alphabet.idxOf? character = some d) :
    d < 58 ∧ character = char d := by
  obtain ⟨hlt, rfl, -⟩ := List.idxOf?_eq_some_iff.mp h
  exact ⟨hlt.trans_eq (by decide +kernel), by
    rw [char, getD_eq_getElem?_getD, List.getElem?_eq_getElem hlt, Option.getD_some]⟩

theorem length_takeWhile_map {α β : Type*} [DecidableEq α] [DecidableEq β] {f : α → β} {a : α}
    {b : β} {l : List α} (h : ∀ x ∈ l, f x = b ↔ x = a) :
    ((l.map f).takeWhile (· = b)).length = (l.takeWhile (· = a)).length := by
  induction l with
  | nil => rfl
  | cons x l ih =>
    rw [forall_mem_cons] at h
    by_cases hx : x = a
    · have hfx := h.1.mpr hx
      subst hx
      simp only [map_cons, takeWhile_cons, hfx, decide_true, if_true, length_cons, ih h.2]
    · simp only [map_cons, takeWhile_cons, h.1, hx, decide_false, Bool.false_eq_true,
        if_false, length_nil]

/-! ### One digit -/

/-- The carry stays below 58, so no product leaves the 16 bits. -/
theorem multiply_spec {carry : ℕ} (hcarry : carry < 58) (bytes : List UInt8) :
    ∃ bytes' carry', multiply carry bytes = some (bytes', carry') ∧ bytes'.length = bytes.length ∧
      Nat.ofDigits 256 (bytes'.map UInt8.toNat) + 256 ^ bytes.length * carry' =
        Nat.ofDigits 256 (bytes.map UInt8.toNat) * 58 + carry := by
  induction bytes generalizing carry with
  | nil => exact ⟨[], carry, rfl, rfl, by simp⟩
  | cons byte bytes ih =>
    have hbyte : byte.toNat < 256 := byte.toNat_lt
    have hnext : (carry + byte.toNat * 58) / 2 ^ 8 < 58 := by omega
    obtain ⟨bytes', carry', hmul, hlength, hnumber⟩ := ih hnext
    refine ⟨UInt8.ofNat (carry + byte.toNat * 58) :: bytes', carry', ?_, by simp [hlength], ?_⟩
    · simp only [multiply, hmul, Option.map_some]
      exact if_neg (by omega)
    · have hlow : (UInt8.ofNat (carry + byte.toNat * 58)).toNat =
          (carry + byte.toNat * 58) % 256 := UInt8.toNat_ofNat'
      simp only [map_cons, Nat.ofDigits_cons, length_cons, pow_succ, hlow]
      have hsplit := Nat.div_add_mod (carry + byte.toNat * 58) 256
      norm_num at hnumber
      nlinarith [hnumber, hsplit]

theorem addCharacter_spec (decoded : List UInt8) {d : ℕ} (hd : d < 58) :
    if number decoded * 58 + d < 256 ^ decoded.length then
      ∃ decoded', addCharacter decoded (char d) = .ok decoded' ∧
        decoded'.length = decoded.length ∧ number decoded' = number decoded * 58 + d
    else addCharacter decoded (char d) = .error invalidKey := by
  obtain ⟨bytes, carry, hmul, hlength, hnumber⟩ := multiply_spec hd decoded.reverse
  rw [length_reverse] at hlength hnumber
  have hbytes : number bytes.reverse + 256 ^ decoded.length * carry = number decoded * 58 + d := by
    unfold number
    rwa [reverse_reverse]
  have hfits := number_lt bytes.reverse
  rw [length_reverse, hlength] at hfits
  simp only [addCharacter, idxOf?_alphabet hd, hmul]
  -- a carry is left exactly if the new number does not fit
  by_cases hcarry : carry = 0
  · rw [hcarry, mul_zero, add_zero] at hbytes
    rw [if_pos (hbytes ▸ hfits)]
    exact ⟨bytes.reverse, if_neg (not_not.mpr hcarry), by simpa using hlength, hbytes⟩
  · have hover := Nat.mul_le_mul_left (256 ^ decoded.length) (Nat.one_le_iff_ne_zero.mpr hcarry)
    rw [if_neg (by omega), if_pos hcarry]

/-! ### All digits -/

theorem le_foldl (n : ℕ) (digits : List ℕ) : n ≤ digits.foldl (fun n d => n * 58 + d) n := by
  induction digits generalizing n with
  | nil => exact le_rfl
  | cons d digits ih => exact le_trans (by omega) (ih (n * 58 + d))

theorem foldl_eq_ofDigits (n : ℕ) (digits : List ℕ) :
    digits.foldl (fun n d => n * 58 + d) n =
      n * 58 ^ digits.length + Nat.ofDigits 58 digits.reverse := by
  induction digits generalizing n with
  | nil => simp
  | cons d digits ih =>
    rw [foldl_cons, ih, reverse_cons, Nat.ofDigits_append, Nat.ofDigits_singleton,
      length_reverse, length_cons, pow_succ]
    ring

theorem foldlM_addCharacter (digits : List ℕ) (hdigits : ∀ d ∈ digits, d < 58)
    (decoded : List UInt8) :
    if digits.foldl (fun n d => n * 58 + d) (number decoded) < 256 ^ decoded.length then
      ∃ decoded', (digits.map char).foldlM addCharacter decoded = .ok decoded' ∧
        decoded'.length = decoded.length ∧
        number decoded' = digits.foldl (fun n d => n * 58 + d) (number decoded)
    else (digits.map char).foldlM addCharacter decoded = .error invalidKey := by
  induction digits generalizing decoded with
  | nil =>
    rw [foldl_nil, if_pos (number_lt decoded)]
    exact ⟨decoded, rfl, rfl, rfl⟩
  | cons d digits ih =>
    rw [forall_mem_cons] at hdigits
    have hfirst := addCharacter_spec decoded hdigits.1
    have hle := le_foldl (number decoded * 58 + d) digits
    rw [map_cons, foldlM_cons, foldl_cons]
    split at hfirst
    · obtain ⟨decoded', hok, hlength, hnumber⟩ := hfirst
      rw [hok, ← hnumber, ← hlength]
      exact ih hdigits.2 decoded'
    · rw [hfirst, if_neg (by omega)]
      rfl

theorem digits_or_error (value : List UInt8) :
    (∃ digits : List ℕ, (∀ d ∈ digits, d < 58) ∧ value = digits.map char) ∨
      ∀ decoded, value.foldlM addCharacter decoded = .error invalidKey := by
  induction value with
  | nil => exact .inl ⟨[], by simp, rfl⟩
  | cons character value ih =>
    cases hd : alphabet.idxOf? character with
    | none =>
      refine .inr fun decoded => ?_
      rw [foldlM_cons, addCharacter, hd]
      rfl
    | some d =>
      obtain ⟨hlt, rfl⟩ := idxOf?_eq_some hd
      rcases ih with ⟨digits, hdigits, rfl⟩ | herror
      · exact .inl ⟨d :: digits, by simpa using ⟨hlt, hdigits⟩, rfl⟩
      · refine .inr fun decoded => ?_
        have hfirst := addCharacter_spec decoded hlt
        rw [foldlM_cons]
        split at hfirst
        · obtain ⟨decoded', hok, -⟩ := hfirst
          rw [hok]
          exact herror decoded'
        · rw [hfirst]
          rfl

/-! ### Keys -/

/-- The digits of the encoding, the highest one first. -/
def keyDigits (key : List UInt8) : List ℕ :=
  List.replicate (key.takeWhile (· = 0)).length 0 ++ (Nat.digits 58 (number key)).reverse

theorem keyDigits_lt : ∀ d ∈ keyDigits key, d < 58 := by
  intro d hd
  rcases mem_append.mp hd with hd | hd
  · rw [eq_of_mem_replicate hd]
    norm_num
  · exact Nat.digits_lt_base (by norm_num) (mem_reverse.mp hd)

theorem ofDigits_keyDigits (key : List UInt8) :
    Nat.ofDigits 58 (keyDigits key).reverse = number key := by
  rw [keyDigits, reverse_append, reverse_reverse, reverse_replicate,
    Nat.ofDigits_append_replicate_zero, Nat.ofDigits_digits]

theorem takeWhile_keyDigits (key : List UInt8) :
    ((keyDigits key).takeWhile (· = 0)).length = (key.takeWhile (· = 0)).length := by
  have h := eq_replicate_append_digits (b := 58) (by norm_num) (@keyDigits_lt key)
  rw [ofDigits_keyDigits] at h
  have hlength := congrArg List.length h
  nth_rewrite 1 [keyDigits] at hlength
  simpa using hlength.symm

theorem encode_eq (key : List UInt8) :
    encode key = (keyDigits key).map char := by
  have hzero : char 0 = 49 := by decide +kernel
  rw [encode, keyDigits, map_append, map_replicate, hzero]

/-- The digits of a key are those of its number and the zeros in front, at most 44 together. -/
theorem length_encode (hkey : key.length = 32) : encode key ≠ [] ∧ (encode key).length ≤ 44 := by
  have hdigits := eq_replicate_append_digits (b := 256) (by norm_num) (@toNat_lt_of_mem key)
  have hzeros : ∀ byte ∈ key, byte.toNat = 0 ↔ byte = 0 := fun byte _ => UInt8.toNat_inj (b := 0)
  rw [length_takeWhile_map hzeros, ← map_reverse] at hdigits
  have hlength := congrArg List.length hdigits
  rw [length_map, hkey, length_append, length_replicate, length_reverse]
    at hlength
  change 32 = _ + (Nat.digits 256 (number key)).length at hlength
  have hnumber : number key < 256 ^ (Nat.digits 256 (number key)).length :=
    Nat.lt_base_pow_length_digits (by norm_num)
  have hpow : ∀ z ≤ 32, 256 ^ (32 - z) ≤ 58 ^ (44 - z) := by decide +kernel
  have hfits : (Nat.digits 58 (number key)).length ≤ 44 - (key.takeWhile (· = 0)).length := by
    rw [Nat.digits_length_le_iff (by norm_num)]
    refine hnumber.trans_le (le_trans (le_of_eq ?_) (hpow _ (by omega)))
    rw [hlength, Nat.add_sub_cancel_left]
  rw [encode]
  refine ⟨fun hnil => ?_, by simp; omega⟩
  obtain ⟨hzs, hno⟩ := append_eq_nil_iff.mp hnil
  have hzero : number key = 0 := by simpa [Nat.digits_eq_nil_iff_eq_zero] using hno
  have hzs := congrArg List.length hzs
  rw [length_replicate] at hzs
  rw [hzero, hzs, Nat.digits_zero] at hlength
  cases hlength

theorem number_zeros : number (List.replicate 32 0) = 0 := by decide +kernel

theorem length_ones {digits : List ℕ} (hdigits : ∀ d ∈ digits, d < 58) :
    ((digits.map char).takeWhile (· = 49)).length =
      (digits.takeWhile (· = 0)).length := by
  have hone : ∀ d < 58, char d = 49 ↔ d = 0 := by decide +kernel
  exact length_takeWhile_map fun d hd => hone d (hdigits d hd)

theorem publicKey_cases (value : List UInt8) :
    publicKey value = .error invalidKey ∨ ∃ (digits : List ℕ) (decoded : List UInt8),
      (∀ d ∈ digits, d < 58) ∧ value = digits.map char ∧ decoded.length = 32 ∧
      number decoded = Nat.ofDigits 58 digits.reverse ∧
      (digits.takeWhile (· = 0)).length = (decoded.takeWhile (· = 0)).length ∧
      publicKey value = .ok decoded := by
  unfold publicKey
  by_cases hlength : value = [] ∨ 44 < value.length
  · exact .inl (if_pos hlength)
  rw [if_neg hlength]
  rcases digits_or_error value with ⟨digits, hdigits, rfl⟩ | herror
  · have hfold := foldlM_addCharacter digits hdigits (List.replicate 32 0)
    rw [number_zeros, foldl_eq_ofDigits, zero_mul, zero_add] at hfold
    split at hfold
    · obtain ⟨decoded, hok, hlength, hnumber⟩ := hfold
      rw [hok]
      by_cases hzeros : ((digits.map char).takeWhile (· = 49)).length =
          (decoded.takeWhile (· = 0)).length
      · exact .inr ⟨digits, decoded, hdigits, rfl, by simpa using hlength, hnumber,
          (length_ones hdigits).symm.trans hzeros, if_neg (not_not.mpr hzeros)⟩
      · exact .inl (if_pos hzeros)
    · rw [hfold]
      exact .inl rfl
  · rw [herror]
    exact .inl rfl

theorem publicKey_encode (hkey : key.length = 32) : publicKey (encode key) = .ok key := by
  have hfold := foldlM_addCharacter (keyDigits key) keyDigits_lt (List.replicate 32 0)
  rw [number_zeros, foldl_eq_ofDigits, zero_mul, zero_add, ofDigits_keyDigits,
    length_replicate, if_pos (hkey ▸ number_lt key), ← encode_eq] at hfold
  obtain ⟨decoded, hok, hlength, hnumber⟩ := hfold
  obtain rfl := number_inj (hlength.trans hkey.symm) hnumber
  obtain ⟨hne, hle⟩ := length_encode hkey
  rw [publicKey, if_neg (by simp [hne, hle]), hok]
  refine if_neg (not_not.mpr ?_)
  rw [encode_eq, length_ones keyDigits_lt, takeWhile_keyDigits]

theorem publicKey_iff (value key : List UInt8) :
    publicKey value = .ok key ↔ key.length = 32 ∧ encode key = value := by
  constructor
  · intro h
    rcases publicKey_cases value with herror | ⟨digits, decoded, hdigits, rfl, hlength, hnumber,
      hzeros, hok⟩
    · rw [herror] at h
      cases h
    · rw [hok] at h
      cases h
      refine ⟨hlength, ?_⟩
      rw [encode_eq, keyDigits, hnumber, ← hzeros,
        ← eq_replicate_append_digits (by norm_num) hdigits]
  · rintro ⟨hkey, rfl⟩
    exact publicKey_encode hkey

/-- `public_key` takes the canonical encodings, each key has one, and the carry keeps to its 16
bits. -/
theorem publicKey_canonical :
    (∀ value key, publicKey value = .ok key ↔ key.length = 32 ∧ encode key = value) ∧
    (∀ key : List UInt8, key.length = 32 → ∃! value, publicKey value = .ok key) ∧
    ∀ value, publicKey value ≠ .error .overflow := by
  refine ⟨publicKey_iff, fun key hkey => ?_, fun value h => ?_⟩
  · refine ⟨encode key, publicKey_encode hkey, fun value hvalue => ?_⟩
    exact ((publicKey_iff _ _).mp hvalue).2.symm
  · rcases publicKey_cases value with herror | ⟨_, decoded, _, _, _, _, _, hok⟩
    · rw [herror] at h
      cases h
    · rw [hok] at h
      cases h

end Qbutt.Content.PublicKey
