import Qbutt.Algorithm.PerfectTree
import Qbutt.Merkle.AnalyzeV2

/-!
# Correctness of the Merkle accumulator

After appending the hashes of `L`, level `ℓ` holds the root of the complete block of `2^ℓ` leaves
that bit `ℓ` of the count stands for (`Holds`, kept by `append`: `Holds.append`), and `root`
returns the root of the perfect tree over `L` padded on the right, of the least height that
has room for `L` and for `minimumLeaves` (`root_accumulate`).
-/

namespace Qbutt.Merkle.MerkleAccumulator

variable {D : Type*} (h : D → D → D)
  {L : List D} {m : MerkleAccumulator D} {m' : MerkleAccumulator D}

/-! ### Bits of a counter -/

/-- The block that bit `ℓ` of the count `n` stands for ends at or before `n`. -/
theorem block_le {n ℓ : ℕ} (hb : n.testBit ℓ = true) :
    n / 2 ^ (ℓ + 1) * 2 ^ (ℓ + 1) + 2 ^ ℓ ≤ n := by
  have hodd : n / 2 ^ ℓ % 2 = 1 := by simpa [Nat.testBit_eq_decide_div_mod_eq] using hb
  have hq : n / 2 ^ (ℓ + 1) = n / 2 ^ ℓ / 2 := by rw [pow_succ, Nat.div_div_eq_div_mul]
  have hsplit : n / 2 ^ (ℓ + 1) * 2 ^ (ℓ + 1) + 2 ^ ℓ = n / 2 ^ ℓ * 2 ^ ℓ := by
    rw [hq, pow_succ, ← Nat.mul_assoc, Nat.mul_right_comm, ← Nat.succ_mul]
    congr 1
    omega
  rw [hsplit]
  exact Nat.div_mul_le_self n (2 ^ ℓ)

/-- Where the block of level `ℓ + 1` begins, as a multiple of `2^ℓ`. -/
theorem block_start (n ℓ : ℕ) : n / 2 ^ ℓ * 2 ^ ℓ =
    n / 2 ^ (ℓ + 1) * 2 ^ (ℓ + 1) + if n.testBit ℓ then 2 ^ ℓ else 0 := by
  have hq : n / 2 ^ (ℓ + 1) = n / 2 ^ ℓ / 2 := by rw [pow_succ, Nat.div_div_eq_div_mul]
  rw [Nat.testBit_eq_decide_div_mod_eq, hq, pow_succ]
  have hdm := Nat.div_add_mod (n / 2 ^ ℓ) 2
  set q := n / 2 ^ ℓ
  rcases Nat.mod_two_eq_zero_or_one q with hr | hr
  · rw [hr, Nat.add_zero] at hdm
    simp only [hr, zero_ne_one, decide_false, Bool.false_eq_true, ite_false, Nat.add_zero]
    conv_lhs => rw [← hdm]
    rw [Nat.mul_comm 2 (q / 2), Nat.mul_assoc, Nat.mul_comm 2 (2 ^ ℓ)]
  · rw [hr] at hdm
    simp only [hr, decide_true, ite_true]
    conv_lhs => rw [← hdm]
    rw [Nat.add_mul, Nat.mul_comm 2 (q / 2), Nat.mul_assoc, Nat.mul_comm 2 (2 ^ ℓ), Nat.one_mul]

/-! ### The invariant -/

/-- The accumulator holds the list `L`: it counts its leaves, and each level whose bit is set in
the count holds the root of its block. -/
structure Holds (L : List D) (m : MerkleAccumulator D) : Prop where
  leafCount_eq : m.leafCount = L.length
  levels_eq : ∀ ℓ pad, L.length.testBit ℓ = true →
    m.levels ℓ = perfect h ℓ fun i => padded L pad (L.length / 2 ^ (ℓ + 1) * 2 ^ (ℓ + 1) + i)

theorem holds_empty (zero : D) : Holds h [] (empty zero) :=
  ⟨rfl, fun ℓ pad hb => by simp at hb⟩

/-- The carry of `append`, started at level `ℓ` with the root of the last `2^ℓ` leaves, stops at
the level `c` of the lowest clear bit with the root of the last `2^c` leaves. -/
theorem carry_spec (hm : Holds h L m) (x pad : D) :
    ∀ (n ℓ : ℕ) (hash : D), n = L.length / 2 ^ ℓ → (∀ k < ℓ, L.length.testBit k = true) →
      hash = perfect h ℓ (fun i => padded (L ++ [x]) pad (L.length / 2 ^ ℓ * 2 ^ ℓ + i)) →
      let c := carry h m.levels n ℓ hash
      L.length.testBit c.1 = false ∧ (∀ k < c.1, L.length.testBit k = true) ∧
      c.2 = perfect h c.1 fun i =>
        padded (L ++ [x]) pad (L.length / 2 ^ c.1 * 2 ^ c.1 + i) := by
  intro n
  induction n using Nat.strong_induction_on with
  | _ n ih =>
  intro ℓ hash hn hones hhash
  have hbit : L.length.testBit ℓ = decide (n % 2 = 1) := by
    rw [Nat.testBit_eq_decide_div_mod_eq, hn]
  rw [carry]
  split_ifs with hodd
  · have hset : L.length.testBit ℓ = true := by simpa [hodd] using hbit
    refine ih (n / 2) (by omega) (ℓ + 1) _ ?_ ?_ ?_
    · rw [hn, pow_succ, Nat.div_div_eq_div_mul]
    · intro k hk
      rcases Nat.lt_succ_iff_lt_or_eq.mp hk with hk | rfl
      · exact hones k hk
      · exact hset
    · rw [perfect_succ, hm.levels_eq ℓ pad hset, hhash, block_start L.length ℓ, if_pos hset]
      congr 1
      · refine perfect_congr h ℓ _ _ fun i hi => ?_
        rw [padded_append_of_lt]
        have := block_le hset
        omega
      · simp only [Nat.add_assoc]
  · exact ⟨by simpa [hodd] using hbit, hones, hhash⟩

/-- Below the lowest clear bit of a count, adding one clears the bits; above, it keeps them. -/
theorem testBit_succ {n c : ℕ} (hclear : n.testBit c = false) (hones : ∀ k < c, n.testBit k = true)
    (ℓ : ℕ) : (n + 1).testBit ℓ = if ℓ < c then false else if ℓ = c then true else n.testBit ℓ := by
  have hlow : n % 2 ^ c = 2 ^ c - 1 := by
    refine Nat.eq_of_testBit_eq fun i => ?_
    rw [Nat.testBit_mod_two_pow, Nat.testBit_two_pow_sub_one]
    by_cases hi : i < c
    · simp [hi, hones i hi]
    · simp [hi]
  have heven : n / 2 ^ c % 2 = 0 := by
    simpa [Nat.testBit_eq_decide_div_mod_eq] using hclear
  have hpos : 0 < 2 ^ c := Nat.two_pow_pos c
  have hdm := Nat.div_add_mod n (2 ^ c)
  have hsucc : n + 1 = 2 ^ c * (n / 2 ^ c + 1) + 0 := by
    rw [Nat.mul_add, Nat.mul_one]
    omega
  rw [hsucc, Nat.testBit_two_pow_mul_add _ hpos]
  conv_rhs => rw [← hdm, Nat.testBit_two_pow_mul_add _ (Nat.mod_lt n hpos)]
  by_cases hlt : ℓ < c
  · simp [hlt]
  · simp only [hlt, ite_false]
    by_cases heq : ℓ = c
    · subst heq
      simp only [Nat.sub_self, Nat.testBit_zero, ite_true, decide_eq_true_eq]
      omega
    · obtain ⟨d, hd⟩ : ∃ d, ℓ - c = d + 1 := ⟨ℓ - c - 1, by omega⟩
      rw [if_neg heq, hd, Nat.testBit_add_one, Nat.testBit_add_one]
      congr 1
      omega

/-- `append` keeps the invariant. -/
theorem Holds.append (hm : Holds h L m) (x : D) : Holds h (L ++ [x]) (m.append h x) := by
  refine ⟨by simp [MerkleAccumulator.append, hm.leafCount_eq], fun ℓ pad hb => ?_⟩
  obtain ⟨hclear, hones, hc⟩ := carry_spec h hm x pad L.length 0 x (by simp) (by simp)
    (by simp [padded_append_length])
  rw [List.length_append, List.length_singleton] at hb ⊢
  rw [testBit_succ hclear hones] at hb
  simp only [MerkleAccumulator.append, hm.leafCount_eq]
  set c := carry h m.levels L.length 0 x
  -- The quotient by `2^(ℓ+1)` does not see the added leaf, since bit `ℓ` is the lowest set bit
  -- of the new count or lies above it.
  have hstart : (L.length + 1) / 2 ^ (ℓ + 1) = L.length / 2 ^ (ℓ + 1) := by
    refine Nat.eq_of_testBit_eq fun i => ?_
    rw [Nat.testBit_div_two_pow, Nat.testBit_div_two_pow, testBit_succ hclear hones]
    have hle : c.1 ≤ ℓ := by
      by_contra hlt
      simp [not_le.mp hlt] at hb
    simp [show ¬ i + (ℓ + 1) < c.1 by omega, show i + (ℓ + 1) ≠ c.1 by omega]
  rw [hstart]
  by_cases heq : ℓ = c.1
  · subst heq
    rw [Function.update_self, hc, block_start L.length c.1, hclear]
    simp
  · have hgt : ¬ ℓ < c.1 := by
      intro hlt
      simp [hlt] at hb
    simp only [hgt, heq, ite_false] at hb
    rw [Function.update_of_ne heq, hm.levels_eq ℓ pad hb]
    refine perfect_congr h ℓ _ _ fun i hi => ?_
    rw [padded_append_of_lt]
    have := block_le hb
    omega

theorem holds_foldl (L₁ : List D) : ∀ (L₂ : List D) (m : MerkleAccumulator D), Holds h L₁ m →
    Holds h (L₁ ++ L₂) (L₂.foldl (MerkleAccumulator.append h) m) := by
  intro L₂
  induction L₂ generalizing L₁ with
  | nil => intro m hm; simpa using hm
  | cons x L₂ ih =>
    intro m hm
    rw [List.append_cons, List.foldl_cons]
    exact ih (L₁ ++ [x]) _ (hm.append h x)

theorem holds_accumulate (zero : D) (L : List D) : Holds h L (accumulate h zero L) := by
  have hfold := holds_foldl h [] L _ (holds_empty h zero)
  rwa [List.nil_append] at hfold

/-! ### The root -/

theorem rootLoop_snd (m : MerkleAccumulator D) (pad : D) :
    ∀ k, (rootLoop h m pad k).2 = perfect h k fun _ => pad := by
  intro k
  induction k with
  | zero => rfl
  | succ k ih => rw [rootLoop, perfect_const_succ, ih]

/-- The running hash is the root of the block of height `k` that begins at the last multiple of
`2^k` not above the count. -/
theorem rootLoop_fst (hm : Holds h L m) (pad : D) :
    ∀ k, (rootLoop h m pad k).1 =
      perfect h k fun i => padded L pad (L.length / 2 ^ k * 2 ^ k + i) := by
  intro k
  induction k with
  | zero => simp [rootLoop, padded_of_le]
  | succ k ih =>
    rw [rootLoop, perfect_succ, hm.leafCount_eq]
    simp only [rootLoop_snd, ih]
    have hstart := block_start L.length k
    by_cases hb : L.length.testBit k = true
    · rw [if_pos hb, hm.levels_eq k pad hb]
      rw [if_pos hb] at hstart
      simp only [hstart, Nat.add_assoc]
    · rw [if_neg hb]
      rw [if_neg hb, Nat.add_zero] at hstart
      simp only [hstart]
      congr 1
      refine perfect_congr h k _ _ fun i hi => (padded_of_le ?_).symm
      have hlt := Nat.lt_div_mul_add (a := L.length) (Nat.two_pow_pos k)
      omega

/-- `root` over an accumulator that holds `L` is the root of the perfect tree over the padded
`L`, of the least height with room for `L` and for `minimumLeaves`. -/
theorem root_of_holds (hm : Holds h L m) (minimumLeaves : ℕ) (pad : D) :
    m.root h minimumLeaves pad =
      perfect h (Nat.clog 2 (max L.length minimumLeaves)) (padded L pad) := by
  have hroom : L.length ≤ 2 ^ Nat.clog 2 (max L.length minimumLeaves) :=
    le_trans (le_max_left _ _) (Nat.le_pow_clog (by norm_num) _)
  simp only [root, bitCeil, Nat.log_pow (b := 2) (by norm_num), hm.leafCount_eq]
  set k := Nat.clog 2 (max L.length minimumLeaves)
  split_ifs with hfull
  · rw [hm.levels_eq k pad (by rw [hfull]; exact Nat.testBit_two_pow_self)]
    have hdiv : L.length / 2 ^ (k + 1) = 0 :=
      Nat.div_eq_of_lt (by rw [hfull]; exact Nat.pow_lt_pow_right (by norm_num) (by omega))
    simp [hdiv]
  · rw [rootLoop_fst h hm]
    have hdiv : L.length / 2 ^ k = 0 := Nat.div_eq_of_lt (by omega)
    simp [hdiv]

theorem root_accumulate (zero : D) (L : List D) (minimumLeaves : ℕ) (pad : D) :
    (accumulate h zero L).root h minimumLeaves pad =
      perfect h (Nat.clog 2 (max L.length minimumLeaves)) (padded L pad) :=
  root_of_holds h (holds_accumulate h zero L) minimumLeaves pad

/-! ### The levels in use -/

/-- With fewer than `2^64` leaves, `append` writes a level below 64. -/
theorem carry_level_lt (levels : ℕ → D) : ∀ (b n ℓ : ℕ) (hash : D), n < 2 ^ b →
    (carry h levels n ℓ hash).1 ≤ ℓ + b := by
  intro b
  induction b with
  | zero =>
    intro n ℓ hash hn
    obtain rfl : n = 0 := by simpa using hn
    rw [carry]
    simp
  | succ b ih =>
    intro n ℓ hash hn
    rw [carry]
    split_ifs with hodd
    · have := ih (n / 2) (ℓ + 1) (h (levels ℓ) hash) (by rw [pow_succ] at hn; omega)
      omega
    · exact Nat.le_add_right ℓ (b + 1)

theorem append_level_lt (hm : Holds h L m) (hlen : L.length < 2 ^ 63) (hash : D) :
    (carry h m.levels m.leafCount 0 hash).1 < 64 := by
  have hle := carry_level_lt h m.levels 63 m.leafCount 0 hash (by rw [hm.leafCount_eq]; exact hlen)
  omega

theorem testBit_of_mem_rootReads {minimumLeaves ℓ : ℕ} (hmem : ℓ ∈ m.rootReads minimumLeaves) :
    m.leafCount.testBit ℓ = true := by
  simp only [rootReads] at hmem
  split_ifs at hmem with hfull
  · rw [List.mem_singleton] at hmem
    have hpow : m.leafCount = 2 ^ ℓ := by
      rw [hmem, bitCeil, Nat.log_pow (b := 2) (by norm_num)]
      exact hfull
    rw [hpow]
    exact Nat.testBit_two_pow_self
  · exact (List.mem_filter.mp hmem).2

theorem rootLoop_congr (hcount : m'.leafCount = m.leafCount) (pad : D) :
    ∀ k, (∀ ℓ < k, m.leafCount.testBit ℓ = true → m'.levels ℓ = m.levels ℓ) →
      rootLoop h m' pad k = rootLoop h m pad k := by
  intro k
  induction k with
  | zero => exact fun _ => rfl
  | succ k ih =>
    intro hlevels
    have hprev := ih fun ℓ hℓ => hlevels ℓ (by omega)
    rw [rootLoop, rootLoop, hprev, hcount]
    by_cases hb : m.leafCount.testBit k = true
    · rw [hlevels k (Nat.lt_succ_self k) hb]
    · simp only [hb, Bool.false_eq_true, if_false]

theorem root_congr_reads (hcount : m'.leafCount = m.leafCount) (minimumLeaves : ℕ) (pad : D)
    (hlevels : ∀ ℓ ∈ m.rootReads minimumLeaves, m'.levels ℓ = m.levels ℓ) :
    m'.root h minimumLeaves pad = m.root h minimumLeaves pad := by
  simp only [root, hcount]
  simp only [rootReads] at hlevels
  by_cases hfull : m.leafCount = bitCeil (max m.leafCount minimumLeaves)
  · rw [if_pos hfull, if_pos hfull]
    rw [if_pos hfull] at hlevels
    exact hlevels _ (List.mem_singleton_self _)
  · rw [if_neg hfull, if_neg hfull]
    rw [if_neg hfull] at hlevels
    have hloop := rootLoop_congr h hcount pad (Nat.log 2 (bitCeil (max m.leafCount minimumLeaves)))
      fun ℓ hℓ hb => hlevels ℓ (List.mem_filter.mpr ⟨List.mem_range.mpr hℓ, hb⟩)
    rw [hloop]

/-- A level whose bit is set holds the root of a complete subtree over appended leaves. -/
theorem Holds.complete (hm : Holds h L m) {ℓ : ℕ} (hb : L.length.testBit ℓ = true) :
    ∃ start, start + 2 ^ ℓ ≤ L.length ∧
      ∀ pad, m.levels ℓ = perfect h ℓ fun i => padded L pad (start + i) :=
  ⟨L.length / 2 ^ (ℓ + 1) * 2 ^ (ℓ + 1), block_le hb, fun pad => hm.levels_eq ℓ pad hb⟩

/-- After appending fewer than `2^63` hashes, `root` is the root of the complete binary tree of
`bitCeil` many leaves, which are the hashes and then the padding; every append writes one of the 64
levels; and `root` reads only levels among these that hold the root of a complete subtree of
appended hashes.  The number of leaves fits 64 bits if `minimumLeaves` is at most `2^63`; above that
`std::bit_ceil` is not defined. -/
theorem root_is_complete_tree (zero : D) (L : List D) (hlen : L.length < 2 ^ 63)
    (minimumLeaves : ℕ) (padding : D) :
    (∃ k, 2 ^ k = bitCeil (max L.length minimumLeaves) ∧
      (accumulate h zero L).root h minimumLeaves padding = perfect h k (padded L padding)) ∧
    (minimumLeaves ≤ 2 ^ 63 → bitCeil (max L.length minimumLeaves) ≤ 2 ^ 63) ∧
    (∀ appended hash rest, L = appended ++ hash :: rest →
      (carry h (accumulate h zero appended).levels (accumulate h zero appended).leafCount 0 hash).1 <
        64) ∧
    (∀ ℓ ∈ (accumulate h zero L).rootReads minimumLeaves, ℓ < 64 ∧
      ∃ start, start + 2 ^ ℓ ≤ L.length ∧
        ∀ pad, (accumulate h zero L).levels ℓ = perfect h ℓ fun i => padded L pad (start + i)) ∧
    ∀ levels : ℕ → D, (∀ ℓ ∈ (accumulate h zero L).rootReads minimumLeaves,
        levels ℓ = (accumulate h zero L).levels ℓ) →
      root h ⟨levels, (accumulate h zero L).leafCount⟩ minimumLeaves padding =
        (accumulate h zero L).root h minimumLeaves padding := by
  have hm := holds_accumulate h zero L
  refine ⟨⟨_, rfl, root_of_holds h hm minimumLeaves padding⟩, fun hmin => ?_, ?_, ?_, ?_⟩
  · have hclog : Nat.clog 2 (max L.length minimumLeaves) ≤ 63 :=
      Nat.clog_le_of_le_pow (max_le hlen.le hmin)
    exact Nat.pow_le_pow_right (by norm_num) hclog
  · rintro appended hash rest rfl
    refine append_level_lt h (holds_accumulate h zero appended) ?_ hash
    rw [List.length_append] at hlen
    omega
  · intro ℓ hmem
    have hb := testBit_of_mem_rootReads hmem
    rw [hm.leafCount_eq] at hb
    obtain ⟨start, hstart, hlevel⟩ := hm.complete h hb
    have hpow : 2 ^ ℓ < 2 ^ 63 := by omega
    have hℓ : ℓ < 63 := (Nat.pow_lt_pow_iff_right (by norm_num)).mp hpow
    exact ⟨by omega, start, hstart, hlevel⟩
  · intro levels hlevels
    exact @root_congr_reads D h (accumulate h zero L) ⟨levels, (accumulate h zero L).leafCount⟩ rfl
      minimumLeaves padding hlevels

/-- Five leaves in a tree with room for seven. -/
theorem root_is_complete_tree_sample :
    (accumulate (fun a b => 2 * a + 3 * b) 0 [1, 2, 3, 4, 5]).root (fun a b => 2 * a + 3 * b) 7 9 =
      perfect (fun a b => 2 * a + 3 * b) 3 (padded [1, 2, 3, 4, 5] 9) := by
  obtain ⟨⟨k, hk, hroot⟩, _⟩ := root_is_complete_tree (fun a b => 2 * a + 3 * b) 0 [1, 2, 3, 4, 5]
    (by simp) 7 9
  have hceil : bitCeil (max [1, 2, 3, 4, 5].length 7) = 2 ^ 3 := by
    rw [bitCeil]
    congr 1
  obtain rfl : k = 3 := Nat.pow_right_injective (by norm_num) (hk.trans hceil)
  exact hroot

/-- Two lists of as many hashes that have one root are equal, or the two trees fork at a node
below it: a root determines the blocks accepted for it, up to a collision that their hashes
exhibit. -/
theorem root_binds_leaves (zero : D) {L L' : List D} (hlength : L.length = L'.length)
    (minimumLeaves : ℕ) (padding : D)
    (hroot : (accumulate h zero L).root h minimumLeaves padding =
      (accumulate h zero L').root h minimumLeaves padding) :
    L = L' ∨ ∃ j < Nat.clog 2 (max L.length minimumLeaves), ∃ s,
      Forks h (padded L padding) (padded L' padding) j s := by
  rw [root_accumulate, root_accumulate, ← hlength] at hroot
  refine (perfect_inj_forks h _ _ _ 0 (by simpa using hroot)).imp_left fun hleaves =>
    List.ext_getElem hlength fun i hi hi' => ?_
  have hroom : L.length ≤ 2 ^ Nat.clog 2 (max L.length minimumLeaves) :=
    le_trans (le_max_left _ _) (Nat.le_pow_clog (by norm_num) _)
  have hleaf := hleaves i (hi.trans_le hroom)
  rwa [Nat.zero_add, padded_of_lt hi, padded_of_lt hi'] at hleaf

/-- Addition does not tell a pair from the swapped one. -/
theorem root_binds_leaves_sample : ([1, 2] : List ℕ) = [2, 1] ∨
    ∃ j < Nat.clog 2 (max 2 2), ∃ s, Forks (· + ·) (padded [1, 2] 0) (padded [2, 1] 0) j s :=
  @root_binds_leaves ℕ (· + ·) 0 [1, 2] [2, 1] rfl 2 0 (by
    rw [root_accumulate, root_accumulate]
    rfl)

end Qbutt.Merkle.MerkleAccumulator
