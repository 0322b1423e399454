import Mathlib.Tactic.IntervalCases
import Qbutt.Resume.Queue

/-!
# The order that the queue file restores

As long as the file names no registered torrent twice, the torrents before `queuePos` are the ones
named so far, and the hash has the position of every other one (`Placed`).  The entry of a torrent that
was placed is not kept up to date.  If the torrent is named again, another one is moved in its place, it
does not come back (`Displaced`), and `queuePos` may leave the list.
-/

namespace Qbutt.Resume

open List

/-- The ids in the lines of the file. -/
def named (data : Bytes) : List TorrentID := (queueLines data).filterMap torrentID?

def registeredIn (registered ids : List TorrentID) : List TorrentID :=
  ids.filter fun id => decide (id ∈ registered)

def namedRegistered (registered : List TorrentID) (data : Bytes) : List TorrentID :=
  registeredIn registered (named data)

/-- No index is outside the list, and the list is rearranged such that it starts with the registered
torrents of the file, in the order in which they first come in it. -/
def Restores (registered : List TorrentID) (data : Bytes) : Prop :=
  ∃ result rest, loadQueue registered data = some result ∧ result.Perm registered ∧
    result = (namedRegistered registered data).eraseDups ++ rest

variable {registered front list : List TorrentID} {id a b : TorrentID}

theorem registeredIn_of_mem (ids : List TorrentID) (h : id ∈ registered) :
    registeredIn registered (id :: ids) = id :: registeredIn registered ids :=
  filter_cons_of_pos (decide_eq_true h)

theorem registeredIn_of_not_mem (ids : List TorrentID) (h : id ∉ registered) :
    registeredIn registered (id :: ids) = registeredIn registered ids :=
  filter_cons_of_neg (by rw [decide_eq_true_eq]; exact h)

/-! ### Swaps -/

variable {j i : ℕ}

theorem perm_set_set (ha : list[i]? = some a) (hb : list[j]? = some b) :
    ((list.set i b).set j a).Perm list := by
  obtain ⟨hi, rfl⟩ := List.getElem?_eq_some_iff.mp ha
  obtain ⟨hj, rfl⟩ := List.getElem?_eq_some_iff.mp hb
  exact set_set_perm hi hj

theorem getElem?_set_set (ha : list[i]? = some a) (hb : list[j]? = some b) (p : ℕ) :
    ((list.set i b).set j a)[p]? = if p = j then some a else if p = i then some b else list[p]? := by
  obtain ⟨hi, -⟩ := List.getElem?_eq_some_iff.mp ha
  obtain ⟨hj, -⟩ := List.getElem?_eq_some_iff.mp hb
  rw [List.getElem?_set, length_set, List.getElem?_set]
  simp only [hi, hj, if_true, eq_comm (b := p)]

theorem position_unique (hnodup : list.Nodup) (hi : list[i]? = some a) (hj : list[j]? = some a) :
    i = j :=
  (List.getElem?_inj (List.getElem?_eq_some_iff.mp hi).1 hnodup).mp (hi.trans hj.symm)

/-! ### The hash of positions -/

theorem fillIndexes_concat (registered : List TorrentID) (id : TorrentID) :
    fillIndexes (registered ++ [id]) = insertIndex (fillIndexes registered) id registered.length := by
  unfold fillIndexes
  rw [zipIdx_append, foldl_append, Nat.zero_add]
  rfl

theorem fillIndexes_eq_some (hnodup : registered.Nodup) {p : ℕ} (h : registered[p]? = some id) :
    fillIndexes registered id = some p := by
  induction registered using List.reverseRecOn with
  | nil => cases h
  | append_singleton registered last ih =>
    rw [fillIndexes_concat, insertIndex]
    rw [nodup_append] at hnodup
    by_cases hp : p < registered.length
    · rw [List.getElem?_append_left hp] at h
      have hne : id ≠ last := hnodup.2.2 id (mem_of_getElem? h) last (mem_singleton_self last)
      rw [if_neg hne, ih hnodup.1 h]
    · rw [List.getElem?_append_right (by omega), List.getElem?_singleton] at h
      split_ifs at h with hzero
      rw [if_pos (Option.some.inj h).symm]
      congr 1
      omega

theorem fillIndexes_eq_none : fillIndexes registered id = none ↔ id ∉ registered := by
  induction registered using List.reverseRecOn with
  | nil => exact ⟨fun _ => not_mem_nil, fun _ => rfl⟩
  | append_singleton registered last ih =>
    rw [fillIndexes_concat, insertIndex, mem_append, mem_singleton, not_or, ← ih]
    split_ifs with h
    · exact ⟨nofun, fun hnot => absurd h hnot.2⟩
    · exact ⟨fun hnone => ⟨hnone, h⟩, And.left⟩

/-! ### A line -/

variable {s : Placement}

theorem placeTorrent_unknown (h : s.registeredTorrentsIndexes id = none) :
    placeTorrent s id = some s := by
  rw [placeTorrent, h]

theorem placeTorrent_in_place (h : s.registeredTorrentsIndexes id = some s.queuePos) :
    placeTorrent s id = some { s with queuePos := s.queuePos + 1 } := by
  rw [placeTorrent, h]
  exact if_neg (not_not_intro rfl)

/-- A swap, if both positions are inside the list. -/
theorem placeTorrent_swap {pos : ℕ} (h : s.registeredTorrentsIndexes id = some pos)
    (hne : pos ≠ s.queuePos) (ha : s.m_registeredTorrents[pos]? = some a)
    (hb : s.m_registeredTorrents[s.queuePos]? = some b) :
    placeTorrent s id = some {
      m_registeredTorrents := (s.m_registeredTorrents.set pos b).set s.queuePos a
      registeredTorrentsIndexes := insertIndex s.registeredTorrentsIndexes b pos
      queuePos := s.queuePos + 1 } := by
  have hmoved := getElem?_set_set ha hb pos
  rw [if_neg hne, if_pos rfl] at hmoved
  rw [placeTorrent, h]
  dsimp only
  rw [if_pos hne, swapItemsAt, ha, hb, Option.bind_eq_bind, Option.bind_some, hmoved]
  rfl

theorem placeTorrent_outside {pos : ℕ} (h : s.registeredTorrentsIndexes id = some pos)
    (hne : pos ≠ s.queuePos)
    (hout : s.m_registeredTorrents[pos]? = none ∨ s.m_registeredTorrents[s.queuePos]? = none) :
    placeTorrent s id = none := by
  have hswap : swapItemsAt s.m_registeredTorrents pos s.queuePos = none := by
    unfold swapItemsAt
    rcases hout with hout | hout
    · rw [hout]
    · rw [hout]
      cases s.m_registeredTorrents[pos]? <;> rfl
  rw [placeTorrent, h]
  dsimp only
  rw [if_pos hne, hswap]
  rfl

/-- The torrents before `queuePos` are in place, and the positions of the others are known. -/
structure Placed (registered front : List TorrentID) (s : Placement) : Prop where
  perm : s.m_registeredTorrents.Perm registered
  length_front : s.queuePos = front.length
  take_front : s.m_registeredTorrents.take s.queuePos = front
  index : ∀ p id, s.queuePos ≤ p → s.m_registeredTorrents[p]? = some id →
    s.registeredTorrentsIndexes id = some p
  unknown : ∀ id, s.registeredTorrentsIndexes id = none ↔ id ∉ registered

theorem placed_start (hnodup : registered.Nodup) :
    Placed registered [] ⟨registered, fillIndexes registered, 0⟩ where
  perm := List.Perm.refl _
  length_front := rfl
  take_front := rfl
  index _ _ _ h := fillIndexes_eq_some hnodup h
  unknown _ := fillIndexes_eq_none

theorem Placed.skip (h : Placed registered front s) (hid : id ∉ registered) :
    placeTorrent s id = some s :=
  placeTorrent_unknown ((h.unknown id).mpr hid)

theorem Placed.exists_position (h : Placed registered front s) (hid : id ∈ registered)
    (hnew : id ∉ front) :
    ∃ pos, s.queuePos ≤ pos ∧ s.m_registeredTorrents[pos]? = some id ∧
      s.registeredTorrentsIndexes id = some pos := by
  obtain ⟨pos, hpos⟩ := mem_iff_getElem?.mp (h.perm.mem_iff.mpr hid)
  have hle : s.queuePos ≤ pos := by
    by_contra hlt
    refine hnew ?_
    rw [← h.take_front]
    exact mem_of_getElem? (i := pos) (by rw [List.getElem?_take_of_lt (by omega)]; exact hpos)
  exact ⟨pos, hle, hpos, h.index pos id hle hpos⟩

theorem Placed.step (hnodup : registered.Nodup) (h : Placed registered front s)
    (hid : id ∈ registered) (hnew : id ∉ front) :
    ∃ s', placeTorrent s id = some s' ∧ Placed registered (front ++ [id]) s' := by
  obtain ⟨pos, hle, hpos, hindex⟩ := h.exists_position hid hnew
  by_cases heq : pos = s.queuePos
  · rw [heq] at hpos hindex
    refine ⟨_, placeTorrent_in_place hindex, h.perm, ?_, ?_,
      fun p other hp => h.index p other (Nat.le_of_succ_le hp), h.unknown⟩
    · rw [h.length_front, length_append, length_singleton]
    · rw [take_add_one, h.take_front, hpos]
      rfl
  · obtain ⟨hlt, -⟩ := List.getElem?_eq_some_iff.mp hpos
    have hbound : s.queuePos < s.m_registeredTorrents.length := by omega
    obtain ⟨other, hother⟩ : ∃ other, s.m_registeredTorrents[s.queuePos]? = some other :=
      ⟨_, List.getElem?_eq_getElem hbound⟩
    have hget := getElem?_set_set hpos hother
    refine ⟨_, placeTorrent_swap hindex heq hpos hother,
      (perm_set_set hpos hother).trans h.perm, ?_, ?_, ?_, ?_⟩
    · rw [h.length_front, length_append, length_singleton]
    · rw [take_add_one, hget, if_pos rfl, take_set_of_le le_rfl, take_set_of_le hle, h.take_front]
      rfl
    · intro p x hp hx
      change s.queuePos + 1 ≤ p at hp
      change _ = some x at hx
      rw [hget, if_neg (by omega)] at hx
      change insertIndex _ _ _ x = some p
      unfold insertIndex
      split_ifs at hx with hat
      · rw [if_pos (Option.some.inj hx).symm, hat]
      · -- the torrent that made room is at one position only
        have hne : x ≠ other := by
          rintro rfl
          have hsame := position_unique (h.perm.nodup_iff.mpr hnodup) hother hx
          omega
        rw [if_neg hne]
        exact h.index p x (by omega) hx
    · intro x
      change insertIndex _ _ _ x = none ↔ _
      unfold insertIndex
      split_ifs with hx
      · rw [hx]
        exact ⟨nofun, fun hnot => absurd (h.perm.mem_iff.mp (mem_of_getElem? hother)) hnot⟩
      · exact h.unknown x

/-- What the lines of a file do whose registered torrents are all new. -/
theorem Placed.run (hnodup : registered.Nodup) (ids : List TorrentID)
    (h : Placed registered front s) (hnew : (front ++ registeredIn registered ids).Nodup) :
    ∃ s', ids.foldlM placeTorrent s = some s' ∧
      Placed registered (front ++ registeredIn registered ids) s' := by
  induction ids generalizing front s with
  | nil => exact ⟨s, rfl, by rw [registeredIn, filter_nil, append_nil]; exact h⟩
  | cons id ids ih =>
    rw [foldlM_cons]
    by_cases hid : id ∈ registered
    · rw [registeredIn_of_mem ids hid] at hnew ⊢
      have hfresh : id ∉ front := fun hmem =>
        (nodup_append.mp hnew).2.2 id hmem id mem_cons_self rfl
      obtain ⟨s₁, hs₁, h₁⟩ := h.step hnodup hid hfresh
      rw [append_cons] at hnew ⊢
      obtain ⟨s', hs', h'⟩ := ih h₁ hnew
      exact ⟨s', by rw [hs₁]; exact hs', h'⟩
    · rw [registeredIn_of_not_mem ids hid] at hnew ⊢
      rw [h.skip hid]
      exact ih h hnew

/-! ### Torrents that are named again -/

structure Displaced (id : TorrentID) (j : ℕ) (s : Placement) : Prop where
  passed : j < s.queuePos
  elsewhere : ∃ p, s.m_registeredTorrents[p]? = some id ∧ p < s.queuePos ∧ p ≠ j

theorem Displaced.step {s' : Placement} (h : Displaced id j s) {other : TorrentID}
    (hstep : placeTorrent s other = some s') : Displaced id j s' := by
  obtain ⟨p, hp, hlt, hne⟩ := h.elsewhere
  have hpassed := h.passed
  cases hindex : s.registeredTorrentsIndexes other with
  | none =>
    rw [placeTorrent_unknown hindex] at hstep
    exact Option.some.inj hstep ▸ h
  | some pos =>
    by_cases heq : pos = s.queuePos
    · rw [heq] at hindex
      rw [placeTorrent_in_place hindex] at hstep
      rw [← Option.some.inj hstep]
      exact ⟨Nat.lt_succ_of_lt hpassed, p, hp, Nat.lt_succ_of_lt hlt, hne⟩
    cases ha : s.m_registeredTorrents[pos]? with
    | none => rw [placeTorrent_outside hindex heq (.inl ha)] at hstep; cases hstep
    | some a =>
      cases hb : s.m_registeredTorrents[s.queuePos]? with
      | none => rw [placeTorrent_outside hindex heq (.inr hb)] at hstep; cases hstep
      | some b =>
        rw [placeTorrent_swap hindex heq ha hb] at hstep
        rw [← Option.some.inj hstep]
        refine ⟨Nat.lt_succ_of_lt hpassed, ?_⟩
        by_cases hat : p = pos
        · -- it is moved to the end of those that were placed
          have hsame : a = id := Option.some.inj (by rw [← ha, ← hat, hp])
          refine ⟨s.queuePos, ?_, Nat.lt_succ_self _, by omega⟩
          rw [getElem?_set_set ha hb, if_pos rfl, hsame]
        · refine ⟨p, ?_, Nat.lt_succ_of_lt hlt, hne⟩
          rw [getElem?_set_set ha hb, if_neg (by omega), if_neg hat, hp]

theorem Displaced.run (ids : List TorrentID) {s' : Placement} (h : Displaced id j s)
    (hrun : ids.foldlM placeTorrent s = some s') : Displaced id j s' := by
  induction ids generalizing s with
  | nil => exact Option.some.inj hrun ▸ h
  | cons other ids ih =>
    rw [foldlM_cons] at hrun
    cases hstep : placeTorrent s other with
    | none => rw [hstep] at hrun; cases hrun
    | some s₁ =>
      rw [hstep] at hrun
      exact ih (h.step hstep) hrun

theorem exists_first_again {ids : List TorrentID} (h : ¬ ids.Nodup) :
    ∃ front id rest, ids = front ++ id :: rest ∧ front.Nodup ∧ id ∈ front := by
  induction ids using List.reverseRecOn with
  | nil => exact absurd nodup_nil h
  | append_singleton ids last ih =>
    by_cases hnodup : ids.Nodup
    · refine ⟨ids, last, [], rfl, hnodup, ?_⟩
      by_contra hmem
      refine h (nodup_append.mpr ⟨hnodup, nodup_singleton last, ?_⟩)
      intro a ha b hb hab
      rw [hab, mem_singleton.mp hb] at ha
      exact hmem ha
    · obtain ⟨front, id, rest, rfl, hfront, hmem⟩ := ih hnodup
      exact ⟨front, id, rest ++ [last], by rw [append_assoc]; rfl, hfront, hmem⟩

/-! ### The whole file -/

theorem foldlM_placeLine (lines : List Bytes) (s : Placement) :
    lines.foldlM placeLine s = (lines.filterMap torrentID?).foldlM placeTorrent s := by
  induction lines generalizing s with
  | nil => rfl
  | cons line lines ih =>
    rw [foldlM_cons, filterMap_cons, placeLine]
    cases torrentID? line with
    | none => exact ih s
    | some id =>
      rw [foldlM_cons]
      exact congrArg (placeTorrent s id).bind (funext ih)

theorem loadQueue_eq (registered : List TorrentID) (data : Bytes) :
    loadQueue registered data =
      ((named data).foldlM placeTorrent ⟨registered, fillIndexes registered, 0⟩).map
        Placement.m_registeredTorrents := by
  rw [loadQueue, foldlM_placeLine, named]

theorem eraseDups_of_nodup {ids : List TorrentID} (h : ids.Nodup) : ids.eraseDups = ids := by
  induction ids with
  | nil => rfl
  | cons id ids ih =>
    obtain ⟨hnot, hnodup⟩ := nodup_cons.mp h
    have hothers : (ids.filter fun other => !other == id) = ids := by
      refine filter_eq_self.mpr fun other hother => ?_
      rw [Bool.not_eq_true', beq_eq_false_iff_ne]
      rintro rfl
      exact hnot hother
    rw [eraseDups_cons, hothers, ih hnodup]

theorem restores_of_nodup (hnodup : registered.Nodup) {data : Bytes}
    (hnamed : (namedRegistered registered data).Nodup) : Restores registered data := by
  obtain ⟨s, hs, hplaced⟩ := Placed.run hnodup (named data) (placed_start hnodup)
    (by rw [nil_append]; exact hnamed)
  refine ⟨s.m_registeredTorrents, s.m_registeredTorrents.drop s.queuePos, ?_, hplaced.perm, ?_⟩
  · rw [loadQueue_eq, hs]
    rfl
  · rw [eraseDups_of_nodup hnamed, namedRegistered, ← nil_append (registeredIn _ _),
      ← hplaced.take_front, take_append_drop]

theorem run_in_order (hnodup : registered.Nodup) (ids before others : List TorrentID)
    (horder : registered = before ++ registeredIn registered ids ++ others) :
    ids.foldlM placeTorrent ⟨registered, fillIndexes registered, before.length⟩ =
      some ⟨registered, fillIndexes registered,
        (before ++ registeredIn registered ids).length⟩ := by
  induction ids generalizing before with
  | nil => rw [registeredIn, filter_nil, append_nil]; rfl
  | cons id ids ih =>
    rw [foldlM_cons]
    by_cases hid : id ∈ registered
    · rw [registeredIn_of_mem ids hid] at horder ⊢
      have hpos : registered[before.length]? = some id := by
        rw [horder, append_assoc, List.getElem?_append_right le_rfl, Nat.sub_self]
        rfl
      rw [placeTorrent_in_place (fillIndexes_eq_some hnodup hpos), append_cons]
      rw [append_cons] at horder
      have hrest := ih (before ++ [id]) horder
      rw [length_append, length_singleton] at hrest
      exact hrest
    · rw [registeredIn_of_not_mem ids hid] at horder ⊢
      rw [placeTorrent_unknown (fillIndexes_eq_none.mpr hid)]
      exact ih before horder

/-- If the torrents are registered in the order of the file up to the first one that it names again,
that order is not restored. -/
theorem not_restores_again {rest others : List TorrentID} {data : Bytes} (hnodup : registered.Nodup)
    (horder : registered = front ++ others)
    (hnamed : namedRegistered registered data = front ++ id :: rest) (hagain : id ∈ front) :
    ¬ Restores registered data := by
  rintro ⟨result, tail, hload, hperm, hresult⟩
  obtain ⟨j, hj⟩ := mem_iff_getElem?.mp hagain
  obtain ⟨hlt, -⟩ := List.getElem?_eq_some_iff.mp hj
  have hjr : registered[j]? = some id := by rw [horder, List.getElem?_append_left hlt, hj]
  have hfront : front.Nodup := by
    rw [horder] at hnodup
    exact (nodup_append.mp hnodup).1
  have hplace : result[j]? = some id := by
    rw [hresult, hnamed, eraseDups_append, eraseDups_of_nodup hfront, append_assoc,
      List.getElem?_append_left hlt, hj]
  obtain ⟨start, again, hsplit, hstart, hfilter⟩ := filter_eq_append_iff.mp hnamed
  obtain ⟨between, last, rfl, hbetween, -, -⟩ := filter_eq_cons_iff.mp hfilter
  have hskipped : registeredIn registered (start ++ between) = front := by
    rw [registeredIn, filter_append, hstart, filter_eq_nil_iff.mpr hbetween, append_nil]
  have hrun := run_in_order hnodup (start ++ between) [] others
    (by rw [hskipped]; exact horder)
  rw [hskipped, nil_append] at hrun
  have hindex := fillIndexes_eq_some hnodup hjr
  have hne : j ≠ front.length := Nat.ne_of_lt hlt
  rw [loadQueue_eq, hsplit, ← append_assoc, foldlM_append] at hload
  change (((start ++ between).foldlM placeTorrent
    ⟨registered, fillIndexes registered, ([] : List TorrentID).length⟩).bind fun s =>
      (id :: last).foldlM placeTorrent s).map _ = _ at hload
  rw [hrun, Option.bind_some, foldlM_cons] at hload
  cases hother : registered[front.length]? with
  | none =>
    rw [placeTorrent_outside hindex hne (.inr hother)] at hload
    cases hload
  | some other =>
    rw [placeTorrent_swap hindex hne hjr hother, Option.bind_eq_bind, Option.bind_some] at hload
    obtain ⟨s, hs, rfl⟩ := Option.map_eq_some_iff.mp hload
    have hget := getElem?_set_set hjr hother front.length
    rw [if_pos rfl] at hget
    have hdisplaced : Displaced id j s :=
      Displaced.run last ⟨Nat.lt_succ_of_lt hlt, front.length, hget, Nat.lt_succ_self _, hne.symm⟩ hs
    obtain ⟨p, hp, -, hpj⟩ := hdisplaced.elsewhere
    exact hpj (position_unique (hperm.nodup_iff.mpr hnodup) hp hplace)

/-- The order of the file is restored for every order of the registered torrents, if and only if the
file names no registered torrent twice. -/
theorem loadQueue_restores_iff (ids : List TorrentID) (hids : ids.Nodup) (data : Bytes) :
    (∀ registered : List TorrentID, registered.Perm ids → Restores registered data) ↔
      (namedRegistered ids data).Nodup := by
  have hsame : ∀ {registered : List TorrentID}, registered.Perm ids →
      namedRegistered registered data = namedRegistered ids data := by
    intro registered hperm
    exact filter_congr fun id _ => decide_eq_decide.mpr hperm.mem_iff
  constructor
  · intro hall
    by_contra hnot
    obtain ⟨front, id, rest, hnamed, hfront, hagain⟩ := exists_first_again hnot
    have hsubset : ∀ x ∈ front, x ∈ ids := by
      intro x hx
      have hmem : x ∈ namedRegistered ids data := by
        rw [hnamed]
        exact mem_append_left _ hx
      exact of_decide_eq_true (mem_filter.mp hmem).2
    have hothers : (ids.filter fun x => decide (x ∉ front)).Nodup := hids.filter _
    have hnodup : (front ++ ids.filter fun x => decide (x ∉ front)).Nodup := by
      refine nodup_append.mpr ⟨hfront, hothers, ?_⟩
      rintro x hx _ hy rfl
      exact of_decide_eq_true (mem_filter.mp hy).2 hx
    have hperm : (front ++ ids.filter fun x => decide (x ∉ front)).Perm ids := by
      refine (perm_ext_iff_of_nodup hnodup hids).mpr fun x => ?_
      rw [mem_append, mem_filter, decide_eq_true_eq]
      constructor
      · rintro (hx | ⟨hx, -⟩)
        · exact hsubset x hx
        · exact hx
      · intro hx
        by_cases hmem : x ∈ front
        · exact .inl hmem
        · exact .inr ⟨hx, hmem⟩
    exact not_restores_again hnodup rfl ((hsame hperm).trans hnamed) hagain (hall _ hperm)
  · intro hnodup registered hperm
    exact restores_of_nodup (hperm.nodup_iff.mpr hids) (by rw [hsame hperm]; exact hnodup)

/-! ### Files that were stored -/

theorem hexDigit_spec (value : UInt8) (h : value < 16) :
    isHexDigit (hexDigit value) = true ∧ QByteArray.isSpace (hexDigit value) = false ∧
      hexValue (hexDigit value) = value := by
  have hlt : value.toNat < 16 := h
  obtain ⟨n, hn⟩ : ∃ n, value.toNat = n := ⟨_, rfl⟩
  rw [hn] at hlt
  rw [← UInt8.ofNat_toNat (x := value), hn]
  interval_cases n <;> decide

theorem digits_lt (b : UInt8) : b / 16 < 16 ∧ b % 16 < 16 := by
  have hb := UInt8.toNat_lt b
  rw [UInt8.lt_iff_toNat_lt, UInt8.lt_iff_toNat_lt, UInt8.toNat_div, UInt8.toNat_mod]
  change b.toNat / 16 < 16 ∧ b.toNat % 16 < 16
  omega

theorem fromHex_toHex (data : Bytes) : fromHex (toHex data) = data := by
  induction data with
  | nil => rfl
  | cons b data ih =>
    have hvalue : 16 * (b / 16) + b % 16 = b := by
      have hb := UInt8.toNat_lt b
      refine UInt8.toNat_inj.mp ?_
      rw [UInt8.toNat_add, UInt8.toNat_mul, UInt8.toNat_div, UInt8.toNat_mod]
      change (16 * (b.toNat / 16) % 256 + b.toNat % 16) % 256 = b.toNat
      omega
    rw [toHex, flatMap_cons, cons_append, cons_append, nil_append, fromHex,
      (hexDigit_spec _ (digits_lt b).1).2.2, (hexDigit_spec _ (digits_lt b).2).2.2, hvalue]
    exact congrArg (b :: ·) ih

theorem mem_toHex {data : Bytes} {d : UInt8} (h : d ∈ toHex data) :
    isHexDigit d = true ∧ QByteArray.isSpace d = false := by
  obtain ⟨b, -, hd⟩ := mem_flatMap.mp h
  rw [mem_cons, mem_singleton] at hd
  rcases hd with rfl | rfl
  · exact ⟨(hexDigit_spec _ (digits_lt b).1).1, (hexDigit_spec _ (digits_lt b).1).2.1⟩
  · exact ⟨(hexDigit_spec _ (digits_lt b).2).1, (hexDigit_spec _ (digits_lt b).2).2.1⟩

theorem length_toString (id : TorrentID) : id.toString.length = 40 := by
  have hlength : ∀ data : Bytes, (toHex data).length = 2 * data.length := by
    intro data
    induction data with
    | nil => rfl
    | cons b data ih =>
      rw [toHex, flatMap_cons, length_append]
      change 2 + (toHex data).length = 2 * (data.length + 1)
      omega
  rw [TorrentID.toString, hlength, id.length_eq]

theorem torrentID?_toString (id : TorrentID) : torrentID? id.toString = some id := by
  have hall : id.toString.all isHexDigit = true :=
    all_eq_true.mpr fun d hd => (mem_toHex hd).1
  rw [torrentID?, dif_pos ⟨length_toString id, hall⟩]
  exact congrArg some (TorrentID.ext (fromHex_toHex id.bytes))

theorem readLine_append {maxLength : ℕ} {line : Bytes} (rest : Bytes) (hline : (10 : UInt8) ∉ line)
    (hlength : line.length < maxLength) : readLine maxLength (line ++ 10 :: rest) = line ++ [10] := by
  induction line generalizing maxLength with
  | nil =>
    obtain _ | maxLength := maxLength
    · cases hlength
    · rw [nil_append, readLine, if_pos rfl]
      rfl
  | cons b line ih =>
    obtain _ | maxLength := maxLength
    · cases hlength
    · rw [mem_cons, not_or] at hline
      rw [cons_append, readLine, if_neg (Ne.symm hline.1),
        ih hline.2 (Nat.lt_of_succ_lt_succ hlength)]
      rfl

theorem rdropWhile_of_getLast {line : Bytes} {d : UInt8} (h : line.getLast? = some d)
    (hd : QByteArray.isSpace d = false) : line.rdropWhile QByteArray.isSpace = line := by
  obtain ⟨front, rfl⟩ := List.getLast?_eq_some_iff.mp h
  exact rdropWhile_concat_neg _ _ _ (by rw [hd]; exact Bool.false_ne_true)

theorem trimmed_line {line : Bytes} (hne : line ≠ [])
    (hspace : ∀ d ∈ line, QByteArray.isSpace d = false) :
    QByteArray.trimmed (line ++ [10]) = line := by
  obtain ⟨d, rest, rfl⟩ := exists_cons_of_ne_nil hne
  have hd := hspace d mem_cons_self
  rw [QByteArray.trimmed, cons_append, dropWhile_cons_of_neg (by rw [hd]; nofun),
    ← cons_append, rdropWhile_concat_pos _ _ _ rfl]
  exact rdropWhile_of_getLast (List.getLast?_eq_getLast_of_ne_nil hne)
    (hspace _ (getLast_mem hne))

theorem queueLinesFrom_storeQueue (queue : List TorrentID) (fuel : ℕ) (hfuel : queue.length < fuel) :
    queueLinesFrom fuel (storeQueue queue) = queue.map TorrentID.toString := by
  induction queue generalizing fuel with
  | nil =>
    obtain _ | fuel := fuel
    · cases hfuel
    · rfl
  | cons id queue ih =>
    obtain _ | fuel := fuel
    · cases hfuel
    have hspace : ∀ d ∈ id.toString, QByteArray.isSpace d = false := fun d hd => (mem_toHex hd).2
    have hne : id.toString ≠ [] := ne_nil_of_length_pos (by rw [length_toString]; decide)
    have hfeed : (10 : UInt8) ∉ id.toString := fun hmem => absurd (hspace 10 hmem) (by decide)
    have hdata : storeQueue (id :: queue) = id.toString ++ 10 :: storeQueue queue := by
      rw [storeQueue, flatMap_cons, append_assoc]
      rfl
    have hread := @readLine_append lineMaxLength id.toString (storeQueue queue) hfeed
      (by rw [length_toString]; decide)
    rw [queueLinesFrom, hdata, hread, trimmed_line hne hspace]
    have hdrop : (id.toString ++ 10 :: storeQueue queue).drop (id.toString ++ [10]).length =
        storeQueue queue := by
      have happend : id.toString ++ 10 :: storeQueue queue = (id.toString ++ [10]) ++ storeQueue queue :=
        append_cons _ _ _
      rw [happend]
      exact drop_left
    rw [if_neg hne, hdrop, ih fuel (Nat.lt_of_succ_lt_succ hfuel)]
    rfl

theorem named_storeQueue (queue : List TorrentID) : named (storeQueue queue) = queue := by
  have hlength : ∀ queue : List TorrentID, queue.length ≤ (storeQueue queue).length := by
    intro queue
    induction queue with
    | nil => exact le_rfl
    | cons id queue ih =>
      rw [storeQueue, flatMap_cons, length_append, length_append, length_cons]
      change queue.length + 1 ≤ id.toString.length + 1 + (storeQueue queue).length
      omega
  rw [named, queueLines, queueLinesFrom_storeQueue queue _ (Nat.lt_succ_of_le (hlength queue)),
    filterMap_map]
  have hid : torrentID? ∘ TorrentID.toString = some := funext torrentID?_toString
  rw [hid, filterMap_some]

/-- An id of twenty equal bytes. -/
def sampleID (b : UInt8) : TorrentID := ⟨List.replicate 20 b, length_replicate⟩

theorem loadQueue_restores_iff_stored :
    [sampleID 1, sampleID 2].Nodup ∧
      ((∀ registered : List TorrentID, registered.Perm [sampleID 1, sampleID 2] →
          Restores registered (storeQueue [sampleID 2, sampleID 1])) ↔
        (namedRegistered [sampleID 1, sampleID 2]
          (storeQueue [sampleID 2, sampleID 1])).Nodup) :=
  ⟨by decide, loadQueue_restores_iff _ (by decide) _⟩

/-- A torrent that is named twice: with one registered torrent `swapItemsAt` gets an index outside the
list, with two it takes the torrent from its place. -/
theorem named_twice_not_restored :
    loadQueue [sampleID 1] (storeQueue [sampleID 1, sampleID 1]) = none ∧
      loadQueue [sampleID 1, sampleID 2] (storeQueue [sampleID 1, sampleID 1]) =
        some [sampleID 2, sampleID 1] ∧
      ¬ Restores [sampleID 1, sampleID 2] (storeQueue [sampleID 1, sampleID 1]) := by
  have hload : loadQueue [sampleID 1, sampleID 2] (storeQueue [sampleID 1, sampleID 1]) =
      some [sampleID 2, sampleID 1] := by
    rw [loadQueue_eq, named_storeQueue]
    decide
  refine ⟨by rw [loadQueue_eq, named_storeQueue]; decide, hload, ?_⟩
  rintro ⟨result, rest, hresult, -, hstart⟩
  rw [hload] at hresult
  rw [namedRegistered, named_storeQueue, ← Option.some.inj hresult] at hstart
  exact absurd (List.cons.inj hstart).1 (by decide)

end Qbutt.Resume
