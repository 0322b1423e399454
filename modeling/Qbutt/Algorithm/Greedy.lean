import Mathlib.Data.List.Induction
import Mathlib.Data.List.Pairwise
import Mathlib.Data.List.Perm.Lattice

/-!
# Greedy groups

Elements arrive one after the other.  An element that stands alone makes a group of its own; any other
element joins the group that admits it, if there is exactly one: a group whose first element does not
stand alone and whose members are all related to it.  Which elements end up together depends on their
order in general.  It does not where the relation is a partition already: a class of elements that do
not stand alone and are related to each other and to nothing else becomes one group.
-/

namespace Qbutt.Greedy

open List

variable {α : Type*}

structure Cluster (α : Type*) where
  first : α
  rest : List α

def Cluster.members (group : Cluster α) : List α := group.first :: group.rest

/-- A group with one more member. -/
def Cluster.push (group : Cluster α) (x : α) : Cluster α := { group with rest := group.rest ++ [x] }

@[simp] theorem Cluster.members_push (group : Cluster α) (x : α) :
    (group.push x).members = group.members ++ [x] := rfl

@[simp] theorem Cluster.members_single (x : α) : (Cluster.mk x []).members = [x] := rfl

variable (alone : α → Bool) (related : α → α → Bool)

/-- Whether an element may join a group. -/
def admits (group : Cluster α) (x : α) : Bool :=
  !alone group.first && group.members.all fun member => related member x

/-- The groups after the arrival of an element. -/
def place (groups : List (Cluster α)) (x : α) : List (Cluster α) :=
  if alone x then groups ++ [⟨x, []⟩]
  else
    match groups.zipIdx.filter fun candidate => admits alone related candidate.1 x with
    | [(_, index)] => groups.modify index fun group => group.push x
    | _ => groups ++ [⟨x, []⟩]

def groupsOf (xs : List α) : List (Cluster α) := xs.foldl (place alone related) []

/-- Whether two elements are in one group. -/
def Together (groups : List (Cluster α)) (x y : α) : Prop :=
  ∃ group ∈ groups, x ∈ group.members ∧ y ∈ group.members

variable {alone related} {groups : List (Cluster α)} {x y : α}

/-! ### One arrival -/

theorem filter_zipIdx_eq_singleton {β : Type*} {p : β → Bool} {bs : List β} {n index : ℕ} {b : β} :
    ((bs.zipIdx n).filter fun entry => p entry.1) = [(b, index)] ↔
      ∃ before after, bs = before ++ b :: after ∧ index = n + before.length ∧ p b = true ∧
        (∀ c ∈ before, p c = false) ∧ ∀ c ∈ after, p c = false := by
  induction bs generalizing n with
  | nil => simp
  | cons c bs ih =>
    rw [zipIdx_cons]
    by_cases hc : p c = true
    · rw [filter_cons_of_pos (a := (c, n)) hc]
      constructor
      · intro h
        obtain ⟨hhead, htail⟩ := List.cons.inj h
        obtain ⟨rfl, rfl⟩ := Prod.mk.inj hhead
        refine ⟨[], bs, rfl, rfl, hc, fun _ h => absurd h not_mem_nil, fun d hd => ?_⟩
        obtain ⟨i, hi⟩ : ∃ i, (d, i) ∈ bs.zipIdx (n + 1) := by
          obtain ⟨i, hi, rfl⟩ := mem_iff_getElem.mp hd
          exact ⟨n + 1 + i, by simp [mk_mem_zipIdx_iff_le_and_getElem?_sub, hi]⟩
        have := filter_eq_nil_iff.mp htail (d, i) hi
        simpa using this
      · rintro ⟨before, after, hbs, rfl, hb, hbefore, hafter⟩
        cases before with
        | cons d before =>
          cases hbs
          rw [hbefore c mem_cons_self] at hc
          cases hc
        | nil =>
          cases hbs
          have hnil : ((bs.zipIdx (n + 1)).filter fun entry => p entry.1) = [] := by
            rw [filter_eq_nil_iff]
            intro entry hentry
            simpa using hafter entry.1 (fst_mem_of_mem_zipIdx hentry)
          rw [hnil]
          rfl
    · rw [filter_cons_of_neg (a := (c, n)) hc, ih]
      have hcf : p c = false := by simpa using hc
      constructor
      · rintro ⟨before, after, rfl, rfl, hb, hbefore, hafter⟩
        refine ⟨c :: before, after, rfl, by simp; omega, hb, ?_, hafter⟩
        rintro d hd
        rcases mem_cons.mp hd with rfl | hd
        · exact hcf
        · exact hbefore d hd
      · rintro ⟨before, after, hbs, rfl, hb, hbefore, hafter⟩
        cases before with
        | nil =>
          cases hbs
          exact absurd hb hc
        | cons d before =>
          cases hbs
          exact ⟨before, after, rfl, by simp; omega, hb,
            fun e he => hbefore e (mem_cons_of_mem c he), hafter⟩

theorem modify_length_append {β : Type*} (f : β → β) (before after : List β) (b : β) :
    (before ++ b :: after).modify before.length f = before ++ f b :: after := by
  induction before with
  | nil => rfl
  | cons c before ih => exact congrArg (c :: ·) ih

variable (alone related) in
/-- What an arrival does: a new group, unless exactly one group admits the element. -/
theorem place_cases (groups : List (Cluster α)) (x : α) :
    (place alone related groups x = groups ++ [⟨x, []⟩] ∧
      (alone x = true ∨ ¬ ∃ before group after, groups = before ++ group :: after ∧
        admits alone related group x = true ∧
        (∀ other ∈ before, admits alone related other x = false) ∧
        ∀ other ∈ after, admits alone related other x = false)) ∨
    ∃ before group after, groups = before ++ group :: after ∧
      place alone related groups x = before ++ group.push x :: after ∧ alone x = false ∧
      admits alone related group x = true ∧
      (∀ other ∈ before, admits alone related other x = false) ∧
      ∀ other ∈ after, admits alone related other x = false := by
  by_cases hx : alone x = true
  · exact .inl ⟨if_pos hx, .inl hx⟩
  · have hplace : place alone related groups x =
        match groups.zipIdx.filter fun candidate => admits alone related candidate.1 x with
        | [(_, index)] => groups.modify index fun group => group.push x
        | _ => groups ++ [⟨x, []⟩] := if_neg hx
    by_cases hone : ∃ group index,
        (groups.zipIdx.filter fun candidate => admits alone related candidate.1 x) =
          [(group, index)]
    · obtain ⟨group, index, hone⟩ := hone
      obtain ⟨before, after, hgroups, hindex, hadmits, hbefore, hafter⟩ :=
        (filter_zipIdx_eq_singleton (p := fun g => admits alone related g x)).mp hone
      refine .inr ⟨before, group, after, hgroups, ?_, by simpa using hx, hadmits, hbefore, hafter⟩
      rw [hplace, hone]
      show groups.modify index _ = _
      rw [hindex, Nat.zero_add, hgroups]
      exact modify_length_append _ before after group
    · refine .inl ⟨?_, .inr ?_⟩
      · rw [hplace]
        split
        · rename_i group index hone'
          exact absurd ⟨group, index, hone'⟩ hone
        · rfl
      · rintro ⟨before, group, after, hgroups, hadmits, hbefore, hafter⟩
        exact hone ⟨group, 0 + before.length, (filter_zipIdx_eq_singleton
          (p := fun g => admits alone related g x)).mpr
            ⟨before, after, hgroups, rfl, hadmits, hbefore, hafter⟩⟩

variable {group : Cluster α}

theorem admits_iff :
    admits alone related group x = true ↔
      alone group.first = false ∧ ∀ member ∈ group.members, related member x = true := by
  simp [admits]

/-! ### All arrivals -/

variable {xs : List α}

theorem groupsOf_append (xs : List α) (x : α) :
    groupsOf alone related (xs ++ [x]) = place alone related (groupsOf alone related xs) x := by
  simp [groupsOf]

variable (alone related) in
structure Reached (xs : List α) (groups : List (Cluster α)) : Prop where
  perm : (groups.flatMap Cluster.members).Perm xs
  sublist : ∀ group ∈ groups, group.members.Sublist xs
  pairwise : ∀ group ∈ groups, group.members.Pairwise fun x y => related x y = true
  company : ∀ group ∈ groups, group.rest ≠ [] → ∀ x ∈ group.members, alone x = false

theorem Reached.mem_of_mem (h : Reached alone related xs groups) (hgroup : group ∈ groups)
    (hx : x ∈ group.members) : x ∈ xs :=
  (h.sublist group hgroup).subset hx

theorem Reached.exists_group (h : Reached alone related xs groups) (hx : x ∈ xs) :
    ∃ group ∈ groups, x ∈ group.members :=
  mem_flatMap.mp (h.perm.mem_iff.mpr hx)

/-- Where elements are different, no element is in two groups. -/
theorem Reached.eq_of_mem (h : Reached alone related xs groups) (hnodup : xs.Nodup)
    {other : Cluster α} (hgroup : group ∈ groups) (hother : other ∈ groups) (hx : x ∈ group.members)
    (hx' : x ∈ other.members) : group = other := by
  by_contra hne
  have hdisjoint := (nodup_flatMap.mp (h.perm.nodup_iff.mpr hnodup)).2
  have : Std.Symm (Function.onFun List.Disjoint (Cluster.members (α := α))) :=
    ⟨fun _ _ h => List.Disjoint.symm h⟩
  exact hdisjoint.forall hgroup hother hne hx hx'

theorem Reached.nodup (h : Reached alone related xs groups) (hnodup : xs.Nodup) : groups.Nodup := by
  refine (nodup_flatMap.mp (h.perm.nodup_iff.mpr hnodup)).2.imp ?_
  rintro group _ hdisjoint rfl
  have hfirst : group.first ∈ group.members := mem_cons_self
  exact hdisjoint hfirst hfirst

theorem Reached.mem_iff (h : Reached alone related xs groups) (hnodup : xs.Nodup)
    (hgroup : group ∈ groups) (hx : x ∈ group.members) :
    y ∈ group.members ↔ Together groups x y := by
  constructor
  · exact fun hy => ⟨group, hgroup, hx, hy⟩
  · rintro ⟨other, hother, hx', hy⟩
    rwa [h.eq_of_mem hnodup hgroup hother hx hx']

theorem Reached.place (h : Reached alone related xs groups) (x : α) :
    Reached alone related (xs ++ [x]) (place alone related groups x) := by
  rcases place_cases alone related groups x with ⟨hplace, -⟩ | ⟨before, group, after, rfl, hplace, hx, hadmits, -⟩
  · rw [hplace]
    refine ⟨?_, ?_, ?_, ?_⟩
    · rw [flatMap_append]
      exact h.perm.append_right [x]
    · rw [forall_mem_append]
      refine ⟨fun g hg => (h.sublist g hg).trans (sublist_append_left xs [x]), ?_⟩
      rw [forall_mem_singleton]
      exact sublist_append_right xs [x]
    · rw [forall_mem_append, forall_mem_singleton]
      exact ⟨h.pairwise, pairwise_singleton _ _⟩
    · rw [forall_mem_append, forall_mem_singleton]
      exact ⟨h.company, fun hrest => absurd rfl hrest⟩
  · obtain ⟨hfirst, hmembers⟩ := admits_iff.mp hadmits
    rw [hplace]
    have hothers : ∀ p : Cluster α → Prop, (∀ g ∈ before ++ group :: after, p g) → p (group.push x) →
        ∀ g ∈ before ++ group.push x :: after, p g := by
      intro p hall hpush
      rw [forall_mem_append, forall_mem_cons] at hall ⊢
      exact ⟨hall.1, hpush, hall.2.2⟩
    have hgroup : group ∈ before ++ group :: after :=
      mem_append_right before mem_cons_self
    refine ⟨?_, hothers _ ?_ ?_, hothers _ h.pairwise ?_, hothers _ h.company ?_⟩
    · refine List.Perm.trans ?_ (h.perm.append_right [x])
      rw [flatMap_append, flatMap_append, flatMap_cons, flatMap_cons,
        Cluster.members_push, append_assoc, append_assoc, append_assoc]
      exact (perm_append_comm.append_left _).append_left _
    · exact fun g hg => (h.sublist g hg).trans (sublist_append_left xs [x])
    · rw [Cluster.members_push]
      exact (h.sublist group hgroup).append (List.Sublist.refl [x])
    · rw [Cluster.members_push, pairwise_append]
      refine ⟨h.pairwise group hgroup, pairwise_singleton _ _, fun m hm y hy => ?_⟩
      rw [mem_singleton.mp hy]
      exact hmembers m hm
    · intro _ y hy
      rw [Cluster.members_push, mem_append, mem_singleton] at hy
      rcases hy with hy | rfl
      · by_cases hrest : group.rest = []
        · rw [Cluster.members, hrest, mem_singleton] at hy
          rwa [hy]
        · exact h.company group hgroup hrest y hy
      · exact hx

variable (alone related) in
theorem reached (xs : List α) : Reached alone related xs (groupsOf alone related xs) := by
  induction xs using List.reverseRecOn with
  | nil => exact ⟨List.Perm.refl [], nofun, nofun, nofun⟩
  | append_singleton xs x ih =>
    rw [groupsOf_append]
    exact ih.place x

theorem Together.place (h : Together groups x y) (z : α) :
    Together (place alone related groups z) x y := by
  obtain ⟨group, hgroup, hx, hy⟩ := h
  rcases place_cases alone related groups z with ⟨hplace, -⟩ | ⟨before, joined, after, rfl, hplace, -⟩
  · rw [hplace]
    exact ⟨group, mem_append_left _ hgroup, hx, hy⟩
  · rw [hplace]
    rw [mem_append, mem_cons] at hgroup
    rcases hgroup with hgroup | rfl | hgroup
    · exact ⟨group, mem_append_left _ hgroup, hx, hy⟩
    · refine ⟨group.push z, mem_append_right _ mem_cons_self, ?_, ?_⟩
      · exact mem_append_left _ hx
      · exact mem_append_left _ hy
    · exact ⟨group, mem_append_right _ (mem_cons_of_mem _ hgroup), hx, hy⟩

theorem Together.append {xs : List α} (h : Together (groupsOf alone related xs) x y) (ys : List α) :
    Together (groupsOf alone related (xs ++ ys)) x y := by
  induction ys using List.reverseRecOn with
  | nil => rwa [append_nil]
  | append_singleton ys z ih =>
    rw [← append_assoc, groupsOf_append]
    exact ih.place z

theorem together_of_first (hx : alone x = false) (hy : alone y = false) (hxy : related x y = true)
    (xs : List α) : Together (groupsOf alone related (x :: y :: xs)) x y := by
  have hstart : groupsOf alone related [x, y] = [⟨x, [y]⟩] := by
    have hfirst : groupsOf alone related [x] = [⟨x, []⟩] := by simp [groupsOf, Greedy.place, hx]
    have hadmits : admits alone related ⟨x, []⟩ y = true := by simp [admits_iff, hx, hxy]
    show place alone related (groupsOf alone related [x]) y = _
    rw [hfirst, place, if_neg (by simp [hy])]
    simp [hadmits, Cluster.push]
  have htogether : Together (groupsOf alone related [x, y]) x y :=
    hstart ▸ ⟨_, mem_singleton_self _, by simp [Cluster.members], by simp [Cluster.members]⟩
  exact htogether.append xs

theorem related_of_together (hrefl : ∀ x ∈ xs, related x x = true)
    (hsymm : ∀ x ∈ xs, ∀ y ∈ xs, related x y = true → related y x = true)
    (h : Together (groupsOf alone related xs) x y) :
    x ∈ xs ∧ y ∈ xs ∧ related x y = true ∧ (x ≠ y → alone x = false ∧ alone y = false) := by
  have hreached := reached alone related xs
  obtain ⟨group, hgroup, hx, hy⟩ := h
  have hxs := hreached.mem_of_mem hgroup hx
  have hys := hreached.mem_of_mem hgroup hy
  refine ⟨hxs, hys, ?_, fun hne => ?_⟩
  · by_cases hxy : x = y
    · rw [← hxy]
      exact hrefl x hxs
    · have hor : group.members.Pairwise fun a b => related a b = true ∨ related b a = true :=
        (hreached.pairwise group hgroup).imp Or.inl
      have : Std.Symm fun a b => related a b = true ∨ related b a = true := ⟨fun _ _ => Or.symm⟩
      rcases hor.forall hx hy hxy with hxy | hyx
      · exact hxy
      · exact hsymm y hys x hxs hyx
  · have hrest : group.rest ≠ [] := by
      intro hrest
      rw [Cluster.members, hrest, mem_singleton] at hx hy
      exact hne (hx.trans hy.symm)
    have hcompany := hreached.company group hgroup hrest
    exact ⟨hcompany x hx, hcompany y hy⟩

/-! ### Classes -/

variable (alone related) in
/-- A class: its elements do not stand alone, and are related to each other and to no other element that
does not stand alone. -/
structure IsClass (xs : List α) (C : α → Prop) : Prop where
  company : ∀ x ∈ xs, C x → alone x = false
  closed : ∀ x ∈ xs, ∀ y ∈ xs, alone x = false → alone y = false → related x y = true → (C x ↔ C y)
  all : ∀ x ∈ xs, ∀ y ∈ xs, C x → C y → related x y = true

variable {C : α → Prop}

theorem IsClass.mono {ys : List α} (h : IsClass alone related ys C) (hsub : xs ⊆ ys) :
    IsClass alone related xs C :=
  ⟨fun x hx => h.company x (hsub hx), fun x hx y hy => h.closed x (hsub hx) y (hsub hy),
    fun x hx y hy => h.all x (hsub hx) y (hsub hy)⟩

/-- Groups that are within the class or outside of it, and only one is within it. -/
structure Separated (C : α → Prop) (groups : List (Cluster α)) : Prop where
  pure : ∀ group ∈ groups, ∀ x ∈ group.members, (C x ↔ C group.first)
  one : (groups.map Cluster.first).Pairwise fun x y => ¬ (C x ∧ C y)

theorem Separated.place (h : Separated C groups) (hreached : Reached alone related xs groups)
    (hC : IsClass alone related (xs ++ [x]) C) : Separated C (place alone related groups x) := by
  have hmem : ∀ g ∈ groups, ∀ y ∈ g.members, y ∈ xs ++ [x] := fun g hg y hy =>
    mem_append_left _ (hreached.mem_of_mem hg hy)
  have hlast : x ∈ xs ++ [x] := mem_append_right _ (mem_singleton_self x)
  rcases place_cases alone related groups x with
    ⟨hplace, halone⟩ | ⟨before, group, after, rfl, hplace, hx, hadmits, -⟩
  · rw [hplace]
    refine ⟨?_, ?_⟩
    · rw [forall_mem_append, forall_mem_singleton]
      refine ⟨h.pure, fun y hy => ?_⟩
      rw [mem_singleton.mp hy]
    · rw [map_append, pairwise_append]
      refine ⟨h.one, pairwise_singleton _ _, ?_⟩
      rintro first hfirst y hy ⟨hCfirst, hCx⟩
      rw [map_singleton, mem_singleton] at hy
      rw [hy] at hCx
      obtain ⟨group, hgroup, rfl⟩ := mem_map.mp hfirst
      have hx := hC.company x hlast hCx
      rcases halone with hx' | hno
      · rw [hx] at hx'
        cases hx'
      · -- the group of the class is the only one that admits the element
        obtain ⟨before, after, rfl⟩ := append_of_mem hgroup
        have hone := h.one
        rw [map_append, map_cons, pairwise_append, pairwise_cons] at hone
        have hother : ∀ other ∈ before ++ group :: after, ¬ C other.first →
            admits alone related other x = false := by
          intro other hmemother hCother
          by_contra hadmits
          obtain ⟨hfirst, hmembers⟩ := admits_iff.mp (eq_true_of_ne_false hadmits)
          have hfirstmem : other.first ∈ other.members := mem_cons_self
          exact hCother ((hC.closed _ (hmem other hmemother _ hfirstmem) x hlast hfirst hx
            (hmembers _ hfirstmem)).mpr hCx)
        refine hno ⟨before, group, after, rfl, ?_, ?_, ?_⟩
        · refine admits_iff.mpr ⟨hC.company _ (hmem group hgroup _ mem_cons_self) hCfirst, ?_⟩
          exact fun m hm => hC.all m (hmem group hgroup m hm) x hlast
            ((h.pure group hgroup m hm).mpr hCfirst) hCx
        · intro other hother'
          refine hother other (mem_append_left _ hother') fun hCother => ?_
          exact hone.2.2 _ (mem_map_of_mem hother') _ mem_cons_self ⟨hCother, hCfirst⟩
        · intro other hother'
          refine hother other (mem_append_right _ (mem_cons_of_mem _ hother'))
            fun hCother => ?_
          exact hone.2.1.1 _ (mem_map_of_mem hother') ⟨hCfirst, hCother⟩
  · obtain ⟨hfirst, hmembers⟩ := admits_iff.mp hadmits
    have hgroup : group ∈ before ++ group :: after :=
      mem_append_right before mem_cons_self
    rw [hplace]
    refine ⟨?_, ?_⟩
    · have hpure := h.pure
      rw [forall_mem_append, forall_mem_cons] at hpure ⊢
      refine ⟨hpure.1, fun y hy => ?_, hpure.2.2⟩
      rw [Cluster.members_push, mem_append, mem_singleton] at hy
      rcases hy with hy | rfl
      · exact hpure.2.1 y hy
      · exact (hC.closed _ (hmem group hgroup _ mem_cons_self) y hlast hfirst hx
          (hmembers _ mem_cons_self)).symm
    · have hone := h.one
      rw [map_append, map_cons] at hone ⊢
      exact hone

theorem separated (hC : IsClass alone related xs C) :
    Separated C (groupsOf alone related xs) := by
  induction xs using List.reverseRecOn with
  | nil => exact ⟨nofun, List.Pairwise.nil⟩
  | append_singleton xs x ih =>
    rw [groupsOf_append]
    exact (ih (hC.mono (subset_append_left xs [x]))).place (reached alone related xs) hC

theorem together_of_class (hC : IsClass alone related xs C) (hx : x ∈ xs) (hCx : C x) :
    Together (groupsOf alone related xs) x y ↔ y ∈ xs ∧ C y := by
  have hreached := reached alone related xs
  have hseparated := separated hC
  constructor
  · rintro ⟨group, hgroup, hxg, hyg⟩
    refine ⟨hreached.mem_of_mem hgroup hyg, ?_⟩
    exact (hseparated.pure group hgroup y hyg).mpr ((hseparated.pure group hgroup x hxg).mp hCx)
  · rintro ⟨hy, hCy⟩
    obtain ⟨group, hgroup, hxg⟩ := hreached.exists_group hx
    obtain ⟨other, hother, hyo⟩ := hreached.exists_group hy
    have hCgroup := (hseparated.pure group hgroup x hxg).mp hCx
    have hCother := (hseparated.pure other hother y hyo).mp hCy
    by_cases heq : group = other
    · exact ⟨group, hgroup, hxg, heq ▸ hyo⟩
    · have : Std.Symm fun g g' : Cluster α => ¬ (C g.first ∧ C g'.first) :=
        ⟨fun _ _ h h' => h h'.symm⟩
      exact absurd ⟨hCgroup, hCother⟩ ((pairwise_map.mp hseparated.one).forall hgroup hother heq)

variable (alone related) in
/-- The relation between elements that do not stand alone. -/
def Joins (x y : α) : Prop := alone x = false ∧ alone y = false ∧ related x y = true

/-- Where the relation is transitive, elements are together exactly if they are related. -/
theorem together_iff (hrefl : ∀ x ∈ xs, related x x = true)
    (hsymm : ∀ x ∈ xs, ∀ y ∈ xs, related x y = true → related y x = true)
    (htrans : ∀ x ∈ xs, ∀ y ∈ xs, ∀ z ∈ xs, Joins alone related x y → Joins alone related y z →
      Joins alone related x z) :
    Together (groupsOf alone related xs) x y ↔
      x ∈ xs ∧ y ∈ xs ∧ (x = y ∨ Joins alone related x y) := by
  constructor
  · intro h
    obtain ⟨hx, hy, hxy, hcompany⟩ := related_of_together hrefl hsymm h
    refine ⟨hx, hy, ?_⟩
    by_cases heq : x = y
    · exact .inl heq
    · exact .inr ⟨(hcompany heq).1, (hcompany heq).2, hxy⟩
  · rintro ⟨hx, hy, rfl | hxy⟩
    · obtain ⟨group, hgroup, hxg⟩ :=
        (reached alone related xs).exists_group hx
      exact ⟨group, hgroup, hxg, hxg⟩
    · have hC : IsClass alone related xs (Joins alone related x) := by
        refine ⟨fun z _ h => h.2.1, fun z hz w hw hza hwa hzw => ⟨fun h => ?_, fun h => ?_⟩,
          fun z hz w hw hxz hxw => ?_⟩
        · exact htrans x hx z hz w hw h ⟨hza, hwa, hzw⟩
        · exact htrans x hx w hw z hz h ⟨hwa, hza, hsymm z hz w hw hzw⟩
        · have hzx : Joins alone related z x := ⟨hxz.2.1, hxz.1, hsymm x hx z hz hxz.2.2⟩
          exact (htrans z hz x hx w hw hzx hxw).2.2
      exact (together_of_class hC hx ⟨hxy.1, hxy.1, hrefl x hx⟩).mpr ⟨hy, hxy⟩

end Qbutt.Greedy
