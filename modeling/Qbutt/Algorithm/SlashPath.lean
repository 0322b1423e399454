import Mathlib.Data.List.Infix

/-!
# Slash-separated paths

Clean absolute paths (`Location`) and their texts.  A path contains another one if its names are a
proper beginning of the other's names on the same volume, and that is when its text, with a slash after
it, begins the other's text (`text_below_iff`).  The root directory of a system without volumes is the
exception: its text ends with a slash already.
-/

namespace Qbutt

open List

/-! ### Sections of a text -/

/-- What comes before the last slash, nothing if there is no slash. -/
def parentSection : List Char → List Char
  | [] => []
  | c :: cs => if '/' ∈ cs then c :: parentSection cs else []

theorem length_parentSection_le (path : List Char) : (parentSection path).length ≤ path.length - 1 := by
  induction path with
  | nil => exact le_rfl
  | cons c cs ih =>
    rw [parentSection]
    split_ifs with hmem
    · have hpos : 0 < cs.length := length_pos_of_mem hmem
      rw [length_cons, length_cons]
      omega
    · exact Nat.zero_le _

/-- The sections before the last slash, the last but one, and so on, until one is empty. -/
def parents (path : List Char) : List (List Char) :=
  if parentSection path = [] then [] else parentSection path :: parents (parentSection path)
  termination_by path.length
  decreasing_by
    rename_i hne
    have hle := length_parentSection_le path
    have hpos : 0 < (parentSection path).length := length_pos_of_ne_nil hne
    omega

variable {path q u v : List Char}

/-- A text and a slash begin a path if the text is the first section, or they begin it. -/
theorem below_iff_parentSection : q ++ ['/'] <+: path ↔
    ('/' ∈ path ∧ q = parentSection path) ∨ q ++ ['/'] <+: parentSection path := by
  induction path generalizing q with
  | nil => simp [parentSection]
  | cons c cs ih =>
    rw [parentSection]
    by_cases hmem : '/' ∈ cs
    · rw [if_pos hmem]
      cases q with
      | nil => simp [cons_prefix_cons]
      | cons d q =>
        rw [cons_append, cons_prefix_cons, cons_prefix_cons, ih]
        simp only [hmem, true_and, mem_cons, or_true, List.cons.injEq]
        exact and_or_left
    · rw [if_neg hmem]
      cases q with
      | nil => simp [cons_prefix_cons, hmem]
      | cons d q =>
        have hnot : ¬ q ++ ['/'] <+: cs := fun hstart =>
          hmem (hstart.subset (mem_append_right q mem_cons_self))
        simp [cons_prefix_cons, hnot]

theorem mem_parents : q ∈ parents path ↔ q ≠ [] ∧ q ++ ['/'] <+: path := by
  induction hlength : path.length using Nat.strong_induction_on generalizing path with
  | _ n ih =>
  rw [parents, below_iff_parentSection]
  by_cases hempty : parentSection path = []
  · rw [if_pos hempty, hempty]
    simp +contextual
  · have hle := length_parentSection_le path
    have hpos : 0 < (parentSection path).length := length_pos_of_ne_nil hempty
    have hmem : '/' ∈ path := by
      cases path with
      | nil => exact absurd rfl hempty
      | cons c cs =>
        by_contra hnot
        refine hempty ?_
        rw [parentSection, if_neg fun h => hnot (mem_cons_of_mem c h)]
    rw [if_neg hempty, mem_cons, ih _ (by omega) rfl]
    constructor
    · rintro (rfl | ⟨hne, hbelow⟩)
      · exact ⟨hempty, .inl ⟨hmem, rfl⟩⟩
      · exact ⟨hne, .inr hbelow⟩
    · rintro ⟨hne, ⟨-, rfl⟩ | hbelow⟩
      · exact .inl rfl
      · exact .inr ⟨hne, hbelow⟩

/-! ### Locations -/

/-- The name of a directory or file. -/
structure Name where
  chars : List Char
  ne_nil : chars ≠ []
  no_slash : '/' ∉ chars

theorem Name.ext_chars {m n : Name} (h : m.chars = n.chars) : m = n := by
  cases m
  cases n
  cases h
  rfl

/-- Where a path starts: at the root of a system without volumes, on a drive, or on a share of a
server. -/
inductive Volume where
  | root
  | drive (letter : Name)
  | share (server name : Name)

/-- A clean absolute path. -/
structure Location where
  volume : Volume
  names : List Name

def joined : List Name → List Char
  | [] => []
  | n :: ns => '/' :: (n.chars ++ joined ns)

def Volume.text : Volume → List Char
  | .root => []
  | .drive letter => letter.chars
  | .share server name => '/' :: joined [server, name]

/-- The root directory of a system without volumes. -/
def Location.IsRoot (l : Location) : Prop := l.volume = .root ∧ l.names = []

def Location.text (l : Location) : List Char :=
  match l.volume, l.names with
  | .root, [] => ['/']
  | volume, names => volume.text ++ joined names

/-- The first path is a directory above the second one. -/
def Location.Contains (a b : Location) : Prop :=
  a.volume = b.volume ∧ a.names <+: b.names ∧ a.names ≠ b.names

variable {a b l : Location}

theorem Location.text_of_not_isRoot (h : ¬ l.IsRoot) :
    l.text = l.volume.text ++ joined l.names := by
  obtain ⟨volume, names⟩ := l
  cases volume with
  | root =>
    cases names with
    | nil => exact absurd ⟨rfl, rfl⟩ h
    | cons n ns => rfl
  | drive letter => rfl
  | share server name => rfl

theorem Location.text_of_isRoot (h : l.IsRoot) : l.text = ['/'] := by
  obtain ⟨volume, names⟩ := l
  obtain ⟨rfl, rfl⟩ := h
  rfl

/-! ### Texts that begin others -/

/-- A text without slashes ends where the slash is. -/
theorem append_prefix_iff {x y : List Char} (hu : '/' ∉ u) (hv : '/' ∉ v)
    (hy : ∀ c y', y = c :: y' → c = '/') : u ++ '/' :: x <+: v ++ y ↔ u = v ∧ '/' :: x <+: y := by
  induction u generalizing v with
  | nil =>
    cases v with
    | nil => simp
    | cons d v =>
      have hd : '/' ≠ d := fun h => hv (h ▸ mem_cons_self)
      simp [cons_prefix_cons, hd]
  | cons c u ih =>
    have hc : c ≠ '/' := fun h => hu (h ▸ mem_cons_self)
    cases v with
    | nil =>
      cases y with
      | nil => simp
      | cons d y =>
        obtain rfl := hy d y rfl
        simp [cons_prefix_cons, hc]
    | cons d v =>
      rw [cons_append, cons_append, cons_prefix_cons,
        ih (fun h => hu (mem_cons_of_mem c h)) (fun h => hv (mem_cons_of_mem d h)),
        List.cons.injEq, and_assoc]

theorem joined_head (ns : List Name) : ∀ c y', joined ns = c :: y' → c = '/' := by
  intro c y' h
  cases ns with
  | nil => cases h
  | cons n ns => exact (List.cons.inj h).1.symm

theorem joined_slash (ns : List Name) : ∃ x, joined ns ++ ['/'] = '/' :: x := by
  cases ns with
  | nil => exact ⟨[], rfl⟩
  | cons n ns => exact ⟨_, rfl⟩

/-- The joined names of a directory begin those of what it contains. -/
theorem joined_below_iff {ns ms : List Name} :
    joined ns ++ ['/'] <+: joined ms ↔ ns <+: ms ∧ ns ≠ ms := by
  induction ns generalizing ms with
  | nil =>
    cases ms with
    | nil => simp [joined]
    | cons m ms => simp [joined, cons_prefix_cons]
  | cons n ns ih =>
    cases ms with
    | nil => simp [joined]
    | cons m ms =>
      obtain ⟨x, hx⟩ := joined_slash ns
      have hname : n.chars = m.chars ↔ n = m := ⟨Name.ext_chars, fun h => h ▸ rfl⟩
      simp only [joined, cons_append, append_assoc]
      rw [cons_prefix_cons, hx, append_prefix_iff n.no_slash m.no_slash (joined_head ms), ← hx, ih,
        cons_prefix_cons, hname]
      constructor
      · rintro ⟨-, rfl, hstart, hne⟩
        exact ⟨⟨rfl, hstart⟩, fun h => hne (List.cons.inj h).2⟩
      · rintro ⟨⟨rfl, hstart⟩, hne⟩
        exact ⟨rfl, rfl, hstart, fun h => hne (h ▸ rfl)⟩

theorem joined_append (ns ms : List Name) : joined (ns ++ ms) = joined ns ++ joined ms := by
  induction ns with
  | nil => rfl
  | cons n ns ih => simp [joined, ih]

theorem Name.head (n : Name) : ∃ c cs, n.chars = c :: cs ∧ c ≠ '/' := by
  obtain ⟨c, cs, hchars⟩ := exists_cons_of_ne_nil n.ne_nil
  exact ⟨c, cs, hchars, fun h => n.no_slash (hchars ▸ h ▸ mem_cons_self)⟩

/-- Whether a text begins with a slash, and if so whether with two, tells the kinds of volumes
apart. -/
def kind : List Char → ℕ
  | '/' :: '/' :: _ => 2
  | '/' :: _ => 1
  | _ => 0

theorem kind_of_head {c : Char} (h : c ≠ '/') (x : List Char) : kind (c :: x) = 0 := by
  unfold kind
  split
  · exact absurd (List.cons.inj (by assumption)).1 h
  · exact absurd (List.cons.inj (by assumption)).1 h
  · rfl

theorem kind_of_second {c : Char} (h : c ≠ '/') (x : List Char) : kind ('/' :: c :: x) = 1 := by
  unfold kind
  split
  · rename_i heq
    exact absurd (List.cons.inj (List.cons.inj heq).2).1 h
  · rfl
  · rename_i hnot
    exact absurd rfl (hnot _)

/-- A text with two characters that begins another one has its kind. -/
theorem kind_eq (hu : 2 ≤ u.length) (h : u <+: v) : kind u = kind v := by
  obtain ⟨w, rfl⟩ := h
  match u, hu with
  | c :: d :: u, _ =>
    rw [cons_append, cons_append]
    by_cases hc : c = '/'
    · subst hc
      by_cases hd : d = '/'
      · subst hd
        rfl
      · rw [kind_of_second hd, kind_of_second hd]
    · rw [kind_of_head hc, kind_of_head hc]

def Volume.kind : Volume → ℕ
  | .root => 1
  | .drive _ => 0
  | .share _ _ => 2

/-- The text of a path with something after it. -/
theorem kind_text (h : ¬ l.IsRoot) (x : List Char) : Qbutt.kind (l.text ++ x) = l.volume.kind := by
  rw [Location.text_of_not_isRoot h]
  obtain ⟨volume, names⟩ := l
  cases volume with
  | root =>
    cases names with
    | nil => exact absurd ⟨rfl, rfl⟩ h
    | cons n ns =>
      obtain ⟨c, cs, hchars, hc⟩ := n.head
      simp only [Volume.text, joined, hchars, nil_append, cons_append]
      exact kind_of_second hc _
  | drive letter =>
    obtain ⟨c, cs, hchars, hc⟩ := letter.head
    simp only [Volume.text, hchars, cons_append]
    exact kind_of_head hc _
  | share server name => rfl

theorem length_text_pos (l : Location) : 0 < l.text.length := by
  obtain ⟨volume, names⟩ := l
  cases volume with
  | root => cases names <;> exact Nat.succ_pos _
  | drive letter =>
    have hpos : 0 < letter.chars.length := length_pos_of_ne_nil letter.ne_nil
    simp only [Location.text, Volume.text, length_append]
    omega
  | share server name => exact Nat.succ_pos _

theorem not_contains_root (hb : b.IsRoot) : ¬ a.Contains b := by
  rintro ⟨-, hstart, hne⟩
  rw [hb.2, prefix_nil] at hstart
  exact hne (hstart.trans hb.2.symm)

/-- The text of a path, with a slash after it, begins those of what is below the path. -/
theorem text_below_iff (ha : ¬ a.IsRoot) : a.text ++ ['/'] <+: b.text ↔ a.Contains b := by
  by_cases hb : b.IsRoot
  · refine iff_of_false (fun hstart => ?_) (not_contains_root hb)
    have hle := hstart.length_le
    have hpos := length_text_pos a
    rw [Location.text_of_isRoot hb, length_append, length_singleton] at hle
    omega
  have hkind : a.text ++ ['/'] <+: b.text → a.volume.kind = b.volume.kind := by
    intro hstart
    have hpos := length_text_pos a
    have heq := kind_eq (by rw [length_append, length_singleton]; omega) hstart
    have hkindb := kind_text hb []
    rw [append_nil] at hkindb
    rw [← kind_text ha ['/'], heq, hkindb]
  rw [Location.text_of_not_isRoot ha, Location.text_of_not_isRoot hb] at hkind ⊢
  obtain ⟨va, ns⟩ := a
  obtain ⟨vb, ms⟩ := b
  by_cases hsame : va.kind = vb.kind
  case neg =>
    refine iff_of_false (fun hstart => hsame (hkind hstart)) fun hcontains => ?_
    exact hsame (congrArg Volume.kind hcontains.1)
  obtain ⟨x, hx⟩ := joined_slash ns
  cases va with
  | root =>
    cases vb with
    | root => exact joined_below_iff.trans ⟨fun h => ⟨rfl, h⟩, fun h => h.2⟩
    | _ => cases hsame
  | drive letter =>
    cases vb with
    | drive letter' =>
      have hletter : letter.chars = letter'.chars ↔ letter = letter' :=
        ⟨Name.ext_chars, fun h => h ▸ rfl⟩
      rw [append_assoc, hx]
      show letter.chars ++ _ <+: letter'.chars ++ joined ms ↔ _
      rw [append_prefix_iff letter.no_slash letter'.no_slash (joined_head ms), ← hx, joined_below_iff,
        hletter]
      exact ⟨fun h => ⟨congrArg Volume.drive h.1, h.2⟩, fun h => ⟨Volume.drive.inj h.1, h.2⟩⟩
    | _ => cases hsame
  | share server name =>
    cases vb with
    | share server' name' =>
      show ('/' :: joined [server, name]) ++ joined ns ++ ['/'] <+:
        ('/' :: joined [server', name']) ++ joined ms ↔ _
      rw [cons_append, cons_append, cons_append, cons_prefix_cons,
        ← joined_append, ← joined_append, joined_below_iff]
      simp only [cons_append, nil_append, cons_prefix_cons, Location.Contains]
      constructor
      · rintro ⟨-, ⟨rfl, rfl, hstart⟩, hne⟩
        exact ⟨rfl, hstart, fun h => hne (h ▸ rfl)⟩
      · rintro ⟨hvolume, hstart, hne⟩
        cases hvolume
        exact ⟨trivial, ⟨rfl, rfl, hstart⟩, fun h => hne (List.cons.inj (List.cons.inj h).2).2⟩
    | _ => cases hsame

/-- On one system, where either all paths start at the root or none does. -/
theorem text_below_iff_of_same (h : a.volume = .root → b.volume = .root) :
    a.text ++ ['/'] <+: b.text ↔ ¬ a.IsRoot ∧ a.Contains b := by
  by_cases ha : a.IsRoot
  · refine iff_of_false (fun hstart => ?_) fun hboth => hboth.1 ha
    have hkind := kind_eq (by rw [Location.text_of_isRoot ha]; exact le_rfl) hstart
    rw [Location.text_of_isRoot ha] at hkind hstart
    by_cases hb : b.IsRoot
    · rw [Location.text_of_isRoot hb] at hstart
      exact absurd hstart.length_le (by decide)
    · have hkindb := kind_text hb []
      rw [append_nil, h ha.1, ← hkind] at hkindb
      exact absurd hkindb (by decide)
  · rw [text_below_iff ha]
    exact ⟨fun hcontains => ⟨ha, hcontains⟩, fun hboth => hboth.2⟩

/-- Different paths have different texts. -/
theorem text_injective (h : a.text = b.text) : a = b := by
  -- what is below one of them is below the other
  have hside : ∀ {a b : Location}, a.text = b.text → ¬ a.IsRoot → ¬ b.IsRoot →
      a.volume = b.volume ∧ a.names.length ≤ b.names.length ∧ ∀ n, a.names <+: b.names ++ [n] := by
    intro a b h ha hb
    have hbelow : ∀ n : Name, a.Contains { b with names := b.names ++ [n] } := by
      intro n
      have hnot : ¬ Location.IsRoot { b with names := b.names ++ [n] } :=
        fun hroot => absurd hroot.2 (by simp)
      refine (text_below_iff ha).mp ?_
      rw [h, Location.text_of_not_isRoot hb, Location.text_of_not_isRoot hnot]
      simp only [joined_append, joined, append_nil, append_assoc]
      exact (prefix_append_right_inj _).mpr ((prefix_append_right_inj _).mpr
        (cons_prefix_cons.mpr ⟨rfl, nil_prefix⟩))
    obtain ⟨hvolume, hstart, hne⟩ := hbelow ⟨['a'], by simp, by simp⟩
    refine ⟨hvolume, ?_, fun n => (hbelow n).2.1⟩
    by_contra hlong
    have hle := hstart.length_le
    rw [length_append, length_singleton] at hle
    exact hne (hstart.eq_of_length (by rw [length_append, length_singleton]; omega))
  have hroot : ∀ {a b : Location}, a.text = b.text → a.IsRoot → b.IsRoot := by
    intro a b h ha
    by_contra hb
    have hslash := kind_text hb ['/']
    have hletter := kind_text hb ['a']
    rw [← h, Location.text_of_isRoot ha] at hslash hletter
    exact absurd (hslash.trans hletter.symm) (by decide)
  by_cases ha : a.IsRoot
  · have hb := hroot h ha
    obtain ⟨va, ns⟩ := a
    obtain ⟨vb, ms⟩ := b
    obtain ⟨rfl, rfl⟩ := ha
    obtain ⟨rfl, rfl⟩ := hb
    rfl
  · have hb : ¬ b.IsRoot := fun hb => ha (hroot h.symm hb)
    obtain ⟨hvolume, hle, hstart⟩ := hside h ha hb
    obtain ⟨-, hge, -⟩ := hside h.symm hb ha
    have hnames : a.names = b.names := by
      have hlength : a.names.length = b.names.length := by omega
      obtain ⟨x, hx⟩ := hstart ⟨['a'], by simp, by simp⟩
      exact (append_inj hx hlength).1
    obtain ⟨va, ns⟩ := a
    obtain ⟨vb, ms⟩ := b
    cases hvolume
    cases hnames
    rfl

end Qbutt
