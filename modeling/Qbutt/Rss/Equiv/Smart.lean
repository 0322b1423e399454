import Mathlib.Data.List.Nodup
import Qbutt.Algorithm.Transition
import Qbutt.Rss.Rule

/-!
# The smart filter over a run

No release is downloaded twice, whatever the filter had remembered before, as long as the first
article that is taken of an episode is no repack or proper one (`noDuplicates`).  Of a first article
only the plain name of its episode is remembered, so that a repack which comes first is followed by
another one (`repack_first_repeated`).
-/

namespace Qbutt.Rss

open List

variable {Date : Type} {env : Surroundings Date}

open AutoDownloadRule

/-! ### The calls -/

/-- A rule and the titles that it has accepted, the last one at the end. -/
structure Session (Date : Type) where
  rule : AutoDownloadRule Date
  accepted : List (List Char)

inductive Call (Date : Type) where
  | accepts (article : Article Date)
  | «matches» (article : Article Date)

namespace Session

def call (env : Surroundings Date) (s : Session Date) : Call Date → Session Date
  | .accepts article =>
    let (taken, rule') := s.rule.accepts env article
    ⟨rule', if taken then s.accepted ++ [article.title] else s.accepted⟩
  | .matches article => { s with rule := (s.rule.matches env article).2 }

/-- The calls from a session that has accepted nothing yet, of a rule with the smart filter. -/
def calls (env : Surroundings Date) : System (Session Date) (Call Date) where
  initial s := s.rule.smartFilter = true ∧ s.accepted = []
  step s c := some (s.call env c)

end Session

/-- No release is among the titles twice. -/
structure NoDuplicates (env : Surroundings Date) (accepted : List (List Char)) : Prop where
  off : env.downloadRepacks = false → (accepted.map env.computeEpisodeName).Nodup
  on : env.downloadRepacks = true →
    (accepted.map fun title =>
      (env.computeEpisodeName title, isRepack env title, isProper env title)).Nodup
  both : env.downloadRepacks = true → accepted.Pairwise fun earlier later =>
    env.computeEpisodeName later = env.computeEpisodeName earlier →
      isRepack env earlier = true → isProper env earlier = true →
        isRepack env later = isProper env later

/-- The filters in front of the smart one let the article pass. -/
def AutoDownloadRule.passes (env : Surroundings Date) (rule : AutoDownloadRule Date)
    (article : Article Date) : Bool :=
  !rule.isIgnored env article.date && rule.matchesMustContainExpression env article.title &&
    rule.matchesMustNotContainExpression env article.title &&
    matchesEpisodeFilterExpression env.written rule.episodeFilter article.title

/-- A repack or proper article comes to the smart filter as the first one of its episode. -/
def RepackFirst (env : Surroundings Date) (s : Session Date) : Call Date → Prop
  | .accepts article =>
    env.downloadRepacks = true ∧ s.rule.passes env article = true ∧
      env.computeEpisodeName article.title ≠ [] ∧
      env.computeEpisodeName article.title ∉ s.rule.previouslyMatchedEpisodes ∧
      (isRepack env article.title = true ∨ isProper env article.title = true)
  | .matches _ => False

instance (s : Session Date) (c : Call Date) : Decidable (RepackFirst env s c) :=
  match c with
  | .accepts _ => inferInstanceAs (Decidable (_ ∧ _ ∧ _ ∧ _ ∧ _))
  | .matches _ => inferInstanceAs (Decidable False)

/-! ### What one call does -/

variable {rule rule' : AutoDownloadRule Date} {article : Article Date} {taken : Bool}
  {title : List Char} {s : Session Date}

theorem matches_of_passes (h : rule.passes env article = true) :
    rule.matches env article =
      { rule with lastComputedEpisodes := [] }.matchesSmartEpisodeFilter env article.title := by
  unfold AutoDownloadRule.passes at h
  simp only [Bool.and_eq_true, Bool.not_eq_true'] at h
  obtain ⟨⟨⟨hignored, hmust⟩, hnot⟩, hepisode⟩ := h
  unfold AutoDownloadRule.matches
  rw [hignored, hmust, hnot, hepisode]
  rfl

theorem matches_of_not_passes (h : rule.passes env article = false) :
    ∃ computed, rule.matches env article = (false, { rule with lastComputedEpisodes := computed }) := by
  unfold AutoDownloadRule.passes at h
  unfold AutoDownloadRule.matches
  split_ifs with hignored hmust hnot hepisode
  · exact ⟨rule.lastComputedEpisodes, rfl⟩
  · exact ⟨rule.lastComputedEpisodes, rfl⟩
  · exact ⟨rule.lastComputedEpisodes, rfl⟩
  · exact ⟨[], rfl⟩
  · simp_all

/-- What the smart filter lets pass, and what it remembers of it. -/
inductive Computes (env : Surroundings Date) (rule : AutoDownloadRule Date) (title : List Char) :
    List (List Char) → Prop where
  | first (hnew : env.computeEpisodeName title ∉ rule.previouslyMatchedEpisodes) :
      Computes env rule title [env.computeEpisodeName title]
  | again (hrepacks : env.downloadRepacks = true)
      (hseen : env.computeEpisodeName title ∈ rule.previouslyMatchedEpisodes)
      (hmarked : isRepack env title = true ∨ isProper env title = true)
      (hnew : fullEpisode (env.computeEpisodeName title) (isRepack env title) (isProper env title) ∉
        rule.previouslyMatchedEpisodes) :
      Computes env rule title
        (fullEpisode (env.computeEpisodeName title) (isRepack env title) (isProper env title) ::
          if isRepack env title && isProper env title then
            [env.computeEpisodeName title ++ "-REPACK".toList,
              env.computeEpisodeName title ++ "-PROPER".toList]
          else [])

variable (env rule) in
theorem smart_cases (hsmart : rule.smartFilter = true) (title : List Char) :
    (rule.matchesSmartEpisodeFilter env title = (false, rule)) ∨
      env.computeEpisodeName title ≠ [] ∧
      ∃ computed, Computes env rule title computed ∧
        rule.matchesSmartEpisodeFilter env title =
          (true, { rule with lastComputedEpisodes := rule.lastComputedEpisodes ++ computed }) := by
  unfold matchesSmartEpisodeFilter
  rw [hsmart]
  extract_lets episodeStr repack proper fullEpisodeStr
  simp only [Bool.not_true, Bool.false_eq_true, if_false]
  by_cases hempty : episodeStr.isEmpty = true
  · rw [if_pos hempty]
    exact .inl rfl
  rw [if_neg hempty]
  have hne : episodeStr ≠ [] := fun h => hempty (isEmpty_iff.mpr h)
  by_cases hseen : episodeStr ∈ rule.previouslyMatchedEpisodes
  · rw [if_pos hseen]
    by_cases hoff : (!env.downloadRepacks) = true
    · rw [if_pos hoff]
      exact .inl rfl
    rw [if_neg hoff]
    by_cases hplain : (!repack && !proper) = true
    · rw [if_pos hplain]
      exact .inl rfl
    rw [if_neg hplain]
    by_cases hfull : fullEpisodeStr ∈ rule.previouslyMatchedEpisodes
    · rw [if_pos hfull]
      exact .inl rfl
    · rw [if_neg hfull]
      refine .inr ⟨hne, _, .again (by simpa using hoff) hseen ?_ hfull, rfl⟩
      by_contra hnot
      rw [not_or, Bool.not_eq_true, Bool.not_eq_true] at hnot
      exact hplain (by simp [repack, proper, hnot])
  · rw [if_neg hseen]
    exact .inr ⟨hne, _, .first hseen, rfl⟩

variable (env) in
theorem matches_kept (hsmart : rule.smartFilter = true) (article : Article Date) :
    ∃ taken computed,
      rule.matches env article = (taken, { rule with lastComputedEpisodes := computed }) := by
  cases hpasses : rule.passes env article with
  | false =>
    obtain ⟨computed, h⟩ := matches_of_not_passes hpasses
    exact ⟨false, computed, h⟩
  | true =>
    rw [matches_of_passes hpasses]
    rcases smart_cases env { rule with lastComputedEpisodes := [] } hsmart article.title with
      h | ⟨-, computed, -, h⟩
    · exact ⟨false, [], h⟩
    · exact ⟨true, [] ++ computed, h⟩

variable (env) in
theorem accepts_cases (hsmart : rule.smartFilter = true) (article : Article Date) :
    (∃ computed, rule.accepts env article =
      (false, { rule with lastComputedEpisodes := computed })) ∨
      rule.passes env article = true ∧ env.computeEpisodeName article.title ≠ [] ∧
      ∃ computed, Computes env rule article.title computed ∧
        rule.accepts env article =
          (true, { rule with
            lastMatch := article.date
            previouslyMatchedEpisodes := rule.previouslyMatchedEpisodes ++ computed
            lastComputedEpisodes := [] }) := by
  unfold AutoDownloadRule.accepts
  cases hpasses : rule.passes env article with
  | false =>
    obtain ⟨computed, h⟩ := matches_of_not_passes hpasses
    rw [h]
    exact .inl ⟨computed, rfl⟩
  | true =>
    rw [matches_of_passes hpasses]
    rcases smart_cases env { rule with lastComputedEpisodes := [] } hsmart article.title with
      h | ⟨hne, computed, hcomputed, h⟩
    · rw [h]
      exact .inl ⟨[], rfl⟩
    · rw [h]
      refine .inr ⟨rfl, hne, computed, ?_, rfl⟩
      cases hcomputed with
      | first hnew => exact .first hnew
      | again hrepacks hseen hmarked hnew => exact .again hrepacks hseen hmarked hnew

/-! ### What is remembered along a run -/

structure Remembers (env : Surroundings Date) (s : Session Date) : Prop where
  smart : s.rule.smartFilter = true
  noDuplicates : NoDuplicates env s.accepted
  named : ∀ title ∈ s.accepted,
    env.computeEpisodeName title ∈ s.rule.previouslyMatchedEpisodes
  marked : env.downloadRepacks = true → ∀ title ∈ s.accepted,
    isRepack env title = true ∨ isProper env title = true →
      fullEpisode (env.computeEpisodeName title) (isRepack env title) (isProper env title) ∈
        s.rule.previouslyMatchedEpisodes
  twice : env.downloadRepacks = true → ∀ title ∈ s.accepted,
    isRepack env title = true → isProper env title = true →
      fullEpisode (env.computeEpisodeName title) true false ∈ s.rule.previouslyMatchedEpisodes ∧
        fullEpisode (env.computeEpisodeName title) false true ∈ s.rule.previouslyMatchedEpisodes

theorem nodup_append_singleton {β γ : Type} {f : β → γ} {xs : List β} {x : β}
    (hxs : (xs.map f).Nodup) (hx : ∀ y ∈ xs, f y ≠ f x) : ((xs ++ [x]).map f).Nodup := by
  rw [map_append, nodup_append]
  refine ⟨hxs, nodup_singleton _, fun y hy z hz => ?_⟩
  obtain ⟨y, hy, rfl⟩ := mem_map.mp hy
  rw [map_singleton, mem_singleton] at hz
  exact hz ▸ hx y ‹_›

theorem NoDuplicates.append {accepted : List (List Char)} (h : NoDuplicates env accepted)
    (hoff : env.downloadRepacks = false → ∀ earlier ∈ accepted,
      env.computeEpisodeName earlier ≠ env.computeEpisodeName title)
    (hon : env.downloadRepacks = true → ∀ earlier ∈ accepted,
      env.computeEpisodeName title = env.computeEpisodeName earlier →
        ¬ (isRepack env title = isRepack env earlier ∧ isProper env title = isProper env earlier))
    (hboth : env.downloadRepacks = true → ∀ earlier ∈ accepted,
      env.computeEpisodeName title = env.computeEpisodeName earlier →
        isRepack env earlier = true → isProper env earlier = true →
          isRepack env title = isProper env title) :
    NoDuplicates env (accepted ++ [title]) where
  off hrepacks := nodup_append_singleton (h.off hrepacks) (hoff hrepacks)
  on hrepacks := by
    apply nodup_append_singleton (h.on hrepacks)
    intro earlier hmem heq
    rw [Prod.mk.injEq, Prod.mk.injEq] at heq
    exact hon hrepacks earlier hmem heq.1.symm ⟨heq.2.1.symm, heq.2.2.symm⟩
  both hrepacks := by
    rw [pairwise_append]
    refine ⟨h.both hrepacks, pairwise_singleton _ _, fun earlier hmem later hlater => ?_⟩
    rw [mem_singleton.mp hlater]
    exact hboth hrepacks earlier hmem

/-- The first article of an episode, plain where repacks are downloaded. -/
theorem Remembers.first {date : Date} (h : Remembers env s)
    (hnew : env.computeEpisodeName title ∉ s.rule.previouslyMatchedEpisodes)
    (hplain : env.downloadRepacks = true → isRepack env title = false ∧ isProper env title = false)
    : Remembers env
      ⟨{ s.rule with
          lastMatch := date
          previouslyMatchedEpisodes :=
            s.rule.previouslyMatchedEpisodes ++ [env.computeEpisodeName title]
          lastComputedEpisodes := [] }, s.accepted ++ [title]⟩ := by
  have hother : ∀ earlier ∈ s.accepted,
      env.computeEpisodeName earlier ≠ env.computeEpisodeName title := by
    intro earlier hmem heq
    exact hnew (heq ▸ h.named earlier hmem)
  refine ⟨h.smart, h.noDuplicates.append (fun _ => hother) ?_ ?_, ?_, ?_, ?_⟩
  · intro _ earlier hmem heq
    exact absurd heq.symm (hother earlier hmem)
  · intro _ earlier hmem heq
    exact absurd heq.symm (hother earlier hmem)
  · intro earlier hmem
    rw [mem_append]
    rcases mem_append.mp hmem with hmem | hmem
    · exact .inl (h.named earlier hmem)
    · rw [mem_singleton.mp hmem]
      exact .inr mem_cons_self
  · intro hrepacks earlier hmem hmarked
    rcases mem_append.mp hmem with hmem | hmem
    · exact mem_append_left _ (h.marked hrepacks earlier hmem hmarked)
    · rw [mem_singleton.mp hmem, (hplain hrepacks).1, (hplain hrepacks).2] at hmarked
      simp at hmarked
  · intro hrepacks earlier hmem hrepack hproper
    rcases mem_append.mp hmem with hmem | hmem
    · obtain ⟨hone, htwo⟩ := h.twice hrepacks earlier hmem hrepack hproper
      exact ⟨mem_append_left _ hone, mem_append_left _ htwo⟩
    · rw [mem_singleton.mp hmem, (hplain hrepacks).1] at hrepack
      cases hrepack

/-- A repack or proper article of an episode that was seen before. -/
theorem Remembers.again {date : Date} (h : Remembers env s) (hrepacks : env.downloadRepacks = true)
    (hseen : env.computeEpisodeName title ∈ s.rule.previouslyMatchedEpisodes)
    (hmarked : isRepack env title = true ∨ isProper env title = true)
    (hnew : fullEpisode (env.computeEpisodeName title) (isRepack env title) (isProper env title) ∉
      s.rule.previouslyMatchedEpisodes) :
    Remembers env
      ⟨{ s.rule with
          lastMatch := date
          previouslyMatchedEpisodes := s.rule.previouslyMatchedEpisodes ++
            (fullEpisode (env.computeEpisodeName title) (isRepack env title) (isProper env title) ::
              if isRepack env title && isProper env title then
                [env.computeEpisodeName title ++ "-REPACK".toList,
                  env.computeEpisodeName title ++ "-PROPER".toList]
              else [])
          lastComputedEpisodes := [] }, s.accepted ++ [title]⟩ := by
  refine ⟨h.smart, h.noDuplicates.append ?_ ?_ ?_, ?_, ?_, ?_⟩
  · intro hoff
    rw [hoff] at hrepacks
    cases hrepacks
  · rintro - earlier hmem heq ⟨hrepack, hproper⟩
    rw [heq, hrepack, hproper] at hnew
    rw [hrepack, hproper] at hmarked
    exact hnew (h.marked hrepacks earlier hmem hmarked)
  · intro _ earlier hmem heq hrepack hproper
    obtain ⟨hone, htwo⟩ := h.twice hrepacks earlier hmem hrepack hproper
    rw [← heq] at hone htwo
    cases hr : isRepack env title <;> cases hp : isProper env title
    · rfl
    · rw [hr, hp] at hnew
      exact absurd htwo hnew
    · rw [hr, hp] at hnew
      exact absurd hone hnew
    · rfl
  · intro earlier hmem
    rcases mem_append.mp hmem with hmem | hmem
    · exact mem_append_left _ (h.named earlier hmem)
    · rw [mem_singleton.mp hmem]
      exact mem_append_left _ hseen
  · intro _ earlier hmem hearlier
    rcases mem_append.mp hmem with hmem | hmem
    · exact mem_append_left _ (h.marked hrepacks earlier hmem hearlier)
    · rw [mem_singleton.mp hmem]
      exact mem_append_right _ mem_cons_self
  · intro _ earlier hmem hrepack hproper
    rcases mem_append.mp hmem with hmem | hmem
    · obtain ⟨hone, htwo⟩ := h.twice hrepacks earlier hmem hrepack hproper
      exact ⟨mem_append_left _ hone, mem_append_left _ htwo⟩
    · rw [mem_singleton] at hmem
      subst hmem
      simp [hrepack, hproper, fullEpisode]

theorem Remembers.call {c : Call Date} (h : Remembers env s) (hfirst : ¬ RepackFirst env s c) :
    Remembers env (s.call env c) := by
  cases c with
  | «matches» article =>
    obtain ⟨taken, computed, hmatches⟩ := matches_kept env h.smart article
    rw [Session.call, hmatches]
    exact { h with }
  | accepts article =>
    rw [Session.call]
    rcases accepts_cases env h.smart article with
      ⟨computed, haccepts⟩ | ⟨hpasses, hne, computed, hcomputed, haccepts⟩
    · rw [haccepts]
      exact { h with }
    · rw [haccepts]
      cases hcomputed with
      | first hnew =>
        refine h.first hnew fun hrepacks => ?_
        have hnot : ¬ (isRepack env article.title = true ∨ isProper env article.title = true) :=
          fun hmarked => hfirst ⟨hrepacks, hpasses, hne, hnew, hmarked⟩
        rwa [not_or, Bool.not_eq_true, Bool.not_eq_true] at hnot
      | again hrepacks hseen hmarked hnew => exact h.again hrepacks hseen hmarked hnew

/-- No release is accepted twice in a run in which no repack or proper article comes to the smart
filter as the first one of its episode. -/
theorem noDuplicates {start s : Session Date} (hsmart : start.rule.smartFilter = true)
    (haccepted : start.accepted = [])
    (h : (Session.calls env).Steps (fun s c => ¬ RepackFirst env s c) start s) :
    NoDuplicates env s.accepted := by
  have hstart : Remembers env start := by
    refine ⟨hsmart, ?_, ?_, ?_, ?_⟩
    · rw [haccepted]
      exact ⟨fun _ => nodup_nil, fun _ => nodup_nil, fun _ => List.Pairwise.nil⟩
    · simp [haccepted]
    · simp [haccepted]
    · simp [haccepted]
  refine (h.preserves (P := Remembers env) ?_ hstart).noDuplicates
  rintro s c s' hs hfirst ⟨⟩
  exact hs.call hfirst

section Sample

/-- Surroundings without regular expressions, where an episode is named by what is in front of the
first space. -/
def plainSurroundings (downloadRepacks : Bool) : Surroundings ℕ where
  hasMatch _ _ _ := false
  wildcards expression := expression.splitOn ' '
  written _ _ := .set fun _ => false
  toCaseFolded := Char.toLower
  isValid date := 0 < date
  addDays date days := date + days.toNat
  earlier date date' := date < date'
  computeEpisodeName title := title.takeWhile (· != ' ')
  downloadRepacks

def smartRule : AutoDownloadRule ℕ where
  mustContain := []
  mustNotContain := []
  episodeFilter := []
  useRegex := false
  ignoreDays := 0
  lastMatch := 0
  smartFilter := true
  previouslyMatchedEpisodes := []
  lastComputedEpisodes := []

theorem noDuplicates_plain_first :
    ∃ s : Session ℕ, s.accepted = ["1x1".toList, "1x1 REPACK a".toList] ∧
      NoDuplicates (plainSurroundings true) s.accepted := by
  have hrun : (Session.calls (plainSurroundings true)).Steps
      (fun s c => ¬ RepackFirst (plainSurroundings true) s c) ⟨smartRule, []⟩ _ :=
    ((System.Steps.refl.tail (a := .accepts ⟨"1x1".toList, 1⟩) (by decide +kernel) rfl).tail
      (a := .accepts ⟨"1x1 REPACK a".toList, 2⟩) (by decide +kernel) rfl).tail
      (a := .accepts ⟨"1x1 REPACK b".toList, 3⟩) (by decide +kernel) rfl
  exact ⟨_, by decide +kernel, noDuplicates rfl rfl hrun⟩

theorem repack_first_repeated :
    ¬ ∀ (env : Surroundings ℕ) (rule : AutoDownloadRule ℕ) (calls : List (Call ℕ)),
      rule.smartFilter = true →
        NoDuplicates env (calls.foldl (Session.call env) ⟨rule, []⟩).accepted := by
  intro h
  have hon := (h (plainSurroundings true) smartRule
    [.accepts ⟨"1x1 REPACK a".toList, 1⟩, .accepts ⟨"1x1 REPACK b".toList, 2⟩] rfl).on rfl
  revert hon
  decide +kernel

end Sample

end Qbutt.Rss
