import Mathlib.Data.Finset.Card
import Qbutt.Translation.Context

/-!
# What a context learns

Merging added terms and facts into a context keeps it valid unless a term gets more than 16 forms
(`next_valid_iff`), since the forms that are merged into an entry are not counted.  Applying additions
batch by batch has the same outcome as applying all of them at once (`batches_commute`).
-/

namespace Qbutt.Translation

open List

open Qbutt.Rust (ensure validateDistinct ensure_eq_ok validateDistinct_eq_ok)

variable {P C : Type} [DecidableEq P] {R : References P C} {publication : P}
  {context next : TranslationContext C} {additions : ContextAdditions C}
  {segments segments' : List (EvidenceSegment C)} {terms terms' : List (TranslationTerm C)}
  {facts facts' : List (ConfirmedFact C)} {term : TranslationTerm C} {fact : ConfirmedFact C}

/-! ### Valid contexts -/

/-- A term that is valid but for the number of its forms. -/
structure TranslationTerm.Sound (R : References P C) (publication : P) (term : TranslationTerm C) :
    Prop where
  source : validateText term.source 200 = .ok ()
  target : validateText term.target 300 = .ok ()
  forms : ∀ form ∈ term.forms, validateForm R publication form = .ok ()
  nodup : (term.forms.map TranslationForm.source).Nodup
  evidence : validateReference R publication term.evidence = .ok ()

theorem validateTerm_eq_ok :
    validateTerm R publication term = .ok () ↔
      term.forms.length ≤ 16 ∧ term.Sound R publication := by
  unfold validateTerm
  constructor
  · intro h
    obtain ⟨⟨⟩, hsource, h⟩ := bind_eq_ok.mp h
    obtain ⟨⟨⟩, htarget, h⟩ := bind_eq_ok.mp h
    obtain ⟨⟨⟩, hlength, h⟩ := bind_eq_ok.mp h
    obtain ⟨⟨⟩, hforms, hevidence⟩ := bind_eq_ok.mp h
    obtain ⟨hforms, hnodup, -⟩ := validateDistinct_eq_ok.mp hforms
    exact ⟨of_decide_eq_true (ensure_eq_ok.mp hlength), hsource, htarget, hforms, hnodup, hevidence⟩
  · rintro ⟨hlength, hsource, htarget, hforms, hnodup, hevidence⟩
    refine bind_eq_ok.mpr ⟨(), hsource, bind_eq_ok.mpr ⟨(), htarget, bind_eq_ok.mpr ⟨(), ?_, ?_⟩⟩⟩
    · exact ensure_eq_ok.mpr (decide_eq_true hlength)
    · refine bind_eq_ok.mpr ⟨(), ?_, hevidence⟩
      exact validateDistinct_eq_ok.mpr ⟨hforms, hnodup, fun _ _ => not_mem_nil⟩

structure TranslationContext.Valid (R : References P C) (publication : P)
    (context : TranslationContext C) : Prop where
  terms_le : context.terms.length ≤ maxTerms
  facts_le : context.facts.length ≤ maxFacts
  terms : ∀ term ∈ context.terms, validateTerm R publication term = .ok ()
  sources : (context.terms.map TranslationTerm.source).Nodup
  facts : ∀ fact ∈ context.facts, validateFact R publication fact = .ok ()
  subjects : (context.facts.map fun fact => (fact.subject, fact.attributeName)).Nodup

theorem validate_eq_ok :
    context.validate R publication = .ok () ↔ context.Valid R publication := by
  unfold TranslationContext.validate
  constructor
  · intro h
    obtain ⟨⟨⟩, hlimits, h⟩ := bind_eq_ok.mp h
    obtain ⟨⟨⟩, hterms, hfacts⟩ := bind_eq_ok.mp h
    obtain ⟨hterms, hsources, -⟩ := validateDistinct_eq_ok.mp hterms
    obtain ⟨hfacts, hsubjects, -⟩ := validateDistinct_eq_ok.mp hfacts
    have hlimits := ensure_eq_ok.mp hlimits
    rw [Bool.and_eq_true, decide_eq_true_eq, decide_eq_true_eq] at hlimits
    exact ⟨hlimits.1, hlimits.2, hterms, hsources, hfacts, hsubjects⟩
  · rintro ⟨hterms_le, hfacts_le, hterms, hsources, hfacts, hsubjects⟩
    refine bind_eq_ok.mpr ⟨(), ensure_eq_ok.mpr ?_, bind_eq_ok.mpr ⟨(), ?_, ?_⟩⟩
    · rw [Bool.and_eq_true, decide_eq_true_eq, decide_eq_true_eq]
      exact ⟨hterms_le, hfacts_le⟩
    · exact validateDistinct_eq_ok.mpr ⟨hterms, hsources, fun _ _ => not_mem_nil⟩
    · exact validateDistinct_eq_ok.mpr ⟨hfacts, hsubjects, fun _ _ => not_mem_nil⟩

/-! ### Merging -/

def sources (forms : List (TranslationForm C)) : List String := forms.map TranslationForm.source

theorem mergeForms_spec {saved forms merged : List (TranslationForm C)}
    (h : mergeForms saved forms = .ok merged) :
    saved <+: merged ∧ (∀ form ∈ merged, form ∈ saved ∨ form ∈ forms) ∧
      (sources merged).toFinset = (sources saved).toFinset ∪ (sources forms).toFinset ∧
      ((sources saved).Nodup → (sources merged).Nodup) := by
  induction forms generalizing saved with
  | nil =>
    obtain rfl : saved = merged := Except.ok.inj h
    exact ⟨prefix_refl _, fun _ hform => .inl hform, by simp [sources], id⟩
  | cons form forms ih =>
    unfold mergeForms at h
    split at h
    next entry hfind =>
      obtain ⟨⟨⟩, -, h⟩ := bind_eq_ok.mp h
      obtain ⟨hstart, hmem, hsources, hnodup⟩ := ih h
      refine ⟨hstart, fun f hf => (hmem f hf).imp_right (mem_cons_of_mem form), ?_, hnodup⟩
      have hknown : form.source ∈ sources saved := by
        have hsource : entry.source = form.source := by simpa using List.find?_some hfind
        exact hsource ▸ mem_map_of_mem (mem_of_find?_eq_some hfind)
      rw [hsources]
      ext source
      simp only [sources, map_cons, Finset.mem_union, mem_toFinset, mem_cons]
      constructor
      · exact Or.imp_right .inr
      · rintro (hsaved | rfl | hforms)
        · exact .inl hsaved
        · exact .inl hknown
        · exact .inr hforms
    next hfind =>
      obtain ⟨hstart, hmem, hsources, hnodup⟩ := ih h
      refine ⟨(prefix_append saved [form]).trans hstart, fun f hf => ?_, ?_, fun hsaved => ?_⟩
      · rcases hmem f hf with hsaved | hforms
        · rcases mem_append.mp hsaved with hsaved | hform
          · exact .inl hsaved
          · exact .inr (mem_singleton.mp hform ▸ mem_cons_self)
        · exact .inr (mem_cons_of_mem form hforms)
      · rw [hsources]
        ext source
        simp [sources]
      · refine hnodup ?_
        rw [sources, map_append, map_singleton]
        refine nodup_append.mpr ⟨hsaved, nodup_singleton _, fun source hsource _ hform => ?_⟩
        obtain ⟨entry, hentry, rfl⟩ := mem_map.mp hsource
        obtain rfl := mem_singleton.mp hform
        simpa using List.find?_eq_none.mp hfind entry hentry

/-- How a term is merged: into the one entry with its source, or not at all. -/
inductive Merges (term : TranslationTerm C) :
    List (TranslationTerm C) → List (TranslationTerm C) → Prop where
  | mk (before after : List (TranslationTerm C)) {entry : TranslationTerm C}
    {forms : List (TranslationForm C)} (hsource : entry.source = term.source)
    (htarget : entry.target = term.target) (hforms : mergeForms entry.forms term.forms = .ok forms) :
    Merges term (before ++ entry :: after) (before ++ { entry with forms := forms } :: after)

theorem mergeTerm_spec {merged : Option (List (TranslationTerm C))}
    (h : mergeTerm term terms = .ok merged) :
    (merged = none ∧ ∀ entry ∈ terms, entry.source ≠ term.source) ∨
      ∃ terms', merged = some terms' ∧ Merges term terms terms' := by
  induction terms generalizing merged with
  | nil =>
    cases h
    exact .inl ⟨rfl, nofun⟩
  | cons entry entries ih =>
    unfold mergeTerm at h
    split_ifs at h with hsource
    · obtain ⟨⟨⟩, htarget, h⟩ := bind_eq_ok.mp h
      obtain ⟨forms, hforms, h⟩ := bind_eq_ok.mp h
      cases h
      have htarget := of_decide_eq_true (ensure_eq_ok.mp htarget)
      exact .inr ⟨_, rfl, .mk [] entries hsource htarget hforms⟩
    · obtain ⟨merged', hmerged, h⟩ := bind_eq_ok.mp h
      cases h
      rcases ih hmerged with ⟨rfl, hnone⟩ | ⟨terms', rfl, hmerges⟩
      · refine .inl ⟨rfl, fun e he => ?_⟩
        rcases mem_cons.mp he with rfl | he
        · exact hsource
        · exact hnone e he
      · refine .inr ⟨_, rfl, ?_⟩
        cases hmerges with
        | mk before after hs ht hf => exact .mk (entry :: before) after hs ht hf

/-! ### Counting forms -/

def formSources (terms : List (TranslationTerm C)) (source : String) : Finset String :=
  ((terms.filter fun term => term.source = source).flatMap fun term => sources term.forms).toFinset

/-- A term would have more than 16 forms with what is added. -/
def overfull (context : TranslationContext C) (additions : ContextAdditions C) : Prop :=
  ∃ term ∈ context.terms ++ additions.terms,
    16 < (formSources (context.terms ++ additions.terms) term.source).card

theorem mem_formSources {source form : String} :
    form ∈ formSources terms source ↔
      ∃ term ∈ terms, term.source = source ∧ form ∈ sources term.forms := by
  simp [formSources, and_assoc]

/-- What holds of the entries after some terms of the additions, all of which are in `seen`. -/
structure Collected (R : References P C) (publication : P) (seen terms : List (TranslationTerm C)) :
    Prop where
  sound : ∀ term ∈ terms, term.Sound R publication
  nodup : (terms.map TranslationTerm.source).Nodup
  length_le : terms.length ≤ maxTerms
  forms : ∀ term ∈ terms, (sources term.forms).toFinset = formSources seen term.source
  known : ∀ term ∈ seen, ∃ entry ∈ terms, entry.source = term.source
  origin : ∀ entry ∈ terms, ∃ term ∈ seen, term.source = entry.source

theorem formSources_append (seen : List (TranslationTerm C)) (term : TranslationTerm C)
    (source : String) : formSources (seen ++ [term]) source =
      if term.source = source then formSources seen source ∪ (sources term.forms).toFinset
      else formSources seen source := by
  ext form
  split_ifs with h
  · simp [mem_formSources, or_and_right, exists_or, h]
  · simp [mem_formSources, or_and_right, exists_or, h]

theorem checkTerm_sound [DecidableEq C]
    (h : checkTerm R publication segments term = .ok ()) : term.Sound R publication := by
  obtain ⟨⟨⟩, hvalid, -⟩ := bind_eq_ok.mp h
  exact (validateTerm_eq_ok.mp hvalid).2

theorem Collected.start (h : context.Valid R publication) :
    Collected R publication context.terms context.terms := by
  refine ⟨fun term hterm => (validateTerm_eq_ok.mp (h.terms term hterm)).2, h.sources, h.terms_le,
    fun term hterm => ?_, fun term hterm => ⟨term, hterm, rfl⟩, fun term hterm => ⟨term, hterm, rfl⟩⟩
  ext form
  rw [mem_toFinset, mem_formSources]
  constructor
  · exact fun hform => ⟨term, hterm, rfl, hform⟩
  · rintro ⟨other, hother, heq, hform⟩
    obtain rfl := inj_on_of_nodup_map h.sources hother hterm heq
    exact hform

variable {seen : List (TranslationTerm C)}

theorem Collected.merge (h : Collected R publication seen terms) (hterm : term.Sound R publication)
    (hmerges : Merges term terms terms') : Collected R publication (seen ++ [term]) terms' := by
  obtain ⟨before, after, hsource, htarget, hforms⟩ := hmerges
  rename_i entry forms
  obtain ⟨-, hmem, hunion, hnodup⟩ := mergeForms_spec hforms
  have hentry : entry ∈ before ++ entry :: after := by simp
  have hsound := h.sound entry hentry
  have hsame : (before ++ { entry with forms := forms } :: after).map TranslationTerm.source =
      (before ++ entry :: after).map TranslationTerm.source := by simp
  -- Entries other than the merged one keep their forms, and no new ones are counted for them.
  have hcases : ∀ e ∈ before ++ { entry with forms := forms } :: after,
      e = { entry with forms := forms } ∨ (e ∈ before ++ entry :: after ∧ e.source ≠ term.source) := by
    intro e he
    have hnodup' := h.nodup
    rw [map_append, map_cons, nodup_middle, nodup_cons, ← map_append]
      at hnodup'
    rw [mem_append, mem_cons] at he
    have hother : e ∈ before ++ after → e.source ≠ term.source := by
      intro he heq
      refine hnodup'.1 ?_
      rw [hsource, ← heq]
      exact mem_map_of_mem he
    rcases he with he | rfl | he
    · exact .inr ⟨mem_append_left _ he, hother (mem_append_left _ he)⟩
    · exact .inl rfl
    · exact .inr ⟨mem_append_right _ (mem_cons_of_mem _ he),
        hother (mem_append_right _ he)⟩
  refine ⟨fun e he => ?_, hsame ▸ h.nodup, ?_, fun e he => ?_, fun e he => ?_, fun e he => ?_⟩
  · rcases hcases e he with rfl | ⟨he, -⟩
    · refine ⟨hsound.source, hsound.target, fun form hform => ?_, hnodup hsound.nodup,
        hsound.evidence⟩
      exact (hmem form hform).elim (hsound.forms form) (hterm.forms form)
    · exact h.sound e he
  · have hlength := h.length_le
    simp only [length_append, length_cons] at hlength ⊢
    exact hlength
  · rw [formSources_append]
    rcases hcases e he with rfl | ⟨he, hne⟩
    · rw [if_pos hsource.symm, ← h.forms entry hentry]
      exact hunion
    · rw [if_neg (Ne.symm hne)]
      exact h.forms e he
  · have hsources : ∀ source, (∃ e ∈ before ++ entry :: after, e.source = source) →
        ∃ e ∈ before ++ { entry with forms := forms } :: after, e.source = source := by
      rintro source ⟨e, he, rfl⟩
      have hmem : e.source ∈
          (before ++ { entry with forms := forms } :: after).map TranslationTerm.source :=
        hsame ▸ mem_map_of_mem he
      exact mem_map.mp hmem
    rcases mem_append.mp he with he | he
    · exact hsources _ (h.known e he)
    · obtain rfl := mem_singleton.mp he
      exact hsources _ ⟨entry, hentry, hsource⟩
  · rcases hcases e he with rfl | ⟨he, -⟩
    · exact ⟨term, mem_append_right _ (mem_singleton_self term), hsource.symm⟩
    · obtain ⟨other, hother, heq⟩ := h.origin e he
      exact ⟨other, mem_append_left _ hother, heq⟩

theorem Collected.push (h : Collected R publication seen terms) (hterm : term.Sound R publication)
    (hnew : ∀ entry ∈ terms, entry.source ≠ term.source) (hlength : terms.length < maxTerms) :
    Collected R publication (seen ++ [term]) (terms ++ [term]) := by
  have hunseen : ∀ other ∈ seen, other.source ≠ term.source := by
    intro other hother heq
    obtain ⟨entry, hentry, hsource⟩ := h.known other hother
    exact hnew entry hentry (hsource.trans heq)
  have hempty : formSources seen term.source = ∅ := by
    refine Finset.eq_empty_of_forall_notMem fun form hform => ?_
    obtain ⟨other, hother, heq, -⟩ := mem_formSources.mp hform
    exact hunseen other hother heq
  refine ⟨fun e he => ?_, ?_, ?_, fun e he => ?_, fun e he => ?_, fun e he => ?_⟩
  · rcases mem_append.mp he with he | he
    · exact h.sound e he
    · exact mem_singleton.mp he ▸ hterm
  · rw [map_append, map_singleton]
    refine nodup_append.mpr ⟨h.nodup, nodup_singleton _, fun source hsource _ hmem => ?_⟩
    obtain ⟨entry, hentry, rfl⟩ := mem_map.mp hsource
    exact mem_singleton.mp hmem ▸ hnew entry hentry
  · rw [length_append, length_singleton]
    omega
  · rw [formSources_append]
    rcases mem_append.mp he with he | he
    · rw [if_neg (Ne.symm (hnew e he))]
      exact h.forms e he
    · obtain rfl := mem_singleton.mp he
      rw [if_pos rfl, hempty, Finset.empty_union]
  · rcases mem_append.mp he with he | he
    · obtain ⟨entry, hentry, heq⟩ := h.known e he
      exact ⟨entry, mem_append_left _ hentry, heq⟩
    · exact ⟨e, mem_append_right _ he, rfl⟩
  · rcases mem_append.mp he with he | he
    · obtain ⟨other, hother, heq⟩ := h.origin e he
      exact ⟨other, mem_append_left _ hother, heq⟩
    · exact ⟨e, mem_append_right _ he, rfl⟩

/-! ### Growing entries -/

/-- Entries with at least the same forms. -/
def Grown (terms terms' : List (TranslationTerm C)) : Prop :=
  ∀ term ∈ terms, ∃ term' ∈ terms', term'.source = term.source ∧ term'.target = term.target ∧
    term.forms ⊆ term'.forms

theorem Grown.refl (terms : List (TranslationTerm C)) : Grown terms terms :=
  fun term hterm => ⟨term, hterm, rfl, rfl, List.Subset.refl _⟩

theorem Grown.trans {terms'' : List (TranslationTerm C)} (h : Grown terms terms')
    (h' : Grown terms' terms'') : Grown terms terms'' := by
  intro term hterm
  obtain ⟨term', hterm', hsource, htarget, hforms⟩ := h term hterm
  obtain ⟨term'', hterm'', hsource', htarget', hforms'⟩ := h' term' hterm'
  exact ⟨term'', hterm'', hsource'.trans hsource, htarget'.trans htarget,
    List.Subset.trans hforms hforms'⟩

theorem Merges.grown (h : Merges term terms terms') : Grown terms terms' := by
  obtain ⟨before, after, -, -, hforms⟩ := h
  rename_i entry forms
  obtain ⟨hstart, -⟩ := mergeForms_spec hforms
  intro e he
  rw [mem_append, mem_cons] at he
  rcases he with he | rfl | he
  · exact ⟨e, mem_append_left _ he, rfl, rfl, List.Subset.refl _⟩
  · exact ⟨{ e with forms := forms }, mem_append_right _ mem_cons_self, rfl, rfl,
      hstart.subset⟩
  · exact ⟨e, mem_append_right _ (mem_cons_of_mem _ he), rfl, rfl, List.Subset.refl _⟩

theorem namesSubject_mono (hgrown : Grown terms terms') (h : namesSubject terms fact = true) :
    namesSubject terms' fact = true := by
  unfold namesSubject at h ⊢
  rw [Bool.or_eq_true, any_eq_true] at h ⊢
  refine h.imp_right fun ⟨term, hterm, hnames⟩ => ?_
  obtain ⟨term', hterm', hsource, htarget, hforms⟩ := hgrown term hterm
  refine ⟨term', hterm', ?_⟩
  rw [Bool.and_eq_true, Bool.or_eq_true, any_eq_true] at hnames ⊢
  rw [hsource, htarget]
  refine ⟨hnames.1, hnames.2.imp_right fun ⟨form, hform, hcontains⟩ => ?_⟩
  exact ⟨form, hforms hform, hcontains⟩

/-! ### Segments -/

/-- Segments of the same chapter with the same identifier are equal. -/
def Consistent (segments : List (EvidenceSegment C)) : Prop :=
  ∀ segment ∈ segments, ∀ other ∈ segments, segment.chapter = other.chapter →
    segment.id = other.id → segment = other

variable {p : EvidenceSegment C → Bool}

theorem filter_subset_filter (h : segments ⊆ segments') : segments.filter p ⊆ segments'.filter p :=
  fun _ hmem => mem_filter.mpr ⟨h (mem_filter.mp hmem).1, (mem_filter.mp hmem).2⟩

theorem Consistent.filter (h : Consistent segments) : Consistent (segments.filter p) :=
  fun segment hsegment other hother =>
    h segment (mem_filter.mp hsegment).1 other (mem_filter.mp hother).1

/-! ### One round of each loop -/

variable [DecidableEq C]

/-- What one added term does. -/
theorem applyTerm_spec (h : applyTerm R publication segments terms term = .ok terms') :
    checkTerm R publication segments term = .ok () ∧
      (Merges term terms terms' ∨
        (∀ entry ∈ terms, entry.source ≠ term.source) ∧ terms.length < maxTerms ∧
          terms' = terms ++ [term]) := by
  obtain ⟨⟨⟩, hcheck, h⟩ := bind_eq_ok.mp h
  obtain ⟨merged, hmerged, h⟩ := bind_eq_ok.mp h
  refine ⟨hcheck, ?_⟩
  rcases mergeTerm_spec hmerged with ⟨rfl, hnone⟩ | ⟨merged, rfl, hmerges⟩
  · obtain ⟨⟨⟩, hlimit, h⟩ := bind_eq_ok.mp h
    cases h
    exact .inr ⟨hnone, of_decide_eq_true (ensure_eq_ok.mp hlimit), rfl⟩
  · cases h
    exact .inl hmerges

/-- What one added fact does. -/
theorem applyFact_spec (h : applyFact R publication segments terms facts fact = .ok facts') :
    validateFact R publication fact = .ok () ∧ validateEvidence segments fact.evidence = .ok () ∧
      namesSubject terms fact = true ∧
      (facts' = facts ∨ facts.length < maxFacts ∧ facts' = facts ++ [fact] ∧
        ∀ entry ∈ facts, (entry.subject, entry.attributeName) ≠ (fact.subject, fact.attributeName)) := by
  obtain ⟨⟨⟩, hvalid, h⟩ := bind_eq_ok.mp h
  obtain ⟨⟨⟩, hevidence, h⟩ := bind_eq_ok.mp h
  obtain ⟨⟨⟩, hnames, h⟩ := bind_eq_ok.mp h
  refine ⟨hvalid, hevidence, ensure_eq_ok.mp hnames, ?_⟩
  split at h
  · obtain ⟨⟨⟩, -, h⟩ := bind_eq_ok.mp h
    exact .inl (Except.ok.inj h).symm
  next hfind =>
    obtain ⟨⟨⟩, hlimit, h⟩ := bind_eq_ok.mp h
    refine .inr ⟨of_decide_eq_true (ensure_eq_ok.mp hlimit), (Except.ok.inj h).symm,
      fun entry hentry heq => ?_⟩
    have hnot := List.find?_eq_none.mp hfind entry hentry
    rw [Prod.mk.injEq] at heq
    simp [heq.1, heq.2] at hnot

/-! ### Valid results -/

/-- The entries after all added terms. -/
theorem collected_of_foldlM (hvalid : context.Valid R publication)
    (h : additions.terms.foldlM (applyTerm R publication segments) context.terms = .ok terms) :
    Collected R publication (context.terms ++ additions.terms) terms := by
  refine foldlM_ok_induction (fun done terms => Collected R publication (context.terms ++ done) terms)
    h ?_ fun done term terms terms' _ hcollected hterm => ?_
  · rw [append_nil]
    exact .start hvalid
  · rw [← append_assoc]
    obtain ⟨hcheck, hmerges | ⟨hnew, hlength, rfl⟩⟩ := applyTerm_spec hterm
    · exact hcollected.merge (checkTerm_sound hcheck) hmerges
    · exact hcollected.push (checkTerm_sound hcheck) hnew hlength

/-- What holds of the facts after any of the additions. -/
structure SoundFacts (R : References P C) (publication : P) (facts : List (ConfirmedFact C)) :
    Prop where
  length_le : facts.length ≤ maxFacts
  valid : ∀ fact ∈ facts, validateFact R publication fact = .ok ()
  subjects : (facts.map fun fact => (fact.subject, fact.attributeName)).Nodup

theorem soundFacts_of_foldlM (hvalid : context.Valid R publication)
    (h : additions.facts.foldlM (applyFact R publication segments terms) context.facts = .ok facts) :
    SoundFacts R publication facts := by
  refine foldlM_ok_induction (fun _ facts => SoundFacts R publication facts) h
    ⟨hvalid.facts_le, hvalid.facts, hvalid.subjects⟩ fun _ fact facts facts' _ hsound hfact => ?_
  obtain ⟨hvalid, -, -, rfl | ⟨hlength, rfl, hnew⟩⟩ := applyFact_spec hfact
  · exact hsound
  · refine ⟨?_, fun f hf => ?_, ?_⟩
    · rw [length_append, length_singleton]
      omega
    · rcases mem_append.mp hf with hf | hf
      · exact hsound.valid f hf
      · exact mem_singleton.mp hf ▸ hvalid
    · rw [map_append, map_singleton]
      refine nodup_append.mpr ⟨hsound.subjects, nodup_singleton _, fun key hkey _ hmem => ?_⟩
      obtain ⟨entry, hentry, rfl⟩ := mem_map.mp hkey
      exact mem_singleton.mp hmem ▸ hnew entry hentry

theorem next_eq_ok (h : context.next R publication additions segments = .ok next) :
    context.Valid R publication ∧ ∃ terms facts,
      additions.terms.foldlM (applyTerm R publication
        (segments.filter fun segment => R.publication segment.chapter = publication))
          context.terms = .ok terms ∧
      additions.facts.foldlM (applyFact R publication
        (segments.filter fun segment => R.publication segment.chapter = publication) terms)
          context.facts = .ok facts ∧
      next.terms = terms ∧ next.facts = facts ∧
      (next = context ∨ (terms ≠ context.terms ∨ facts ≠ context.facts) ∧
        context.revision + 1 < 2 ^ 64 ∧ next.revision = context.revision + 1) := by
  unfold TranslationContext.next at h
  obtain ⟨⟨⟩, hvalid, h⟩ := bind_eq_ok.mp h
  obtain ⟨terms, hterms, h⟩ := bind_eq_ok.mp h
  obtain ⟨facts, hfacts, h⟩ := bind_eq_ok.mp h
  refine ⟨validate_eq_ok.mp hvalid, terms, facts, hterms, hfacts, ?_⟩
  dsimp only at h
  split_ifs at h with hsame
  · cases h
    exact ⟨rfl, rfl, .inl hsame⟩
  · obtain ⟨⟨⟩, hlimit, h⟩ := bind_eq_ok.mp h
    cases h
    refine ⟨rfl, rfl, .inr ⟨?_, of_decide_eq_true (ensure_eq_ok.mp hlimit), rfl⟩⟩
    by_contra hnot
    rw [not_or, not_ne_iff, not_ne_iff] at hnot
    exact hsame (by rw [hnot.1, hnot.2])

/-- The next context is valid unless a term has too many forms. -/
theorem next_valid_iff (h : context.next R publication additions segments = .ok next) :
    next.validate R publication = .ok () ↔ ¬ overfull context additions := by
  obtain ⟨hvalid, terms, facts, hterms, hfacts, hnext, hnext', -⟩ := next_eq_ok h
  have hcollected := collected_of_foldlM hvalid hterms
  have hsound := soundFacts_of_foldlM hvalid hfacts
  rw [validate_eq_ok]
  have hcount : ∀ entry ∈ terms, entry.forms.length =
      (formSources (context.terms ++ additions.terms) entry.source).card := by
    intro entry hentry
    have hnodup : (sources entry.forms).Nodup := (hcollected.sound entry hentry).nodup
    rw [← hcollected.forms entry hentry, toFinset_card_of_nodup hnodup, sources, length_map]
  constructor
  · rintro hvalid ⟨term, hterm, hmany⟩
    obtain ⟨entry, hentry, heq⟩ := hcollected.known term hterm
    have hlength := (validateTerm_eq_ok.mp (hvalid.terms entry (hnext ▸ hentry))).1
    rw [hcount entry hentry, heq] at hlength
    omega
  · intro hfew
    refine ⟨hnext ▸ hcollected.length_le, hnext' ▸ hsound.length_le, fun entry hentry => ?_,
      hnext ▸ hcollected.nodup, hnext' ▸ hsound.valid, hnext' ▸ hsound.subjects⟩
    rw [hnext] at hentry
    refine validateTerm_eq_ok.mpr ⟨?_, hcollected.sound entry hentry⟩
    obtain ⟨term, hterm, heq⟩ := hcollected.origin entry hentry
    by_contra hmany
    rw [hcount entry hentry, ← heq] at hmany
    exact hfew ⟨term, hterm, not_le.mp hmany⟩

/-! ### Batches -/

theorem findSegment_mono {chapter : C} {id : String} {segment : EvidenceSegment C}
    (hsub : segments ⊆ segments') (hconsistent : Consistent segments')
    (h : findSegment segments chapter id = some segment) :
    findSegment segments' chapter id = some segment := by
  have hmem : segment ∈ segments := mem_reverse.mp (mem_of_find?_eq_some h)
  have hkey : segment.chapter = chapter ∧ segment.id = id := by simpa using List.find?_some h
  cases hfind : findSegment segments' chapter id with
  | none =>
    have hnot := List.find?_eq_none.mp hfind segment (mem_reverse.mpr (hsub hmem))
    simp [hkey] at hnot
  | some other =>
    have hmem' : other ∈ segments' := mem_reverse.mp (mem_of_find?_eq_some hfind)
    have hkey' : other.chapter = chapter ∧ other.id = id := by simpa using List.find?_some hfind
    rw [hconsistent other hmem' segment (hsub hmem) (hkey'.1.trans hkey.1.symm)
      (hkey'.2.trans hkey.2.symm)]

theorem validateEvidence_mono {evidence : ContextEvidence C} (hsub : segments ⊆ segments')
    (hconsistent : Consistent segments') (h : validateEvidence segments evidence = .ok ()) :
    validateEvidence segments' evidence = .ok () := by
  unfold validateEvidence at h ⊢
  cases hfind : findSegment segments evidence.chapter evidence.segmentId with
  | none =>
    rw [hfind] at h
    cases h
  | some segment =>
    rw [hfind] at h
    rw [findSegment_mono hsub hconsistent hfind]
    exact h

theorem checkTerm_mono (hsub : segments ⊆ segments') (hconsistent : Consistent segments')
    (h : checkTerm R publication segments term = .ok ()) :
    checkTerm R publication segments' term = .ok () := by
  unfold checkTerm at h ⊢
  obtain ⟨⟨⟩, hvalid, h⟩ := bind_eq_ok.mp h
  obtain ⟨⟨⟩, hevidence, h⟩ := bind_eq_ok.mp h
  obtain ⟨⟨⟩, hpresent, hforms⟩ := bind_eq_ok.mp h
  refine bind_eq_ok.mpr ⟨(), hvalid, bind_eq_ok.mpr ⟨(), ?_, bind_eq_ok.mpr ⟨(), hpresent, ?_⟩⟩⟩
  · exact validateEvidence_mono hsub hconsistent hevidence
  · refine forM_eq_ok.mpr fun form hform => ?_
    obtain ⟨⟨⟩, hevidence, hpresent⟩ := bind_eq_ok.mp (forM_eq_ok.mp hforms form hform)
    exact bind_eq_ok.mpr ⟨(), validateEvidence_mono hsub hconsistent hevidence, hpresent⟩

theorem applyTerm_mono (hsub : segments ⊆ segments') (hconsistent : Consistent segments')
    (h : applyTerm R publication segments terms term = .ok terms') :
    applyTerm R publication segments' terms term = .ok terms' := by
  obtain ⟨⟨⟩, hcheck, h⟩ := bind_eq_ok.mp h
  exact bind_eq_ok.mpr ⟨(), checkTerm_mono hsub hconsistent hcheck, h⟩

theorem grown_of_foldlM {added : List (TranslationTerm C)}
    (h : added.foldlM (applyTerm R publication segments) terms = .ok terms') : Grown terms terms' := by
  refine foldlM_ok_induction (fun _ => Grown terms) h (.refl terms) fun _ term t t' _ hgrown hterm => ?_
  obtain ⟨-, hmerges | ⟨-, -, rfl⟩⟩ := applyTerm_spec hterm
  · exact hgrown.trans hmerges.grown
  · exact hgrown.trans fun e he => ⟨e, mem_append_left _ he, rfl, rfl, List.Subset.refl _⟩

theorem applyFact_mono (hsub : segments ⊆ segments') (hconsistent : Consistent segments')
    (hgrown : Grown terms terms')
    (h : applyFact R publication segments terms facts fact = .ok facts') :
    applyFact R publication segments' terms' facts fact = .ok facts' := by
  obtain ⟨⟨⟩, hvalid, h⟩ := bind_eq_ok.mp h
  obtain ⟨⟨⟩, hevidence, h⟩ := bind_eq_ok.mp h
  obtain ⟨⟨⟩, hnames, h⟩ := bind_eq_ok.mp h
  refine bind_eq_ok.mpr ⟨(), hvalid, bind_eq_ok.mpr ⟨(), ?_, bind_eq_ok.mpr ⟨(), ?_, h⟩⟩⟩
  · exact validateEvidence_mono hsub hconsistent hevidence
  · exact ensure_eq_ok.mpr (namesSubject_mono hgrown (ensure_eq_ok.mp hnames))

/-- Additions with the segments that the job has at that time. -/
abbrev Batch (C : Type) := ContextAdditions C × List (EvidenceSegment C)

def learnAll (R : References P C) (publication : P) :
    TranslationContext C → List (Batch C) → Except String (TranslationContext C)
  | context, [] => .ok context
  | context, (additions, segments) :: batches =>
    match context.apply R publication additions segments with
    | (.ok _, next) => learnAll R publication next batches
    | (.error error, _) => .error error

def allAdditions (batches : List (Batch C)) : ContextAdditions C where
  terms := batches.flatMap fun batch => batch.1.terms
  facts := batches.flatMap fun batch => batch.1.facts

variable {batches : List (Batch C)} {learned : TranslationContext C}

theorem learnAll_cons {batch : Batch C}
    (h : learnAll R publication context (batch :: batches) = .ok learned) :
    ∃ next, context.next R publication batch.1 batch.2 = .ok next ∧
      learnAll R publication next batches = .ok learned := by
  unfold learnAll TranslationContext.apply at h
  cases hnext : context.next R publication batch.1 batch.2 with
  | error error =>
    rw [hnext] at h
    cases h
  | ok next =>
    rw [hnext] at h
    exact ⟨next, rfl, h⟩

theorem learnAll_spec (hsub : ∀ batch ∈ batches, batch.2 ⊆ segments')
    (hconsistent : Consistent segments')
    (h : learnAll R publication context batches = .ok learned) :
    (allAdditions batches).terms.foldlM (applyTerm R publication
      (segments'.filter fun segment => R.publication segment.chapter = publication))
        context.terms = .ok learned.terms ∧
    (∀ terms, Grown learned.terms terms →
      (allAdditions batches).facts.foldlM (applyFact R publication
        (segments'.filter fun segment => R.publication segment.chapter = publication) terms)
          context.facts = .ok learned.facts) ∧
    Grown context.terms learned.terms ∧
    (learned = context ∨ context.revision + 1 < 2 ^ 64) := by
  induction batches generalizing context with
  | nil =>
    obtain rfl : context = learned := Except.ok.inj h
    exact ⟨rfl, fun _ _ => rfl, .refl _, .inl rfl⟩
  | cons batch batches ih =>
    obtain ⟨next, hnext, hrest⟩ := learnAll_cons h
    obtain ⟨hterms', hfacts', hgrown', hrevision'⟩ :=
      ih (fun b hb => hsub b (mem_cons_of_mem batch hb)) hrest
    obtain ⟨-, terms, facts, hterms, hfacts, rfl, rfl, hrevision⟩ := next_eq_ok hnext
    have hfilter := filter_subset_filter (p := fun segment =>
      decide (R.publication segment.chapter = publication)) (hsub batch mem_cons_self)
    have hgrown := grown_of_foldlM hterms
    refine ⟨?_, fun terms hterms'' => ?_, hgrown.trans hgrown', ?_⟩
    · -- The terms of this batch, with the segments at the end, and then the other ones.
      refine foldlM_append_ok (foldlM_ok_mono hterms fun term _ t t' hterm => ?_) hterms'
      exact applyTerm_mono hfilter hconsistent.filter hterm
    · refine foldlM_append_ok (foldlM_ok_mono hfacts fun fact _ f f' hfact => ?_)
        (hfacts' terms hterms'')
      exact applyFact_mono hfilter hconsistent.filter (hgrown'.trans hterms'') hfact
    · rcases hrevision with rfl | ⟨-, hlimit, -⟩
      · exact hrevision'
      · exact .inr hlimit

/-- If all batches can be applied one after the other, each with the segments that the job has at
that time, then all additions can be applied at once with the segments at the end, with the same
terms and facts; the revision is increased once if there is anything new. -/
theorem batches_commute {batches : List (Batch C)} {learned : TranslationContext C}
    (hvalid : context.validate R publication = .ok ())
    (hsub : ∀ batch ∈ batches, batch.2 ⊆ segments) (hconsistent : Consistent segments)
    (h : learnAll R publication context batches = .ok learned) :
    ∃ changed next,
      context.apply R publication (allAdditions batches) segments = (.ok changed, next) ∧
        next.terms = learned.terms ∧ next.facts = learned.facts ∧
        (changed ↔ learned.terms ≠ context.terms ∨ learned.facts ≠ context.facts) ∧
        next.revision = if changed then context.revision + 1 else context.revision := by
  obtain ⟨hterms, hfacts, -, hrevision⟩ := learnAll_spec hsub hconsistent h
  have hfacts := hfacts learned.terms (.refl _)
  have hloops : ∀ {next}, (if { context with terms := learned.terms, facts := learned.facts } =
        context then
      return { context with terms := learned.terms, facts := learned.facts }
    else do
      ensure (context.revision + 1 < 2 ^ 64) "translation context revision overflow"
      return { context with
        revision := context.revision + 1, terms := learned.terms, facts := learned.facts }) =
        Except.ok next →
      context.next R publication (allAdditions batches) segments = .ok next := fun h =>
    bind_eq_ok.mpr ⟨(), hvalid,
      bind_eq_ok.mpr ⟨learned.terms, hterms, bind_eq_ok.mpr ⟨learned.facts, hfacts, h⟩⟩⟩
  by_cases hsame : learned.terms = context.terms ∧ learned.facts = context.facts
  · obtain ⟨hterms', hfacts'⟩ := hsame
    have hnext : context.next R publication (allAdditions batches) segments = .ok context := by
      refine hloops ?_
      rw [hterms', hfacts']
      exact if_pos rfl
    refine ⟨false, context, ?_, hterms'.symm, hfacts'.symm, ?_, rfl⟩
    · unfold TranslationContext.apply
      rw [hnext]
      simp
    · simp [hterms', hfacts']
  · have hne : learned ≠ context := by
      rintro rfl
      exact hsame ⟨rfl, rfl⟩
    have hlimit := hrevision.resolve_left hne
    have hnext : context.next R publication (allAdditions batches) segments =
        .ok { context with
          revision := context.revision + 1, terms := learned.terms, facts := learned.facts } := by
      refine hloops ?_
      have hdiffers : ({ context with terms := learned.terms, facts := learned.facts } :
          TranslationContext C) ≠ context := by
        intro heq
        have hterms' := congrArg TranslationContext.terms heq
        have hfacts' := congrArg TranslationContext.facts heq
        exact hsame ⟨hterms', hfacts'⟩
      rw [if_neg hdiffers]
      exact bind_eq_ok.mpr ⟨(), ensure_eq_ok.mpr (decide_eq_true hlimit), rfl⟩
    refine ⟨true, { context with
      revision := context.revision + 1, terms := learned.terms, facts := learned.facts }, ?_, rfl, rfl,
      ?_, rfl⟩
    · unfold TranslationContext.apply
      rw [hnext]
      have hchanged : ({ context with
          revision := context.revision + 1, terms := learned.terms, facts := learned.facts } :
          TranslationContext C) ≠ context := by
        intro heq
        have hrev := congrArg TranslationContext.revision heq
        dsimp only at hrev
        omega
      simp [hchanged]
    · rw [not_and_or] at hsame
      exact ⟨fun _ => hsame, fun _ => rfl⟩

/-! ### A job -/

/-- Chapters that are numbered, of one publication. -/
def sampleReferences : References Unit ℕ := ⟨fun _ => (), fun _ => true⟩

/-- The segment of the first chapter. -/
def sampleSegment : EvidenceSegment ℕ := ⟨1, "s", "ab", none⟩

def sampleTerm (source : String) (forms : List String) : TranslationTerm ℕ :=
  ⟨source, "t", forms.map fun form => ⟨form, "f", ⟨1, "s", form, none⟩⟩, ⟨1, "s", source, none⟩⟩

/-- A first batch with one term, and a second one with a form of it. -/
def sampleBatches : List (Batch ℕ) :=
  [(⟨[sampleTerm "a" []], []⟩, [sampleSegment]), (⟨[sampleTerm "a" ["b"]], []⟩, [sampleSegment])]

theorem batches_commute_sample : ∃ changed next,
    TranslationContext.apply sampleReferences () ⟨0, [], []⟩ (allAdditions sampleBatches)
      [sampleSegment] = (.ok changed, next) ∧ next.terms = [sampleTerm "a" ["b"]] ∧ changed := by
  obtain ⟨changed, next, happly, hterms, -, hchanged, -⟩ :=
    @batches_commute Unit ℕ _ sampleReferences () ⟨0, [], []⟩ [sampleSegment] _ sampleBatches
      ⟨2, [sampleTerm "a" ["b"]], []⟩ rfl (by decide) (by simp [Consistent]) (by decide +kernel)
  exact ⟨changed, next, happly, hterms, hchanged.mpr (.inl nofun)⟩

end Qbutt.Translation
