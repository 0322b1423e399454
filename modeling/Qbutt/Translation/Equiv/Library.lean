import Qbutt.Translation.Equiv.Context
import Qbutt.Translation.Library

/-!
# Translations are accepted as a whole

A save changes the overlay, the context and the selection together or nothing at all, and only for
a current job that started from the stored context and whose provider is still the configured one
(`saveOverlay_atomic`).  The revision of a stored context increases with every change of it, and only
a reset makes an explicit selection one that is not (`acceptance_is_atomic`).
-/

namespace Qbutt.Translation

open Prog

variable {P C α : Type} {R : References P C}
  {tables tables' pending : Tables P C} {Good : Tables P C → Prop} {key : TranslationCacheKey C}
  {selection : TranslationSelection} {expected : ℕ} {additions : ContextAdditions C}
  {evidence : List (EvidenceSegment C)} {current : Current} {script : List Fate}
  {language : String} {publication : P}

/-! ### Transactions -/

def Unless (tables : Tables P C) (Good : Tables P C → Prop) (connection : Connection P C) : Prop :=
  connection.committed = tables ∨ Good connection.committed

/-- A transaction on the tables works on the given copy. -/
structure Working (tables pending : Tables P C) (connection : Connection P C) : Prop where
  committed : connection.committed = tables
  pending : connection.pending = pending

theorem keeps_execute {change : Tables P C → Tables P C} :
    Prog.Keeps (Unless tables Good) (Working tables pending) (execute change) fun _ =>
      Working tables (change pending) :=
  keeps_effect fun _ h hworking =>
    ⟨h, hworking.committed, congrArg change hworking.pending⟩

theorem keeps_query {read : Tables P C → Except LibraryError α} :
    Prog.Keeps (Unless tables Good) (Working tables pending) (query read) fun a connection =>
      read pending = .ok a ∧ Working tables pending connection := by
  refine keeps_bind keeps_attempt fun _ => keeps_get fun s _ hs => ?_
  refine keeps_ofExcept ?_
  rintro _ _ rfl a ha
  rw [hs.pending] at ha
  exact ⟨ha, hs⟩

theorem keeps_transaction {body : Prog LibraryError (Connection P C) α}
    (hbody : Prog.Keeps (Unless tables Good) (Working tables tables) body fun _ connection =>
      Good connection.pending) :
    Prog.Keeps (Unless tables Good) (fun connection => connection.committed = tables)
      (transaction body) fun _ connection => Good connection.committed := by
  refine keeps_bind (Q := fun _ => Working tables tables) (keeps_effect ?_) fun _ => ?_
  · rintro s h hs
    exact ⟨h, hs, hs⟩
  · refine keeps_bind hbody fun _ => ?_
    refine keeps_bind (Q := fun _ connection => Good connection.committed)
      (keeps_effect ?_) fun _ => keeps_pure fun _ _ h => h
    rintro s - hgood
    exact ⟨.inr hgood, hgood⟩

theorem after_cases {program : Prog LibraryError (Connection P C) α}
    {Q : α → Connection P C → Prop}
    (h : Prog.Keeps (Unless tables Good) (fun connection => connection.committed = tables) program Q) :
    after tables program script = tables ∨ Good (after tables program script) :=
  (h ⟨⟨tables, tables⟩, script, []⟩ nofun (.inl rfl) rfl).2.1

/-! ### Stored contexts -/

/-- The revision of a stored context; there is a first one without a row. -/
def storedRevision (tables : Tables P C) (row : P × String) : ℤ :=
  ((tables.contexts row).map ContextRow.revision).getD 0

theorem readContext_eq_ok [DecidableEq P] {context : TranslationContext C}
    (h : readContext R tables publication language = .ok context) :
    storedRevision tables (publication, language) = context.revision ∧
      (tables.contexts (publication, language) = none ∧ context = ⟨0, [], []⟩ ∨
        context.validate R publication = .ok ()) := by
  unfold readContext at h
  unfold storedRevision
  cases hrow : tables.contexts (publication, language) with
  | none =>
    rw [hrow] at h
    cases h
    exact ⟨rfl, .inl ⟨rfl, rfl⟩⟩
  | some row =>
    rw [hrow] at h
    dsimp only at h
    split_ifs at h with hcorrupt
    cases h
    simp only [Bool.or_eq_true, not_or, decide_eq_true_eq, ne_eq, Decidable.not_not] at hcorrupt
    exact ⟨hcorrupt.1.2.symm, .inr hcorrupt.2⟩

theorem readContext_congr [DecidableEq P]
    (h : tables'.contexts (publication, language) = tables.contexts (publication, language)) :
    readContext R tables' publication language = readContext R tables publication language := by
  unfold readContext
  rw [h]

/-! ### Selections -/

/-- What `write_selection` does: an explicit selection that is the same stays, and otherwise the
selection is stored, which is explicit if the stored one is. -/
def Wrote (tables : Tables P C) (selection : TranslationSelection) (tables' : Tables P C) : Prop :=
  (tables' = tables ∧ ∃ row, tables.selections selection.targetLanguage = some row ∧
    row.explicit = true ∧ row.model = selection.model ∧ row.effort = selection.effort) ∨
  ((∀ row, tables.selections selection.targetLanguage = some row → row.explicit = true →
      selection.explicit = true) ∧
    tables' = { tables with
      selections := Function.update tables.selections selection.targetLanguage
        (some ⟨selection.model, selection.effort, selection.explicit⟩) })

theorem readSelection_eq_ok {saved : Option TranslationSelection}
    (h : readSelection tables language = .ok saved) :
    saved = (tables.selections language).map fun row =>
      ⟨language, row.model, row.effort, row.explicit⟩ := by
  unfold readSelection at h
  cases hrow : tables.selections language with
  | none =>
    rw [hrow] at h
    exact (Except.ok.inj h).symm
  | some row =>
    rw [hrow] at h
    dsimp only at h
    split_ifs at h
    exact (Except.ok.inj h).symm

theorem keeps_writeSelection :
    Prog.Keeps (Unless tables Good) (Working tables pending) (writeSelection selection)
      fun _ connection => ∃ tables', Working tables tables' connection ∧
        Wrote pending selection tables' := by
  refine keeps_bind (Q := fun _ => Working tables pending)
    (keeps_ofExcept fun _ _ h _ _ => h) fun _ => ?_
  refine keeps_bind keeps_query fun saved => ?_
  refine keeps_of_forall fun s _ ⟨hsaved, hs⟩ => ?_
  have hsaved := readSelection_eq_ok hsaved
  refine keeps_ite (fun hexplicit => ?_) fun hexplicit => ?_
  · refine keeps_check.mono (fun _ _ h => h) ?_
    rintro _ s - ⟨hsame, rfl⟩
    refine ⟨pending, hs, .inl ⟨rfl, ?_⟩⟩
    cases hrow : pending.selections selection.targetLanguage with
    | none =>
      rw [hsaved, hrow] at hexplicit
      cases hexplicit
    | some row =>
      rw [hsaved, hrow] at hexplicit hsame
      simp only [Option.map_some, Option.any_some, Bool.and_eq_true, Option.all_some,
        decide_eq_true_eq] at hexplicit hsame
      exact ⟨row, rfl, hexplicit.1, hsame.1, hsame.2⟩
  · refine Prog.Keeps.mono (P := Working tables pending) keeps_execute
      (fun _ _ heq => heq ▸ hs) fun _ s _ h => ⟨_, h, .inr ⟨fun row hrow hrow' => ?_, rfl⟩⟩
    rw [hsaved, hrow] at hexplicit
    by_contra hnot
    exact hexplicit (by simp [hrow', hnot])

theorem Wrote.frame (h : Wrote tables selection tables') :
    tables'.contexts = tables.contexts ∧ tables'.service = tables.service := by
  rcases h with ⟨rfl, -⟩ | ⟨-, rfl⟩ <;> exact ⟨rfl, rfl⟩

theorem Wrote.explicit (h : Wrote tables selection tables') {row : SelectionRow}
    (hrow : tables.selections language = some row) (hexplicit : row.explicit = true) :
    ∃ row', tables'.selections language = some row' ∧ row'.explicit = true := by
  rcases h with ⟨rfl, -⟩ | ⟨hkeep, rfl⟩
  · exact ⟨row, hrow, hexplicit⟩
  · by_cases hlanguage : language = selection.targetLanguage
    · subst hlanguage
      exact ⟨_, Function.update_self .., hkeep row hrow hexplicit⟩
    · exact ⟨row, (Function.update_of_ne hlanguage _ _).trans hrow, hexplicit⟩

/-! ### Providers and contexts -/

/-- The provider of a key is the configured one: an explicit selection is the same, or the settings
of OpenRouter are. -/
def Configured (tables : Tables P C) (key : TranslationCacheKey C) : Prop :=
  ((key.provider = "codex" ∨ key.provider = "codex-imagegen" ∧ key.page.isSome) ∧
    ∀ row, tables.selections key.targetLanguage = some row → row.explicit = true →
      row.model = key.model ∧ row.effort = key.effort) ∨
  (key.provider = "openrouter" ∧ key.page.isNone ∧ tables.service.service = .openRouter ∧
    tables.service.openrouter.model = key.model ∧ tables.service.openrouter.effort = key.effort)

def Selected (tables : Tables P C) (key : TranslationCacheKey C) (tables' : Tables P C) : Prop :=
  (key.provider = "openrouter" ∧ tables' = tables) ∨
    (key.provider ≠ "openrouter" ∧
      Wrote tables ⟨key.targetLanguage, key.model, key.effort, false⟩ tables')

theorem Selected.frame (h : Selected tables key tables') : tables'.contexts = tables.contexts := by
  rcases h with ⟨-, rfl⟩ | ⟨-, hwrote⟩
  · rfl
  · exact hwrote.frame.1

theorem Selected.explicit (h : Selected tables key tables') {row : SelectionRow}
    (hrow : tables.selections language = some row) (hexplicit : row.explicit = true) :
    ∃ row', tables'.selections language = some row' ∧ row'.explicit = true := by
  rcases h with ⟨-, rfl⟩ | ⟨-, hwrote⟩
  · exact ⟨row, hrow, hexplicit⟩
  · exact hwrote.explicit hrow hexplicit

theorem keeps_acceptProvider :
    Prog.Keeps (Unless tables Good) (Working tables pending) (acceptProvider key)
      fun _ connection => ∃ tables', Working tables tables' connection ∧
        Configured pending key ∧ Selected pending key tables' := by
  refine keeps_ite (fun hcodex => ?_) fun _ => keeps_ite (fun hrouter => ?_) fun _ =>
    keeps_throw
  · have hcodex : key.provider = "codex" ∨ key.provider = "codex-imagegen" ∧ key.page.isSome := by
      simpa using hcodex
    refine keeps_writeSelection.mono (fun _ _ h => h) fun _ s _ ⟨tables', hs, hwrote⟩ => ?_
    refine ⟨tables', hs, .inl ⟨hcodex, fun row hrow hexplicit => ?_⟩, .inr ⟨?_, hwrote⟩⟩
    · rcases hwrote with ⟨-, row', hrow', -, hmodel, heffort⟩ | ⟨hnone, -⟩
      · cases hrow.symm.trans hrow'
        exact ⟨hmodel, heffort⟩
      · cases hnone row hrow hexplicit
    · rcases hcodex with h | ⟨h, -⟩
      all_goals
        rw [h]
        decide
  · rw [Bool.and_eq_true, decide_eq_true_eq] at hrouter
    refine keeps_bind keeps_query fun settings => ?_
    refine keeps_of_forall fun s _ ⟨hsettings, hs⟩ => ?_
    refine keeps_check.mono (fun _ _ h => h) ?_
    rintro _ s - ⟨hsame, rfl⟩
    have hsettings : pending.service = settings := by
      unfold readSettings at hsettings
      split_ifs at hsettings
      exact Except.ok.inj hsettings
    simp only [Bool.and_eq_true, decide_eq_true_eq] at hsame
    refine ⟨pending, hs, .inr ⟨hrouter.1, hrouter.2, ?_⟩, .inl ⟨hrouter.1, rfl⟩⟩
    rw [hsettings]
    exact ⟨hsame.1.1, hsame.1.2, hsame.2⟩

/-! ### Progress -/

/-- What holds of the tables before and after every call: revisions increase with every change of a
context, and explicit selections stay explicit unless the call resets them. -/
structure Progress (c : Call C) (tables tables' : Tables P C) : Prop where
  contexts : ∀ row, tables'.contexts row = tables.contexts row ∨
    storedRevision tables row < storedRevision tables' row
  explicit : ∀ language row, tables.selections language = some row → row.explicit = true →
    c ≠ .resetTranslationSelection language →
      ∃ row', tables'.selections language = some row' ∧ row'.explicit = true

theorem Progress.of_frame {c : Call C} (hcontexts : tables'.contexts = tables.contexts)
    (hselections : tables'.selections = tables.selections) : Progress c tables tables' :=
  ⟨fun row => .inl (congrFun hcontexts row), fun language row hrow hexplicit _ =>
    ⟨row, (congrFun hselections language).trans hrow, hexplicit⟩⟩

variable [DecidableEq C]

/-! ### Jobs -/

/-- What a save is given: its key, the revision it started from, what it has learned, and the change
of the overlay. -/
structure Job (P C : Type) where
  key : TranslationCacheKey C
  expected : ℕ
  additions : ContextAdditions C
  evidence : List (EvidenceSegment C)
  current : Current
  overlay : Tables P C → Tables P C

def Call.job : Call C → Option (Job P C)
  | .saveTranslation key expected content additions evidence current =>
    some ⟨key, expected, additions, evidence, current, fun tables =>
      { tables with contents := Function.update tables.contents key (some content) }⟩
  | .saveImageTranslation key expected png additions evidence current =>
    some ⟨key, expected, additions, evidence, current, fun tables =>
      { tables with images := Function.update tables.images key (some png) }⟩
  | _ => none

theorem job_frame {c : Call C} {job : Job P C} (h : c.job = some job) (tables : Tables P C) :
    (job.overlay tables).contexts = tables.contexts ∧
      (job.overlay tables).selections = tables.selections := by
  cases c with
  | saveTranslation key expected content additions evidence current =>
    cases h
    exact ⟨rfl, rfl⟩
  | saveImageTranslation key expected png additions evidence current =>
    cases h
    exact ⟨rfl, rfl⟩
  | _ => cases h

variable [DecidableEq P] {learned : Tables P C}

/-- What an accepted job has made of the context, before the selection. -/
structure Learned (R : References P C) (tables : Tables P C) (key : TranslationCacheKey C)
    (expected : ℕ) (additions : ContextAdditions C) (evidence : List (EvidenceSegment C))
    (tables' : Tables P C) : Prop where
  job : ∃ context changed next,
    readContext R tables (R.publication key.chapter) key.targetLanguage = .ok context ∧
      context.revision = expected ∧
      context.apply R (R.publication key.chapter) additions evidence = (.ok changed, next) ∧
      tables' = if changed then { tables with
        contexts := Function.update tables.contexts (R.publication key.chapter, key.targetLanguage)
          (some ⟨next.revision, next⟩) } else tables

theorem keeps_acceptTranslationContext :
    Prog.Keeps (Unless tables Good) (Working tables tables)
      (acceptTranslationContext R key expected additions evidence) fun _ connection =>
        ∃ learned tables', Working tables tables' connection ∧
          Learned R tables key expected additions evidence learned ∧ Configured learned key ∧
            Selected learned key tables' := by
  refine keeps_bind keeps_check fun _ => ?_
  refine keeps_bind (keeps_query.mono (fun _ _ h => h.2) fun _ _ _ h => h) fun context => ?_
  refine keeps_of_forall fun s _ ⟨hcontext, hs⟩ => ?_
  refine keeps_bind keeps_check fun _ => ?_
  refine keeps_of_forall fun s _ ⟨hrevision, heq⟩ => ?_
  subst heq
  rcases happly : context.apply R (R.publication key.chapter) additions evidence with ⟨result, next⟩
  dsimp only
  refine keeps_bind (Q := fun changed => fun s => result = .ok changed ∧ Working tables tables s)
    (keeps_ofExcept ?_) fun changed => ?_
  · rintro _ - rfl changed hchanged
    exact ⟨mapError_eq_ok.mp hchanged, hs⟩
  refine keeps_of_forall fun s _ ⟨hresult, hs⟩ => ?_
  subst hresult
  have hrevision := of_decide_eq_true hrevision
  refine keeps_bind (Q := fun _ connection => ∃ learned, Working tables learned connection ∧
    Learned R tables key expected additions evidence learned) ?_ fun _ => ?_
  · refine keeps_when (fun hchanged => ?_) fun hchanged => ?_
    · refine keeps_bind keeps_check fun _ => ?_
      refine Prog.Keeps.mono (P := Working tables tables) keeps_execute ?_ ?_
      · rintro _ - ⟨-, rfl⟩
        exact hs
      · rintro _ s - h
        exact ⟨_, h, ⟨context, changed, next, hcontext, hrevision, happly, by rw [if_pos hchanged]⟩⟩
    · rintro _ - rfl
      refine ⟨tables, hs, ⟨context, changed, next, hcontext, hrevision, happly, ?_⟩⟩
      rw [if_neg (Bool.eq_false_iff.mp hchanged)]
  refine keeps_of_forall fun s _ ⟨learned, hlearned, hjob⟩ => ?_
  refine keeps_bind (keeps_acceptProvider.mono (fun _ _ heq => heq ▸ hlearned)
    fun _ _ _ h => h) fun _ => ?_
  exact keeps_pure fun _ _ ⟨tables', hs, hconfigured, hselected⟩ =>
    ⟨learned, tables', hs, hjob, hconfigured, hselected⟩

/-! ### Saves -/

/-- What a save commits: the merged context of the stored one, which has the revision that the job
started from, the selection of the configured provider, and the overlay.  The job was current with
the write lock and before the commit. -/
def Job.Accepted (R : References P C) (job : Job P C) (tables tables' : Tables P C) : Prop :=
  job.current.locked = true ∧ job.current.finished = true ∧ Configured tables job.key ∧
    ∃ learned selected, Learned R tables job.key job.expected job.additions job.evidence learned ∧
      Selected learned job.key selected ∧ tables' = job.overlay selected

theorem Learned.frame (h : Learned R tables key expected additions evidence learned) :
    learned.selections = tables.selections ∧ learned.service = tables.service := by
  obtain ⟨context, changed, next, -, -, -, rfl⟩ := h.job
  cases changed <;> exact ⟨rfl, rfl⟩

theorem keeps_saveOverlay {valid : Except LibraryError Unit} {overlay : Tables P C → Tables P C} :
    Prog.Keeps
      (Unless tables ((⟨key, expected, additions, evidence, current, overlay⟩ : Job P C).Accepted
        R tables))
      (fun connection => connection.committed = tables)
      (saveOverlay R key expected valid overlay additions evidence current) fun _ connection =>
        (⟨key, expected, additions, evidence, current, overlay⟩ : Job P C).Accepted R tables
          connection.committed := by
  refine keeps_bind (keeps_check.mono (fun _ _ h => h) fun _ _ _ h => h.2) fun _ => ?_
  refine keeps_bind (keeps_ofExcept fun _ _ h _ _ => h) fun _ => ?_
  refine keeps_bind (keeps_ofExcept fun _ _ h _ _ => h) fun _ => keeps_transaction ?_
  refine keeps_bind keeps_check fun _ => ?_
  refine keeps_of_forall fun s _ ⟨hlocked, hs⟩ => ?_
  refine keeps_bind (keeps_acceptTranslationContext.mono (fun _ _ heq => heq ▸ hs)
    fun _ _ _ h => h) fun context => ?_
  refine keeps_of_forall fun s _ ⟨learned, selected, hs, hlearned, hconfigured, hselected⟩ => ?_
  refine keeps_bind (Prog.Keeps.mono (P := Working tables selected) keeps_execute
    (fun _ _ heq => heq ▸ hs) fun _ _ _ h => h) fun _ => ?_
  refine keeps_bind keeps_check fun _ => keeps_pure fun s _ ⟨hfinished, hs⟩ => ?_
  obtain ⟨hselections, hservice⟩ := hlearned.frame
  unfold Configured at hconfigured
  rw [hselections, hservice] at hconfigured
  exact ⟨hlocked, hfinished, hconfigured, learned, selected, hlearned, hselected, hs.pending⟩

/-- A save commits everything or nothing. -/
theorem call_job (R : References P C) (protect : String → Option (List UInt8))
    (tables : Tables P C) (script : List Fate) {c : Call C} {job : Job P C} (h : c.job = some job) :
    call R protect tables script c = tables ∨
      job.Accepted R tables (call R protect tables script c) := by
  cases c with
  | saveTranslation key expected content additions evidence current =>
    cases h
    exact after_cases keeps_saveOverlay
  | saveImageTranslation key expected png additions evidence current =>
    cases h
    exact after_cases keeps_saveOverlay
  | _ => cases h

/-! ### Other calls -/

theorem call_saveTranslationSelection (R : References P C) (protect : String → Option (List UInt8))
    (tables : Tables P C) (script : List Fate) (selection : TranslationSelection) :
    call R protect tables script (.saveTranslationSelection selection) = tables ∨
      Wrote tables selection (call R protect tables script (.saveTranslationSelection selection)) := by
  refine after_cases (Q := fun _ _ => True) ?_
  refine keeps_bind (keeps_ofExcept fun _ _ h _ _ => h) fun _ => ?_
  refine (keeps_transaction ?_).mono (fun _ _ h => h) fun _ _ _ _ => trivial
  exact keeps_writeSelection.mono (fun _ _ h => h) fun _ s _ ⟨tables', hs, hwrote⟩ =>
    hs.pending ▸ hwrote

theorem call_resetTranslationSelection (R : References P C)
    (protect : String → Option (List UInt8)) (tables : Tables P C) (script : List Fate)
    (language : String) :
    call R protect tables script (.resetTranslationSelection language) = tables ∨
      call R protect tables script (.resetTranslationSelection language) =
        { tables with
          selections := Function.update tables.selections language
            ((tables.selections language).map fun row => { row with explicit := false }) } := by
  refine @after_cases P C _ tables (fun tables' => tables' = { tables with
    selections := Function.update tables.selections language
      ((tables.selections language).map fun row => { row with explicit := false }) })
    script _ (fun _ _ => True) ?_
  refine keeps_bind (keeps_ofExcept fun _ _ h _ _ => h) fun _ => ?_
  refine (keeps_transaction ?_).mono (fun _ _ h => h) fun _ _ _ _ => trivial
  exact keeps_execute.mono (fun _ _ h => h) fun _ _ _ h => h.pending

theorem call_configureTextTranslation (R : References P C)
    (protect : String → Option (List UInt8)) (tables : Tables P C) (script : List Fate)
    (service : TextTranslationService) (openrouter : OpenRouterSettings) (apiKey : Option String) :
    ∃ row, call R protect tables script (.configureTextTranslation service openrouter apiKey) =
      { tables with service := row } := by
  have hcases := @after_cases P C _ tables
    (fun tables' => ∃ row, tables' = { tables with service := row }) script
    (configureTextTranslation protect service openrouter apiKey) (fun _ _ => True) ?_
  · rcases hcases with h | h
    · exact ⟨tables.service, h⟩
    · exact h
  refine keeps_bind (keeps_check.mono (fun _ _ h => h) fun _ _ _ h => h.2) fun _ => ?_
  refine keeps_bind (Q := fun _ connection => connection.committed = tables) ?_ fun encrypted => ?_
  · cases apiKey with
    | none => exact keeps_pure fun _ _ h => h
    | some apiKey =>
      refine keeps_ite (fun _ => keeps_pure fun _ _ h => h) fun _ => ?_
      cases protect apiKey with
      | none => exact keeps_throw
      | some bytes => exact keeps_pure fun _ _ h => h
  · refine (keeps_transaction ?_).mono (fun _ _ h => h) fun _ _ _ _ => trivial
    refine keeps_bind keeps_execute fun _ => ?_
    exact keeps_query.mono (fun _ _ h => h) fun _ _ _ h => ⟨_, h.2.pending⟩

/-! ### What every call does -/

theorem apply_eq_ok {context next : TranslationContext C} {changed : Bool}
    (h : context.apply R publication additions evidence = (.ok changed, next)) :
    context.next R publication additions evidence = .ok next ∧ changed = decide (next ≠ context) := by
  unfold TranslationContext.apply at h
  cases hnext : context.next R publication additions evidence with
  | error error =>
    rw [hnext] at h
    cases h
  | ok next' =>
    rw [hnext] at h
    obtain ⟨hchanged, rfl⟩ := Prod.mk.inj h
    exact ⟨rfl, (Except.ok.inj hchanged).symm⟩

theorem Learned.contexts (h : Learned R tables key expected additions evidence learned)
    (row : P × String) :
    learned.contexts row = tables.contexts row ∨
      storedRevision tables row < storedRevision learned row := by
  obtain ⟨context, changed, next, hcontext, -, happly, rfl⟩ := h.job
  obtain ⟨hnext, hchanged⟩ := apply_eq_ok happly
  obtain ⟨hrevision, -⟩ := readContext_eq_ok hcontext
  cases changed with
  | false => exact .inl rfl
  | true =>
    rw [if_pos rfl]
    by_cases hrow : row = (R.publication key.chapter, key.targetLanguage)
    · subst hrow
      refine .inr ?_
      have hstored : storedRevision { tables with
          contexts := Function.update tables.contexts (R.publication key.chapter, key.targetLanguage)
            (some ⟨next.revision, next⟩) } (R.publication key.chapter, key.targetLanguage) =
          next.revision := by simp [storedRevision]
      obtain ⟨-, -, -, -, -, -, -, heq | ⟨-, -, hnew⟩⟩ := next_eq_ok hnext
      · simp [heq] at hchanged
      · rw [hrevision, hstored, hnew]
        push_cast
        omega
    · exact .inl (Function.update_of_ne hrow _ _)

theorem Job.Accepted.progress {c : Call C} {job : Job P C} (hjob : c.job = some job)
    (h : job.Accepted R tables tables') : Progress c tables tables' := by
  obtain ⟨-, -, -, learned, selected, hlearned, hselected, rfl⟩ := h
  obtain ⟨hcontexts, hselections⟩ := job_frame hjob selected
  refine ⟨fun row => ?_, fun language row hrow hexplicit _ => ?_⟩
  · unfold storedRevision
    rw [hcontexts, hselected.frame]
    exact hlearned.contexts row
  · rw [hselections]
    rw [← hlearned.frame.1] at hrow
    exact hselected.explicit hrow hexplicit

theorem call_progress (R : References P C) (protect : String → Option (List UInt8))
    (tables : Tables P C) (script : List Fate) (c : Call C) :
    Progress c tables (call R protect tables script c) := by
  cases hjob : c.job (P := P) with
  | some job =>
    rcases call_job R protect tables script hjob with heq | haccepted
    · rw [heq]
      exact .of_frame rfl rfl
    · exact haccepted.progress hjob
  | none =>
    cases c with
    | saveTranslation => cases hjob
    | saveImageTranslation => cases hjob
    | saveTranslationSelection selection =>
      rcases call_saveTranslationSelection R protect tables script selection with heq | hwrote
      · rw [heq]
        exact .of_frame rfl rfl
      · exact ⟨fun row => .inl (congrFun hwrote.frame.1 row), fun _ _ hrow hexplicit _ =>
          hwrote.explicit hrow hexplicit⟩
    | resetTranslationSelection language =>
      rcases call_resetTranslationSelection R protect tables script language with heq | heq
      · rw [heq]
        exact .of_frame rfl rfl
      · rw [heq]
        refine ⟨fun _ => .inl rfl, fun language' row hrow hexplicit hne => ⟨row, ?_, hexplicit⟩⟩
        have hlanguage : language' ≠ language := fun h => hne (h ▸ rfl)
        exact (Function.update_of_ne hlanguage _ _).trans hrow
    | configureTextTranslation service openrouter apiKey =>
      obtain ⟨row, heq⟩ :=
        call_configureTextTranslation R protect tables script service openrouter apiKey
      rw [heq]
      exact .of_frame rfl rfl

/-- Translations are accepted as a whole.  From any tables, and whatever happens to its statements, a
save changes nothing, or it commits the merged context, the selection and the overlay of a job that
started from the stored revision, was current with the write lock and before the commit, and has the
configured provider.  The revision of a stored context increases with every change.  An explicit
selection stays explicit, or it is reset, which keeps its model and effort. -/
theorem acceptance_is_atomic (R : References P C) (protect : String → Option (List UInt8))
    (tables : Tables P C) (script : List Fate) (c : Call C) :
    (∀ job, c.job = some job → call R protect tables script c = tables ∨
      job.Accepted R tables (call R protect tables script c)) ∧
    (∀ row, (call R protect tables script c).contexts row ≠ tables.contexts row →
      storedRevision tables row < storedRevision (call R protect tables script c) row) ∧
    ∀ language row, tables.selections language = some row → row.explicit = true →
      (∃ row', (call R protect tables script c).selections language = some row' ∧
        row'.explicit = true) ∨
      (c = .resetTranslationSelection language ∧
        (call R protect tables script c).selections language = some { row with explicit := false }) := by
  have hprogress := call_progress R protect tables script c
  refine ⟨fun job hjob => call_job R protect tables script hjob, fun row hne => ?_,
    fun language row hrow hexplicit => ?_⟩
  · exact (hprogress.contexts row).resolve_left hne
  · by_cases hreset : c = .resetTranslationSelection language
    · subst hreset
      rcases call_resetTranslationSelection R protect tables script language with heq | heq
      · exact .inl ⟨row, (congrFun (congrArg Tables.selections heq) language).trans hrow, hexplicit⟩
      · refine .inr ⟨rfl, ?_⟩
        rw [heq]
        simp [hrow]
    · exact .inl (hprogress.explicit language row hrow hexplicit hreset)

/-- A user's choice of a model is reset. -/
theorem explicit_selection_is_reset :
    ¬ ∀ (tables : Tables Unit ℕ) (script : List Fate) (c : Call ℕ) (language : String)
        (row : SelectionRow),
      (library sampleReferences fun _ => none).Reachable (fun _ _ => True) tables →
        tables.selections language = some row → row.explicit = true →
          ∃ row', (call sampleReferences (fun _ => none) tables script c).selections language =
            some row' ∧ row'.explicit = true := by
  intro hclaim
  have hchosen : (library sampleReferences fun _ => none).Reachable (fun _ _ => True)
      (call sampleReferences (fun _ => none) Tables.new []
        (.saveTranslationSelection ⟨"en", "m", "e", true⟩)) :=
    .next (.start rfl) (a := ([], .saveTranslationSelection ⟨"en", "m", "e", true⟩)) trivial rfl
  obtain ⟨row', hrow', hexplicit⟩ :=
    hclaim _ [] (.resetTranslationSelection "en") "en" ⟨"m", "e", true⟩ hchosen rfl rfl
  have hreset : (call sampleReferences (fun _ => none)
      (call sampleReferences (fun _ => none) Tables.new []
        (.saveTranslationSelection ⟨"en", "m", "e", true⟩)) []
      (.resetTranslationSelection "en")).selections "en" = some ⟨"m", "e", false⟩ := rfl
  rw [hreset] at hrow'
  cases hrow'
  cases hexplicit

/-! ### Readable contexts -/

/-- Every stored context can be read. -/
def Readable (R : References P C) (tables : Tables P C) : Prop :=
  ∀ publication language, ∃ context, readContext R tables publication language = .ok context

/-- No save gives a term more than 16 forms. -/
def fewForms (R : References P C) (tables : Tables P C) (label : List Fate × Call C) : Prop :=
  ∀ job : Job P C, label.2.job = some job → ∀ context,
    readContext R tables (R.publication job.key.chapter) job.key.targetLanguage = .ok context →
      ¬ overfull context job.additions

/-- A job that gives no term too many forms leaves contexts that can be read. -/
theorem Learned.readable (h : Learned R tables key expected additions evidence learned)
    (hreadable : Readable R tables) (hfew : ∀ context,
      readContext R tables (R.publication key.chapter) key.targetLanguage = .ok context →
        ¬ overfull context additions) : Readable R learned := by
  obtain ⟨context, changed, next, hcontext, -, happly, rfl⟩ := h.job
  cases changed with
  | false => exact hreadable
  | true =>
    intro publication language
    rw [if_pos rfl]
    by_cases hrow : (publication, language) = (R.publication key.chapter, key.targetLanguage)
    · cases hrow
      have hvalid := (next_valid_iff (apply_eq_ok happly).1).mpr (hfew context hcontext)
      refine ⟨next, ?_⟩
      unfold readContext
      simp [hvalid]
    · obtain ⟨context', hcontext'⟩ := hreadable publication language
      refine ⟨context', ?_⟩
      exact (readContext_congr (Function.update_of_ne hrow _ _)).trans hcontext'

omit [DecidableEq C] in
theorem Readable.congr (h : Readable R tables) (hcontexts : tables'.contexts = tables.contexts) :
    Readable R tables' := by
  intro publication language
  obtain ⟨context, hcontext⟩ := h publication language
  exact ⟨context, (readContext_congr (congrFun hcontexts _)).trans hcontext⟩

theorem call_readable (R : References P C) (protect : String → Option (List UInt8))
    (tables : Tables P C) (script : List Fate) (c : Call C) (h : Readable R tables)
    (hfew : fewForms R tables (script, c)) : Readable R (call R protect tables script c) := by
  cases hjob : c.job (P := P) with
  | some job =>
    rcases call_job R protect tables script hjob with heq | haccepted
    · rwa [heq]
    · obtain ⟨-, -, -, learned, selected, hlearned, hselected, heq⟩ := haccepted
      rw [heq]
      refine (hlearned.readable h (hfew job hjob)).congr ?_
      rw [(job_frame hjob selected).1, hselected.frame]
  | none =>
    cases c with
    | saveTranslation => cases hjob
    | saveImageTranslation => cases hjob
    | saveTranslationSelection selection =>
      rcases call_saveTranslationSelection R protect tables script selection with heq | hwrote
      · rwa [heq]
      · exact h.congr hwrote.frame.1
    | resetTranslationSelection language =>
      rcases call_resetTranslationSelection R protect tables script language with heq | heq
      · rwa [heq]
      · exact heq ▸ h.congr rfl
    | configureTextTranslation service openrouter apiKey =>
      obtain ⟨row, heq⟩ :=
        call_configureTextTranslation R protect tables script service openrouter apiKey
      exact heq ▸ h.congr rfl

/-- What `apply` returns is valid exactly if no term gets more than 16 forms, and what it refuses is
unchanged; and in every run of calls that give no term more than 16 forms, all contexts stay
readable. -/
theorem context_stays_readable (R : References P C) :
    (∀ publication (context next : TranslationContext C) additions segments changed,
      context.apply R publication additions segments = (.ok changed, next) →
        (next.validate R publication = .ok () ↔ ¬ overfull context additions)) ∧
    (∀ publication (context next : TranslationContext C) additions segments error,
      context.apply R publication additions segments = (.error error, next) → next = context) ∧
    ∀ protect (start tables : Tables P C), Readable R start →
      (library R protect).Steps (fewForms R) start tables → Readable R tables := by
  refine ⟨fun publication context next additions segments changed h => ?_,
    fun publication context next additions segments error h => ?_,
    fun protect start tables hstart hsteps => ?_⟩
  · exact next_valid_iff (apply_eq_ok h).1
  · unfold TranslationContext.apply at h
    cases hnext : context.next R publication additions segments with
    | error error' =>
      rw [hnext] at h
      exact (Prod.mk.inj h).2.symm
    | ok next' =>
      rw [hnext] at h
      cases (Prod.mk.inj h).1
  · refine hsteps.preserves (fun tables label tables' h hfew hstep => ?_) hstart
    cases hstep
    exact call_readable R protect tables label.1 label.2 h hfew

/-- A term with 16 forms, and a segment with all of them. -/
def fullContext : TranslationContext ℕ :=
  ⟨1, [sampleTerm "a" ["b", "c", "d", "e", "f", "g", "h", "i", "j", "k", "l", "m", "n", "o", "p", "q"]],
    []⟩

theorem merged_forms_are_not_counted :
    ¬ ∀ (context next : TranslationContext ℕ) additions segments changed,
      context.validate sampleReferences () = .ok () →
        context.apply sampleReferences () additions segments = (.ok changed, next) →
          next.validate sampleReferences () = .ok () := by
  intro hclaim
  have hinvalid := hclaim fullContext
    (fullContext.apply sampleReferences () ⟨[sampleTerm "a" ["r"]], []⟩ [⟨1, "s", "a r", none⟩]).2
    ⟨[sampleTerm "a" ["r"]], []⟩ [⟨1, "s", "a r", none⟩] true (by decide +kernel) (by decide +kernel)
  revert hinvalid
  decide +kernel

end Qbutt.Translation
