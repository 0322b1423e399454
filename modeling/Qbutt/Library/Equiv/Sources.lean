import Qbutt.Library.Sources

/-!
# Settings of sources: equivalence lemmas

Every call leaves the rows as they were, or changes one row and counts the change (`call_changes`).
So a revision that was seen before and is still there says that nothing about the source changed since
(`unchanged_of_revision`), which is what `clear_source_failure` relies on.
-/

namespace Qbutt.Library

open Qbutt.Content

variable {F : Type} {C : Checks F} {rows rows' : SourceRows} {source : Source}
  {settings : SourceSettings} {operation : SourceOperation} {observedRevision : ℤ}
  {row row' : SourceRow}

/-- One row changed, and the change was counted. -/
structure Counted (rows rows' : SourceRows) (source : Source) (row row' : SourceRow) : Prop where
  before : rows source = some row
  after : rows' = Function.update rows source (some row')
  revision : row'.revision = row.revision + 1

def Changes (rows rows' : SourceRows) : Prop :=
  rows' = rows ∨ ∃ source row row', Counted rows rows' source row row'

theorem bump_eq_ok (h : bump rows source row = .ok rows') :
    rows' = Function.update rows source (some { row with revision := row.revision + 1 }) := by
  unfold bump at h
  split_ifs at h
  exact (Except.ok.inj h).symm

theorem setSourceEnabled_changes {enabled : Bool}
    (h : setSourceEnabled C rows source enabled = .ok (rows', settings)) : Changes rows rows' := by
  obtain ⟨updated, hupdate, h⟩ := bind_eq_ok.mp h
  obtain ⟨read, -, h⟩ := bind_eq_ok.mp h
  cases h
  cases hrow : rows source with
  | none =>
    rw [updateEnabled, hrow] at hupdate
    exact .inl (Except.ok.inj hupdate).symm
  | some row =>
    rw [updateEnabled, hrow] at hupdate
    dsimp only at hupdate
    split_ifs at hupdate
    · exact .inr ⟨source, row, _, hrow, bump_eq_ok hupdate, rfl⟩
    · exact .inl (Except.ok.inj hupdate).symm

theorem recordSourceFailure_counted {failure : SourceFailure}
    (h : recordSourceFailure C rows failure = .ok (rows', settings)) :
    ∃ row, Counted rows rows' failure.operation.source row
      { row with revision := row.revision + 1, failure := some failure } := by
  obtain ⟨-, -, h⟩ := bind_eq_ok.mp h
  obtain ⟨updated, hupdate, h⟩ := bind_eq_ok.mp h
  obtain ⟨read, -, h⟩ := bind_eq_ok.mp h
  cases h
  cases hrow : rows failure.operation.source with
  | none =>
    rw [updateFailure, hrow] at hupdate
    cases hupdate
  | some row =>
    rw [updateFailure, hrow] at hupdate
    exact ⟨row, hrow, bump_eq_ok hupdate, rfl⟩

theorem readSettings_eq_ok (h : readSettings C rows source = .ok settings) :
    ∃ row, rows source = some row ∧ settings.revision = row.revision ∧
      settings.failure = row.failure := by
  unfold readSettings at h
  cases hrow : rows source with
  | none =>
    rw [hrow] at h
    cases h
  | some row =>
    rw [hrow] at h
    refine ⟨row, rfl, ?_⟩
    dsimp only at h
    unfold decodeSettings at h
    cases hfailure : row.failure with
    | none =>
      rw [hfailure] at h
      cases h
      exact ⟨rfl, rfl⟩
    | some failure =>
      rw [hfailure] at h
      obtain ⟨-, -, h⟩ := bind_eq_ok.mp h
      split_ifs at h
      cases h
      exact ⟨rfl, rfl⟩

theorem dropFailure_counted (hrow : rows source = some row)
    (h : dropFailure C rows source = .ok (rows', settings)) :
    Counted rows rows' source row { row with revision := row.revision + 1, failure := none } := by
  obtain ⟨updated, hupdate, h⟩ := bind_eq_ok.mp h
  obtain ⟨read, -, h⟩ := bind_eq_ok.mp h
  cases h
  rw [updateFailure, hrow] at hupdate
  exact ⟨hrow, bump_eq_ok hupdate, rfl⟩

/-- A failure is cleared only if it is one of the operation and the row has the observed revision. -/
theorem clearSourceFailure_cases
    (h : clearSourceFailure C rows operation observedRevision = .ok (rows', settings)) :
    rows' = rows ∨ ∃ row failure, row.revision = observedRevision ∧
      row.failure = some failure ∧ failure.operation = operation ∧
      Counted rows rows' operation.source row
        { row with revision := row.revision + 1, failure := none } := by
  unfold clearSourceFailure at h
  split_ifs at h
  obtain ⟨read, hread, h⟩ := bind_eq_ok.mp h
  obtain ⟨row, hrow, hrevision, hfailure⟩ := readSettings_eq_ok hread
  split_ifs at h with hclear
  · rw [hrevision, hfailure] at hclear
    obtain ⟨failure, hfailure, hoperation⟩ := Option.map_eq_some_iff.mp hclear.2
    exact .inr ⟨row, failure, hclear.1, hfailure, hoperation, dropFailure_counted hrow h⟩
  · exact .inl (Prod.mk.inj (Except.ok.inj h)).1.symm

theorem retireSourceSearchFailure_changes
    (h : retireSourceSearchFailure C rows source = .ok (rows', settings)) : Changes rows rows' := by
  obtain ⟨read, hread, h⟩ := bind_eq_ok.mp h
  obtain ⟨row, hrow, -⟩ := readSettings_eq_ok hread
  split_ifs at h
  · exact .inr ⟨source, row, _, dropFailure_counted hrow h⟩
  · exact .inl (Prod.mk.inj (Except.ok.inj h)).1.symm

theorem call_changes {call : SourceCall} (h : call.run C rows = .ok (rows', settings)) :
    Changes rows rows' := by
  cases call with
  | setSourceEnabled source enabled => exact setSourceEnabled_changes h
  | recordSourceFailure failure =>
    obtain ⟨row, hcounted⟩ := recordSourceFailure_counted h
    exact .inr ⟨_, row, _, hcounted⟩
  | clearSourceFailure operation observedRevision =>
    rcases clearSourceFailure_cases h with hsame | ⟨row, _, -, -, -, hcounted⟩
    · exact .inl hsame
    · exact .inr ⟨_, row, _, hcounted⟩
  | retireSourceSearchFailure source => exact retireSourceSearchFailure_changes h

/-! ### Runs -/

/-- A row is still the same, or its revision is greater. -/
def Grows (rows rows' : SourceRows) (source : Source) : Prop :=
  rows' source = rows source ∨ ∃ row row', rows source = some row ∧ rows' source = some row' ∧
    row.revision < row'.revision

theorem Changes.grows (h : Changes rows rows') (source : Source) : Grows rows rows' source := by
  rcases h with rfl | ⟨source', row, row', hcounted⟩
  · exact .inl rfl
  · obtain ⟨hbefore, rfl, hrevision⟩ := hcounted
    by_cases hsource : source = source'
    · subst hsource
      refine .inr ⟨row, row', hbefore, Function.update_self .., ?_⟩
      omega
    · exact .inl (Function.update_of_ne hsource ..)

theorem Grows.trans {rows'' : SourceRows} (h : Grows rows rows' source)
    (h' : Grows rows' rows'' source) : Grows rows rows'' source := by
  rcases h with hsame | ⟨row, row', hrow, hrow', hlt⟩
  · rcases h' with hsame' | ⟨row', row'', hrow', hrow'', hlt⟩
    · exact .inl (hsame'.trans hsame)
    · exact .inr ⟨row', row'', hsame ▸ hrow', hrow'', hlt⟩
  · rcases h' with hsame' | ⟨row₁, row'', hrow₁, hrow'', hlt'⟩
    · exact .inr ⟨row, row', hrow, hsame'.trans hrow', hlt⟩
    · cases hrow'.symm.trans hrow₁
      exact .inr ⟨row, row'', hrow, hrow'', hlt.trans hlt'⟩

theorem step_grows {label : SourceCall × Bool} (h : (sourcesSystem C).step rows label = some rows')
    (source : Source) : Grows rows rows' source := by
  cases h
  unfold SourceCall.rowsAfter
  cases hrun : label.1.run C rows with
  | error e => exact .inl rfl
  | ok result =>
    obtain ⟨made, settings⟩ := result
    dsimp only
    split_ifs
    · exact .inl rfl
    · exact (call_changes hrun).grows source

abbrev Run (C : Checks F) (rows rows' : SourceRows) : Prop :=
  (sourcesSystem C).Steps (fun _ _ => True) rows rows'

theorem run_grows (h : Run C rows rows') (source : Source) : Grows rows rows' source := by
  induction h with
  | refl => exact .inl rfl
  | tail _ _ hstep ih => exact ih.trans (step_grows hstep source)

theorem unchanged_of_revision (h : Run C rows rows') (hrow : rows source = some row)
    (hrow' : rows' source = some row') (hrevision : row.revision = row'.revision) : row' = row := by
  rcases run_grows h source with hsame | ⟨row₁, row₁', hrow₁, hrow₁', hlt⟩
  · rw [hrow, hrow'] at hsame
    exact Option.some.inj hsame
  · cases hrow.symm.trans hrow₁
    cases hrow'.symm.trans hrow₁'
    omega

/-- What is between two states with one revision has it as well. -/
theorem unchanged_between {past mid : SourceRows} (h : Run C past mid) (h' : Run C mid rows)
    (hrow : past source = some row) (hrow' : rows source = some row')
    (hrevision : row.revision = row'.revision) : mid source = some row := by
  rcases run_grows h source with hsame | ⟨row₁, row₂, hrow₁, hrow₂, hlt⟩
  · rw [hsame, hrow]
  · cases hrow.symm.trans hrow₁
    rcases run_grows h' source with hsame' | ⟨row₃, row₄, hrow₃, hrow₄, hlt'⟩
    · cases hrow₂.symm.trans (hsame'.symm.trans hrow')
      omega
    · cases hrow₂.symm.trans hrow₃
      cases hrow'.symm.trans hrow₄
      omega

/-- Along every run of calls on any rows: a revision never decreases, and is greater after every
change; a failure that is cleared is one of the operation in a source that has not changed since it had
the observed revision; and after a change that was made since then, such as a failure that was
recorded, nothing is cleared. -/
theorem late_success_keeps_failure (C : Checks F) :
    (∀ rows label rows', (sourcesSystem C).step rows label = some rows' →
      ∀ source row, rows source = some row → ∃ row', rows' source = some row' ∧
        row.revision ≤ row'.revision ∧
        ((row'.enabled ≠ row.enabled ∨ row'.failure ≠ row.failure) →
          row.revision < row'.revision)) ∧
    (∀ rows operation (observedRevision : ℤ) rows' settings source row,
      clearSourceFailure C rows operation observedRevision = .ok (rows', settings) →
      rows source = some row → rows' source ≠ some row →
      source = operation.source ∧ row.revision = observedRevision ∧
      row.failure.map SourceFailure.operation = some operation ∧
      rows' source = some { row with revision := row.revision + 1, failure := none } ∧
      ∀ past mid row₀, Run C past mid → Run C mid rows → past source = some row₀ →
        row₀.revision = observedRevision → mid source = some row) ∧
    (∀ past mid mid' rows label operation rows' settings row,
      Run C past mid → (sourcesSystem C).step mid label = some mid' → Run C mid' rows →
      past operation.source = some row → mid' operation.source ≠ mid operation.source →
      clearSourceFailure C rows operation row.revision = .ok (rows', settings) → rows' = rows) ∧
    ∀ rows failure rows' settings, recordSourceFailure C rows failure = .ok (rows', settings) →
      rows' failure.operation.source ≠ rows failure.operation.source := by
  refine ⟨fun rows label rows' hstep source row hrow => ?_,
    fun rows operation observedRevision rows' settings source row h hrow hchanged => ?_,
    fun past mid mid' rows label operation rows' settings row hpast hstep hrun hrow hchanged h => ?_,
    fun rows failure rows' settings h => ?_⟩
  · rcases step_grows hstep source with hsame | ⟨row₁, row', hrow₁, hrow', hlt⟩
    · refine ⟨row, hsame.trans hrow, le_rfl, ?_⟩
      rintro (hne | hne)
      · exact absurd rfl hne
      · exact absurd rfl hne
    · cases hrow.symm.trans hrow₁
      exact ⟨row', hrow', hlt.le, fun _ => hlt⟩
  · rcases clearSourceFailure_cases h with rfl | ⟨row₁, failure, hrevision, hfailure, hop, hcounted⟩
    · exact absurd hrow hchanged
    · obtain ⟨hbefore, rfl, -⟩ := hcounted
      have hsource : source = operation.source := by
        by_contra hne
        exact hchanged ((Function.update_of_ne hne ..).trans hrow)
      subst hsource
      cases hrow.symm.trans hbefore
      refine ⟨rfl, hrevision, ?_, Function.update_self .., ?_⟩
      · rw [hfailure, Option.map_some, hop]
      · intro past mid row₀ hpast hmid hrow₀ hrevision₀
        have hequal : row₀.revision = row.revision := by
          have hcast := hrevision₀.trans hrevision.symm
          exact_mod_cast hcast
        have hsame := unchanged_of_revision (hmid.preserves
          (fun _ _ _ ih ha hs => ih.tail ha hs) hpast) hrow₀ hrow hequal
        rw [unchanged_between hpast hmid hrow₀ hrow hequal, hsame]
  · rcases clearSourceFailure_cases h with hsame | ⟨row₁, _, hrevision, -, -, hcounted⟩
    · exact hsame
    · have hequal : row.revision = row₁.revision := by exact_mod_cast hrevision.symm
      have hrest : Run C mid rows := by
        have hfirst : Run C mid mid' := .tail .refl trivial hstep
        exact hrun.preserves (fun _ _ _ ih ha hs => ih.tail ha hs) hfirst
      have hmid := unchanged_between hpast hrest hrow hcounted.before hequal
      have hmid' : mid' operation.source = some row :=
        unchanged_between (hpast.tail trivial hstep) hrun hrow hcounted.before hequal
      exact absurd (hmid'.trans hmid.symm) hchanged
  · obtain ⟨row, hbefore, rfl, -⟩ := recordSourceFailure_counted h
    rw [Function.update_self, hbefore]
    intro heq
    have hrevision := congrArg SourceRow.revision (Option.some.inj heq)
    dsimp only at hrevision
    omega

/-! ### A search that failed -/

def acceptReferences : Checks Unit where
  unicode := ⟨fun _ => true, fun c => [c], fun cs => cs⟩
  publication _ := true
  variant _ := true
  chapter _ := true
  offset _ := true

def sampleFailure : SourceFailure := ⟨.search .nyaa "x" .anime none, .timeout⟩

def sampleSettings : SourceRows := fun _ => some ⟨true, 0, none⟩

/-- The failure of a search is recorded, and a success of the same search that began before does not
clear it. -/
theorem late_success_keeps_failure_sample : ∃ rows settings rows' settings',
    recordSourceFailure acceptReferences sampleSettings sampleFailure = .ok (rows, settings) ∧
    clearSourceFailure acceptReferences rows sampleFailure.operation 0 = .ok (rows', settings') ∧
    rows' = rows := by
  refine ⟨_, _, _, _, rfl, rfl, ?_⟩
  refine (late_success_keeps_failure acceptReferences).2.2.1 sampleSettings sampleSettings _ _
    (.recordSourceFailure sampleFailure, false) sampleFailure.operation _ _ ⟨true, 0, none⟩
    .refl rfl .refl rfl ?_ rfl
  exact (late_success_keeps_failure acceptReferences).2.2.2 sampleSettings sampleFailure _ _ rfl

end Qbutt.Library
