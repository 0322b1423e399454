import Qbutt.Association.Equiv.Arrival
import Qbutt.Library.Equiv.Entry

/-!
# What was opened and read stays in the library

A call that changes the membership of a work sends the parts that it splits off to the rows of their own
anchors.  These anchors are different (`Split`), so every part meets the row that was there before the
call, and what the rows hold afterwards is the union over the parts of what one of them does (`Received`).
-/

namespace Qbutt.Library

open Qbutt.Content Qbutt.Association List

variable {F : Type} {C : Checks F} {rows rows₁ rows' : Rows F} {key : PublicationRef}

def RowsValid (C : Checks F) (rows : Rows F) : Prop :=
  ∀ key entry, rows key = some entry → entry.validate C = .ok () ∧ entry.group.anchor = key

def Opened (rows : Rows F) (key : PublicationRef) (opened : LastOpened) : Prop :=
  ∃ row, rows key = some row ∧ row.lastOpened = some opened

/-- The row of an anchor has a position. -/
def Read (rows : Rows F) (key : PublicationRef) (progress : ReaderProgress F) : Prop :=
  ∃ row, rows key = some row ∧ row.readerProgress = some progress

/-! ### Reading and writing rows -/

theorem readEntry_spec {found : Option (LibraryEntry F)}
    (h : readEntry C rows key = .ok found) :
    rows key = found ∧ ∀ entry, found = some entry →
      entry.validate C = .ok () ∧ entry.group.anchor = key := by
  unfold readEntry at h
  cases hrow : rows key with
  | none =>
    rw [hrow] at h
    obtain rfl : none = found := by simpa using h
    exact ⟨rfl, fun _ hsome => nomatch hsome⟩
  | some entry =>
    rw [hrow] at h
    obtain ⟨⟨⟩, hvalid, h⟩ := bind_eq_ok.mp h
    split at h
    · cases h
    · rename_i hkey
      obtain rfl : some entry = found := by simpa [pure, Except.pure] using h
      refine ⟨rfl, fun entry' hsome => ?_⟩
      cases hsome
      exact ⟨mapError_eq_ok.mp hvalid, not_not.mp hkey⟩

variable {part entry : LibraryEntry F}
  {group : WorkGroup} {saved saved' row written : LibraryEntry F}

theorem writeEntry_spec (h : writeEntry C rows entry = .ok rows') :
    entry.validate C = .ok () ∧ rows' = Function.update rows entry.group.anchor (some entry) := by
  obtain ⟨⟨⟩, hvalid, h⟩ := bind_eq_ok.mp h
  refine ⟨mapError_eq_ok.mp hvalid, ?_⟩
  simpa [pure, Except.pure, eq_comm] using h

theorem RowsValid.write (hrows : RowsValid C rows) (hentry : entry.validate C = .ok ()) :
    RowsValid C (Function.update rows entry.group.anchor (some entry)) := by
  intro key row hrow
  by_cases hkey : key = entry.group.anchor
  · subst hkey
    rw [Function.update_self] at hrow
    cases hrow
    exact ⟨hentry, rfl⟩
  · rw [Function.update_of_ne hkey] at hrow
    exact hrows key row hrow

/-! ### Parts that are split off -/

structure Received (C : Checks F) (rows rows' : Rows F) (parts : List (LibraryEntry F)) : Prop where
  frame : ∀ key, (∀ part ∈ parts, part.group.anchor ≠ key) → rows' key = rows key
  valid : RowsValid C rows → RowsValid C rows'
  lastOpened : ∀ part ∈ parts, ∀ opened, part.lastOpened = some opened →
    Opened rows' part.group.anchor opened ∨
      ∃ held, Opened rows part.group.anchor held ∧ opened.atUnixMillis ≤ held.atUnixMillis
  readerProgress : ∀ part ∈ parts, ∀ progress, part.readerProgress = some progress →
    Read rows' part.group.anchor progress ∨ ∃ held, Read rows part.group.anchor held
  opened : ∀ key opened, Opened rows key opened → Opened rows' key opened ∨
    ∃ part ∈ parts, part.group.anchor = key ∧ ∃ newer, part.lastOpened = some newer ∧
      opened.atUnixMillis < newer.atUnixMillis ∧ Opened rows' key newer
  read : ∀ key progress, Read rows key progress → Read rows' key progress

theorem Received.refl (C : Checks F) (rows : Rows F) : Received C rows rows [] :=
  ⟨fun _ _ => rfl, id, fun _ h => absurd h not_mem_nil, fun _ h => absurd h not_mem_nil,
    fun _ _ h => .inl h, fun _ _ h => h⟩

theorem Received.cons {parts : List (LibraryEntry F)} (hpart : Received C rows rows₁ [part])
    (hparts : Received C rows₁ rows' parts)
    (hne : ∀ other ∈ parts, part.group.anchor ≠ other.group.anchor) :
    Received C rows rows' (part :: parts) := by
  have hframe : rows' part.group.anchor = rows₁ part.group.anchor :=
    hparts.frame _ fun other hother => (hne other hother).symm
  have hother : ∀ other ∈ parts, rows₁ other.group.anchor = rows other.group.anchor :=
    fun other hmem => hpart.frame _ (forall_mem_singleton.mpr (hne other hmem))
  constructor
  · intro key hkey
    obtain ⟨hhere, hthere⟩ := forall_mem_cons.mp hkey
    rw [hparts.frame key hthere, hpart.frame key (forall_mem_singleton.mpr hhere)]
  · exact fun hvalid => hparts.valid (hpart.valid hvalid)
  · refine forall_mem_cons.mpr ⟨fun opened hopened => ?_, fun other hmem opened hopened => ?_⟩
    · have h := hpart.lastOpened part mem_cons_self opened hopened
      unfold Opened at h ⊢
      rwa [hframe]
    · have h := hparts.lastOpened other hmem opened hopened
      unfold Opened at h ⊢
      rwa [hother other hmem] at h
  · refine forall_mem_cons.mpr ⟨fun progress hread => ?_, fun other hmem progress hread => ?_⟩
    · have h := hpart.readerProgress part mem_cons_self progress hread
      unfold Read at h ⊢
      rwa [hframe]
    · have h := hparts.readerProgress other hmem progress hread
      unfold Read at h ⊢
      rwa [hother other hmem] at h
  · intro key opened hopened
    rcases hpart.opened key opened hopened with hkept | ⟨_, hmem, rfl, newer, hnewer, hlt, hheld⟩
    · rcases hparts.opened key opened hkept with hkept | ⟨other, hmem, hgave⟩
      · exact .inl hkept
      · exact .inr ⟨other, mem_cons_of_mem _ hmem, hgave⟩
    · obtain rfl := mem_singleton.mp hmem
      refine .inr ⟨_, mem_cons_self, rfl, newer, hnewer, hlt, ?_⟩
      unfold Opened at hheld ⊢
      rwa [hframe]
  · exact fun key progress hread => hparts.read key progress (hpart.read key progress hread)

theorem retainOpenedVariant_anchor {current previous : WorkGroup} {reference : VariantRef}
    (h : retainOpenedVariant current previous reference = .ok group) :
    group.anchor = current.anchor := by
  unfold retainOpenedVariant at h
  split at h
  · cases h
  · split at h
    · split at h
      · rw [Except.ok.inj h]
      · split at h
        · cases h
        · rw [← Except.ok.inj h]
    · rw [← Except.ok.inj h]

theorem receiveOpened_spec {opened : Option LastOpened}
    (h : receiveOpened part saved opened = .ok saved') :
    saved'.group.anchor = saved.group.anchor ∧ saved'.readerProgress = saved.readerProgress ∧
      saved'.lastOpened = (opened <|> saved.lastOpened) := by
  cases opened with
  | none =>
    cases h
    exact ⟨rfl, rfl, rfl⟩
  | some opened =>
    obtain ⟨group, hgroup, h⟩ := bind_eq_ok.mp h
    cases h
    exact ⟨retainOpenedVariant_anchor hgroup, rfl, rfl⟩

theorem receiveProgress_spec {progress : Option (ReaderProgress F)}
    (h : receiveProgress part saved progress = .ok saved') :
    saved'.group.anchor = saved.group.anchor ∧ saved'.lastOpened = saved.lastOpened ∧
      saved'.readerProgress = (progress <|> saved.readerProgress) := by
  cases progress with
  | none =>
    cases h
    exact ⟨rfl, rfl, rfl⟩
  | some progress =>
    obtain ⟨group, hgroup, h⟩ := bind_eq_ok.mp h
    cases h
    exact ⟨retainOpenedVariant_anchor hgroup, rfl, rfl⟩

theorem received_single {held : Option LastOpened} {position : Option (ReaderProgress F)}
    (hframe : ∀ key, key ≠ part.group.anchor → rows' key = rows key)
    (hvalid : RowsValid C rows → RowsValid C rows')
    (hheld : ∀ opened, Opened rows part.group.anchor opened ↔ held = some opened)
    (hposition : ∀ progress, Read rows part.group.anchor progress ↔ position = some progress)
    (hopened : ∀ opened, Opened rows' part.group.anchor opened ↔
      (part.lastOpened.filter (fun opened =>
        held.all fun saved => saved.atUnixMillis < opened.atUnixMillis) <|> held) = some opened)
    (hread : ∀ progress, Read rows' part.group.anchor progress ↔
      (part.readerProgress.filter (fun _ => position.isNone) <|> position) = some progress) :
    Received C rows rows' [part] := by
  constructor
  · exact fun key hkey => hframe key (hkey part mem_cons_self).symm
  · exact hvalid
  · refine forall_mem_singleton.mpr fun opened hsome => ?_
    rw [hopened, hsome]
    cases hcase : held with
    | none => exact .inl rfl
    | some saved =>
      by_cases hlt : saved.atUnixMillis < opened.atUnixMillis
      · exact .inl (by simp [Option.filter, hlt])
      · exact .inr ⟨saved, (hheld saved).mpr hcase, not_lt.mp hlt⟩
  · refine forall_mem_singleton.mpr fun progress hsome => ?_
    rw [hread, hsome]
    cases hcase : position with
    | none => exact .inl rfl
    | some saved => exact .inr ⟨saved, (hposition saved).mpr hcase⟩
  · intro key opened hbefore
    by_cases hkey : key = part.group.anchor
    · subst hkey
      have hsaved := (hheld opened).mp hbefore
      cases hpart : part.lastOpened with
      | none => exact .inl ((hopened opened).mpr (by rw [hpart, hsaved]; rfl))
      | some newer =>
        by_cases hlt : opened.atUnixMillis < newer.atUnixMillis
        · refine .inr ⟨part, mem_cons_self, rfl, newer, hpart, hlt, (hopened newer).mpr ?_⟩
          simp [hpart, hsaved, Option.filter, hlt]
        · refine .inl ((hopened opened).mpr ?_)
          simp [hpart, hsaved, Option.filter, hlt]
    · left
      unfold Opened at hbefore ⊢
      rwa [hframe key hkey]
  · intro key progress hbefore
    by_cases hkey : key = part.group.anchor
    · subst hkey
      have hsaved := (hposition progress).mp hbefore
      refine (hread progress).mpr ?_
      cases hpart : part.readerProgress with
      | none => rw [hsaved]; rfl
      | some other => rw [hsaved]; rfl
    · unfold Read at hbefore ⊢
      rwa [hframe key hkey]

theorem opened_iff (hrow : rows key = some row) (opened : LastOpened) :
    Opened rows key opened ↔ row.lastOpened = some opened := by
  unfold Opened
  rw [hrow]
  exact ⟨fun ⟨_, heq, h⟩ => Option.some.inj heq ▸ h, fun h => ⟨row, rfl, h⟩⟩

theorem read_iff (hrow : rows key = some row) (progress : ReaderProgress F) :
    Read rows key progress ↔ row.readerProgress = some progress := by
  unfold Read
  rw [hrow]
  exact ⟨fun ⟨_, heq, h⟩ => Option.some.inj heq ▸ h, fun h => ⟨row, rfl, h⟩⟩

theorem received_of_preserve (h : preserveDetachedEntry C rows part = .ok rows') :
    Received C rows rows' [part] := by
  obtain ⟨found, hfound, h⟩ := bind_eq_ok.mp h
  obtain ⟨hrow, hsaved⟩ := readEntry_spec hfound
  cases found with
  | none =>
    obtain ⟨hpart, rfl⟩ := writeEntry_spec h
    have hnew : Function.update rows part.group.anchor (some part) part.group.anchor = some part :=
      Function.update_self ..
    refine @received_single _ _ _ _ part none none ?_ ?_ ?_ ?_ ?_ ?_
    · exact fun key hkey => Function.update_of_ne hkey ..
    · exact fun hrows => hrows.write hpart
    · intro opened
      simp [Opened, hrow]
    · intro progress
      simp [Read, hrow]
    · intro opened
      rw [opened_iff hnew]
      simp
    · intro progress
      rw [read_iff hnew]
      simp
  | some saved =>
    obtain ⟨-, hanchor⟩ := hsaved saved rfl
    dsimp only at h
    split at h
    · rename_i hnothing
      rw [Bool.and_eq_true, Option.isNone_iff_eq_none, Option.isNone_iff_eq_none] at hnothing
      cases h
      refine received_single (fun _ _ => rfl) id (opened_iff hrow) (read_iff hrow) ?_ ?_
      · intro opened
        rw [opened_iff hrow, hnothing.1]
        rfl
      · intro progress
        rw [read_iff hrow, hnothing.2]
        rfl
    · obtain ⟨saved₁, hopened, h⟩ := bind_eq_ok.mp h
      obtain ⟨saved₂, hprogress, h⟩ := bind_eq_ok.mp h
      obtain ⟨hanchor₁, hread₁, hlast₁⟩ := receiveOpened_spec hopened
      obtain ⟨hanchor₂, hlast₂, hread₂⟩ := receiveProgress_spec hprogress
      obtain ⟨hvalid, rfl⟩ := writeEntry_spec h
      have hsame : saved₂.group.anchor = part.group.anchor := by rw [hanchor₂, hanchor₁, hanchor]
      have hnew : Function.update rows saved₂.group.anchor (some saved₂) part.group.anchor =
          some saved₂ := by rw [← hsame, Function.update_self]
      refine received_single ?_ ?_ (opened_iff hrow) (read_iff hrow) ?_ ?_
      · exact fun key hkey => Function.update_of_ne (hsame ▸ hkey) ..
      · exact fun hrows => hrows.write hvalid
      · intro opened
        rw [opened_iff hnew, hlast₂, hlast₁]
      · intro progress
        rw [read_iff hnew, hread₂, hread₁]

theorem received_of_foldlM {parts : List (LibraryEntry F)}
    (hanchors : parts.Pairwise fun part other => part.group.anchor ≠ other.group.anchor)
    (h : parts.foldlM (preserveDetachedEntry C) rows = .ok rows') : Received C rows rows' parts := by
  induction hanchors generalizing rows with
  | nil =>
    obtain rfl := Except.ok.inj h
    exact .refl C rows
  | cons hne _ ih =>
    rw [foldlM_cons] at h
    obtain ⟨rows₁, hpart, h⟩ := bind_eq_ok.mp h
    exact (received_of_preserve hpart).cons (ih h) hne

/-! ### Calls -/

def Call.anchor : Call F → PublicationRef
  | setFavorite group _ => group.anchor
  | savePreferences group _ => group.anchor
  | recordOpened group _ _ => group.anchor
  | saveReaderProgress group _ _ => group.anchor
  | removeHistory reference => reference

def splitOff (C : Checks F) (rows : Rows F) (group : WorkGroup) : List (LibraryEntry F) :=
  match rows group.anchor with
  | some entry => detachedEntries C.unicode entry group
  | none => []

def Call.parts (C : Checks F) (rows : Rows F) : Call F → List (LibraryEntry F)
  | setFavorite group _ => splitOff C rows group
  | savePreferences group _ => splitOff C rows group
  | recordOpened group _ _ => splitOff C rows group
  | saveReaderProgress group _ _ => splitOff C rows group
  | removeHistory _ => []

def Call.ReplacesOpened (key : PublicationRef) (opened : LastOpened) : Call F → Prop
  | recordOpened group _ _ =>
    key = group.anchor ∧ opened.variant.publication ∈ group.references
  | saveReaderProgress group _ _ =>
    key = group.anchor ∧ opened.variant.publication ∈ group.references
  | removeHistory reference => key = reference
  | _ => False

def Call.ReplacesProgress (key : PublicationRef) (progress : ReaderProgress F) : Call F → Prop
  | saveReaderProgress group _ _ =>
    key = group.anchor ∧ progress.chapter.variant.publication ∈ group.references
  | _ => False

def HoldsOpened (rows : Rows F) (opened : LastOpened) : Prop :=
  ∃ key row, rows key = some row ∧ row.lastOpened = some opened ∧
    ∃ work ∈ row.group.publications, work.reference = opened.variant.publication

/-- A position is in the row of a work with its publication. -/
def HoldsProgress (rows : Rows F) (progress : ReaderProgress F) : Prop :=
  ∃ key row, rows key = some row ∧ row.readerProgress = some progress ∧
    ∃ work ∈ row.group.publications, work.reference = progress.chapter.variant.publication

def Outdated (rows : Rows F) (parts : List (LibraryEntry F)) (opened : LastOpened) : Prop :=
  ∃ part ∈ parts, part.lastOpened = some opened ∧
    ∃ held, Opened rows part.group.anchor held ∧ opened.atUnixMillis ≤ held.atUnixMillis

/-- A position was split off, for a row with a position. -/
def Occupied (rows : Rows F) (parts : List (LibraryEntry F)) (progress : ReaderProgress F) : Prop :=
  ∃ part ∈ parts, part.readerProgress = some progress ∧ ∃ held, Read rows part.group.anchor held

def GaveWay (rows' : Rows F) (parts : List (LibraryEntry F)) (key : PublicationRef)
    (opened : LastOpened) : Prop :=
  ∃ part ∈ parts, part.group.anchor = key ∧ ∃ newer, part.lastOpened = some newer ∧
    opened.atUnixMillis < newer.atUnixMillis ∧ Opened rows' key newer

structure HistoryKept (C : Checks F) (rows rows' : Rows F) (c : Call F) : Prop where
  frame : ∀ key, key ≠ c.anchor → (∀ part ∈ c.parts C rows, part.group.anchor ≠ key) →
    rows' key = rows key
  opened : ∀ key opened, Opened rows key opened →
    HoldsOpened rows' opened ∨ c.ReplacesOpened key opened ∨
    (key = c.anchor ∧ Outdated rows (c.parts C rows) opened) ∨
    GaveWay rows' (c.parts C rows) key opened
  read : ∀ key progress, Read rows key progress →
    HoldsProgress rows' progress ∨ c.ReplacesProgress key progress ∨
    (key = c.anchor ∧ Occupied rows (c.parts C rows) progress)

theorem RowsValid.holdsOpened (hrows : RowsValid C rows) {opened : LastOpened}
    (hopened : Opened rows key opened) : HoldsOpened rows opened := by
  obtain ⟨row, hrow, hlast⟩ := hopened
  obtain ⟨work, hwork, heq⟩ := (coherent_of_validate (hrows key row hrow).1).opened hlast
  exact ⟨key, row, hrow, hlast, work, hwork, heq.symm⟩

theorem RowsValid.holdsProgress (hrows : RowsValid C rows) {progress : ReaderProgress F}
    (hread : Read rows key progress) : HoldsProgress rows progress := by
  obtain ⟨row, hrow, hprogress⟩ := hread
  obtain ⟨work, hwork, heq⟩ := (coherent_of_validate (hrows key row hrow).1).progress hprogress
  exact ⟨key, row, hrow, hprogress, work, hwork, heq.symm⟩

/-- What an update does; the row of the anchor is the one that `change` makes of an entry that has the
history of the publications that stay. -/
structure Updated (C : Checks F) (rows rows' : Rows F) (group : WorkGroup)
    (change : LibraryEntry F → ℤ → LibraryEntry F) : Prop where
  valid : RowsValid C rows'
  frame : ∀ key, key ≠ group.anchor → (∀ part ∈ splitOff C rows group, part.group.anchor ≠ key) →
    rows' key = rows key
  opened : ∀ key opened, Opened rows key opened →
    (∃ key', Opened rows' key' opened) ∨
    (key = group.anchor ∧ Outdated rows (splitOff C rows group) opened) ∨
    GaveWay rows' (splitOff C rows group) key opened ∨
    (key = group.anchor ∧ opened.variant.publication ∈ group.references ∧
      ∃ before timestamp, rows' group.anchor = some (change before timestamp) ∧
        before.lastOpened = some opened)
  read : ∀ key progress, Read rows key progress →
    (∃ key', Read rows' key' progress) ∨
    (key = group.anchor ∧ Occupied rows (splitOff C rows group) progress) ∨
    (key = group.anchor ∧ progress.chapter.variant.publication ∈ group.references ∧
      ∃ before timestamp, rows' group.anchor = some (change before timestamp) ∧
        before.readerProgress = some progress)

variable {change : LibraryEntry F → ℤ → LibraryEntry F}

/-- The result of an update whose parts were received. -/
theorem updated_of_received {timestamp : ℤ} (hrows : RowsValid C rows)
    (hchange : ∀ entry timestamp, (change entry timestamp).group = entry.group)
    (hrow : rows group.anchor = some entry)
    (hreceived : Received C rows rows₁ (detachedEntries C.unicode entry group))
    (hwritten : change (reconcile C.unicode entry group).1 timestamp = written)
    (hvalid : written.validate C = .ok ()) :
    Updated C rows (Function.update rows₁ written.group.anchor (some written)) group change := by
  have hparts : splitOff C rows group = detachedEntries C.unicode entry group := by
    unfold splitOff
    rw [hrow]
  obtain ⟨hentry, hanchor⟩ := hrows _ _ hrow
  have hsplit := split_detachedEntries (U := C.unicode) (coherent_of_validate hentry) group
  have hgroup : written.group = (reconcile C.unicode entry group).1.group := by
    rw [← hwritten, hchange]
  have hkey : written.group.anchor = group.anchor := by rw [hgroup, ← hanchor]; rfl
  have hmem : group.anchor ∈ group.references := by
    have h := (coherent_of_validate hvalid).anchor
    rwa [hkey, hgroup] at h
  have hpart : ∀ part ∈ detachedEntries C.unicode entry group, part.group.anchor ≠ group.anchor :=
    fun part hpart heq => hsplit.outside part hpart (heq ▸ hmem)
  have hwrote : Function.update rows₁ written.group.anchor (some written) group.anchor =
      some written := by rw [← hkey, Function.update_self]
  have hchanged : Function.update rows₁ written.group.anchor (some written) group.anchor =
      some (change (reconcile C.unicode entry group).1 timestamp) := by rw [hwritten, hwrote]
  have hother : ∀ key, key ≠ group.anchor →
      Function.update rows₁ written.group.anchor (some written) key = rows₁ key :=
    fun key hne => Function.update_of_ne (hkey ▸ hne) ..
  have hopened : ∀ key opened, key ≠ group.anchor → Opened rows₁ key opened →
      Opened (Function.update rows₁ written.group.anchor (some written)) key opened := by
    intro key opened hne h
    unfold Opened at h ⊢
    rwa [hother key hne]
  have hread : ∀ key progress, key ≠ group.anchor → Read rows₁ key progress →
      Read (Function.update rows₁ written.group.anchor (some written)) key progress := by
    intro key progress hne h
    unfold Read at h ⊢
    rwa [hother key hne]
  refine ⟨(hreceived.valid hrows).write hvalid, ?_, ?_, ?_⟩
  · intro key hne hnot
    rw [hother key hne, hreceived.frame key (hparts ▸ hnot)]
  · intro key opened hbefore
    by_cases hhere : key = group.anchor
    · subst hhere
      rw [opened_iff hrow] at hbefore
      by_cases hstays : opened.variant.publication ∈ group.references
      · refine .inr (.inr (.inr ⟨rfl, hstays, _, timestamp, hchanged, ?_⟩))
        exact Option.filter_eq_some_iff.mpr ⟨hbefore, by simpa using hstays⟩
      · obtain ⟨part, hmem, hlast⟩ := hsplit.opened opened hbefore hstays
        rcases hreceived.lastOpened part hmem opened hlast with hgot | hheld
        · exact .inl ⟨_, hopened _ _ (hpart part hmem) hgot⟩
        · exact .inr (.inl ⟨rfl, part, hparts ▸ hmem, hlast, hheld⟩)
    · rcases hreceived.opened key opened hbefore with hkept | ⟨part, hmem, heq, newer, hnewer, hlt, hgot⟩
      · exact .inl ⟨key, hopened _ _ hhere hkept⟩
      · exact .inr (.inr (.inl
          ⟨part, hparts ▸ hmem, heq, newer, hnewer, hlt, hopened _ _ hhere hgot⟩))
  · intro key progress hbefore
    by_cases hhere : key = group.anchor
    · subst hhere
      rw [read_iff hrow] at hbefore
      by_cases hstays : progress.chapter.variant.publication ∈ group.references
      · refine .inr (.inr ⟨rfl, hstays, _, timestamp, hchanged, ?_⟩)
        exact Option.filter_eq_some_iff.mpr ⟨hbefore, by simpa using hstays⟩
      · obtain ⟨part, hmem, hlast⟩ := hsplit.progress progress hbefore hstays
        rcases hreceived.readerProgress part hmem progress hlast with hgot | hheld
        · exact .inl ⟨_, hread _ _ (hpart part hmem) hgot⟩
        · exact .inr (.inl ⟨rfl, part, hparts ▸ hmem, hlast, hheld⟩)
    · exact .inl ⟨key, hread _ _ hhere (hreceived.read key progress hbefore)⟩

theorem updated_of_new (hrows : RowsValid C rows) (hrow : rows group.anchor = none)
    (hgroup : written.group = group) (hvalid : written.validate C = .ok ()) :
    Updated C rows (Function.update rows written.group.anchor (some written)) group change := by
  have hother : ∀ key entry, rows key = some entry →
      Function.update rows written.group.anchor (some written) key = some entry := by
    intro key entry h
    rw [Function.update_of_ne, h]
    rintro rfl
    rw [hgroup, hrow] at h
    cases h
  refine ⟨hrows.write hvalid, ?_, ?_, ?_⟩
  · exact fun key hne _ => Function.update_of_ne (hgroup ▸ hne) ..
  · rintro key opened ⟨entry, h, hlast⟩
    exact .inl ⟨key, entry, hother key entry h, hlast⟩
  · rintro key progress ⟨entry, h, hread⟩
    exact .inl ⟨key, entry, hother key entry h, hread⟩

variable {now : Option ℤ}

theorem updateEntry_spec {result : LibraryEntry F} (hrows : RowsValid C rows)
    (hchange : ∀ entry timestamp, (change entry timestamp).group = entry.group)
    (h : updateEntry C rows now group change = .ok (rows', result)) :
    Updated C rows rows' group change := by
  obtain ⟨found, hfound, h⟩ := bind_eq_ok.mp h
  obtain ⟨hrow, -⟩ := readEntry_spec hfound
  cases now with
  | none => cases found <;> cases h
  | some timestamp =>
    cases found with
    | some entry =>
      obtain ⟨rows₁, hparts, h⟩ := bind_eq_ok.mp h
      obtain ⟨rows₂, hwritten, h⟩ := bind_eq_ok.mp h
      cases h
      obtain ⟨hvalid, rfl⟩ := writeEntry_spec hwritten
      have hsplit := split_detachedEntries (U := C.unicode)
        (coherent_of_validate (hrows _ _ hrow).1) group
      exact updated_of_received hrows hchange hrow (received_of_foldlM hsplit.anchors hparts) rfl hvalid
    | none =>
      obtain ⟨rows₁, hparts, h⟩ := bind_eq_ok.mp h
      cases hparts
      obtain ⟨rows₂, hwritten, h⟩ := bind_eq_ok.mp h
      cases h
      obtain ⟨hvalid, rfl⟩ := writeEntry_spec hwritten
      exact updated_of_new hrows hrow (hchange _ _) hvalid

/-! ### What calls do to the history -/

theorem Updated.historyKept {c : Call F} (h : Updated C rows rows' group change)
    (hanchor : c.anchor = group.anchor) (hparts : c.parts C rows = splitOff C rows group)
    (hopened : ∀ entry timestamp opened, entry.lastOpened = some opened →
      opened.variant.publication ∈ group.references →
      (change entry timestamp).lastOpened = some opened ∨ c.ReplacesOpened group.anchor opened)
    (hread : ∀ entry timestamp progress, entry.readerProgress = some progress →
      progress.chapter.variant.publication ∈ group.references →
      (change entry timestamp).readerProgress = some progress ∨
        c.ReplacesProgress group.anchor progress) : HistoryKept C rows rows' c := by
  constructor
  · intro key hne hnot
    rw [hanchor] at hne
    rw [hparts] at hnot
    exact h.frame key hne hnot
  · intro key opened hbefore
    rw [hanchor, hparts]
    rcases h.opened key opened hbefore with
      ⟨key', hkept⟩ | holder | hgave | ⟨rfl, hstays, entry, timestamp, hrow, hlast⟩
    · exact .inl (h.valid.holdsOpened hkept)
    · exact .inr (.inr (.inl holder))
    · exact .inr (.inr (.inr hgave))
    · rcases hopened entry timestamp opened hlast hstays with hkept | hreplaced
      · exact .inl (h.valid.holdsOpened ⟨_, hrow, hkept⟩)
      · exact .inr (.inl hreplaced)
  · intro key progress hbefore
    rw [hanchor, hparts]
    rcases h.read key progress hbefore with
      ⟨key', hkept⟩ | hheld | ⟨rfl, hstays, entry, timestamp, hrow, hlast⟩
    · exact .inl (h.valid.holdsProgress hkept)
    · exact .inr (.inr hheld)
    · rcases hread entry timestamp progress hlast hstays with hkept | hreplaced
      · exact .inl (h.valid.holdsProgress ⟨_, hrow, hkept⟩)
      · exact .inr (.inl hreplaced)

variable {result : Option (LibraryEntry F)}

/-- An update, as a call returns it. -/
theorem update_of_run (hrows : RowsValid C rows)
    (h : (updateEntry C rows now group change).map (Prod.map id some) = .ok (rows', result))
    (hchange : ∀ entry timestamp, (change entry timestamp).group = entry.group) :
    Updated C rows rows' group change := by
  cases hupdate : updateEntry C rows now group change with
  | error error => rw [hupdate] at h; cases h
  | ok after =>
    obtain ⟨rows₁, entry⟩ := after
    rw [hupdate] at h
    cases h
    exact updateEntry_spec hrows hchange hupdate

theorem removeHistory_spec {reference : PublicationRef} (hrows : RowsValid C rows)
    (h : removeHistory C rows now reference = .ok (rows', result)) :
    RowsValid C rows' ∧ HistoryKept C rows rows' (.removeHistory reference) := by
  obtain ⟨found, hfound, hrest⟩ := bind_eq_ok.mp h
  obtain ⟨hrow, hsaved⟩ := readEntry_spec hfound
  cases found with
  | none =>
    cases hrest
    exact ⟨hrows, fun _ _ _ => rfl, fun key opened hopened => .inl (hrows.holdsOpened hopened),
      fun key progress hread => .inl (hrows.holdsProgress hread)⟩
  | some entry =>
    obtain ⟨-, rfl⟩ := hsaved entry rfl
    cases now with
    | none => cases hrest
    | some timestamp =>
      obtain ⟨rows₁, hwritten, hend⟩ := bind_eq_ok.mp hrest
      cases hend
      obtain ⟨hvalid, rfl⟩ := writeEntry_spec hwritten
      have hvalid' := hrows.write hvalid
      have hwrote : ∀ before : Option (LibraryEntry F),
          Function.update rows entry.group.anchor before entry.group.anchor = before :=
        fun before => Function.update_self ..
      refine ⟨hvalid', fun key hne _ => Function.update_of_ne hne .., fun key opened hopened => ?_,
        fun key progress hread => .inl ?_⟩
      · by_cases hkey : key = entry.group.anchor
        · exact .inr (.inl hkey)
        · refine .inl (@RowsValid.holdsOpened F C _ key hvalid' opened ?_)
          unfold Opened at hopened ⊢
          rwa [Function.update_of_ne hkey]
      · by_cases hkey : key = entry.group.anchor
        · subst hkey
          rw [read_iff hrow] at hread
          exact hvalid'.holdsProgress ⟨_, hwrote _, hread⟩
        · refine @RowsValid.holdsProgress F C _ key hvalid' progress ?_
          unfold Read at hread ⊢
          rwa [Function.update_of_ne hkey]

theorem run_spec {c : Call F} (hrows : RowsValid C rows)
    (h : c.run C rows now = .ok (rows', result)) :
    RowsValid C rows' ∧ HistoryKept C rows rows' c := by
  cases c with
  | setFavorite group favorite =>
    have hupdated := update_of_run hrows h fun _ _ => rfl
    exact ⟨hupdated.valid, hupdated.historyKept rfl rfl (fun _ _ _ h _ => .inl h)
      (fun _ _ _ h _ => .inl h)⟩
  | savePreferences group preferences =>
    have hupdated := update_of_run hrows h fun _ _ => rfl
    exact ⟨hupdated.valid, hupdated.historyKept rfl rfl (fun _ _ _ h _ => .inl h)
      (fun _ _ _ h _ => .inl h)⟩
  | recordOpened group variant preferences =>
    have hupdated := update_of_run hrows h fun _ _ => rfl
    exact ⟨hupdated.valid, hupdated.historyKept rfl rfl (fun _ _ _ _ h => .inr ⟨rfl, h⟩)
      (fun _ _ _ h _ => .inl h)⟩
  | saveReaderProgress group preferences progress =>
    have hupdated := update_of_run hrows h fun _ _ => rfl
    exact ⟨hupdated.valid, hupdated.historyKept rfl rfl (fun _ _ _ _ h => .inr ⟨rfl, h⟩)
      (fun _ _ _ _ h => .inr ⟨rfl, h⟩)⟩
  | removeHistory reference => exact removeHistory_spec hrows h

/-! ### A publication that is split off -/

def acceptAll : Checks Unit where
  unicode := asciiUnicode
  publication := fun _ => true
  variant := fun _ => true
  chapter := fun _ => true
  offset := fun _ => true

/-- A torrent of a publication of a tracker. -/
def sampleVariant (id infoHash : String) : Variant where
  reference := ⟨⟨.ruTor, id⟩, .torrentHash infoHash⟩
  title := none
  transport := .torrent
  episode := none
  quality := none
  translation := none
  languages := []
  player := none
  size := none
  seeders := none
  infoHash := some infoHash
  reportedVideoAds := false

/-- A book with one torrent. -/
def novel : Work := { samplePublication "1" .books "x" [] with variants := [sampleVariant "1" "a"] }

/-- Another publication of the book, with two torrents. -/
def reprint : Work :=
  { samplePublication "2" .books "x" [] with
    variants := [sampleVariant "2" "b", sampleVariant "2" "c"] }

/-- One torrent of the other publication, opened at a time. -/
def openedReprint (infoHash : String) (atUnixMillis : ℤ) : LastOpened :=
  ⟨⟨reprint.reference, .torrentHash infoHash⟩, atUnixMillis⟩

/-- The row of both publications, from which the later torrent was opened. -/
def bothEntry : LibraryEntry Unit :=
  { newEntry { anchor := novel.reference, references := [novel.reference, reprint.reference],
               publications := [novel, reprint] } with
    lastOpened := some (openedReprint "b" 10) }

/-- The row of the other publication alone, from which the earlier torrent was opened. -/
def reprintEntry : LibraryEntry Unit :=
  { newEntry (.single reprint) with lastOpened := some (openedReprint "c" 5) }

def sampleRows : Rows Unit :=
  Function.update (Function.update (fun _ => none) reprint.reference (some reprintEntry))
    novel.reference (some bothEntry)

/-- The first publication alone becomes a favorite. -/
def sampleCall : Call Unit := .setFavorite (.single novel) true

theorem sampleRows_valid : RowsValid acceptAll sampleRows := by
  have hempty : RowsValid acceptAll fun _ => none := fun _ _ h => nomatch h
  have hreprint : reprintEntry.validate acceptAll = .ok () := by decide +kernel
  have hboth : bothEntry.validate acceptAll = .ok () := by decide +kernel
  exact (hempty.write hreprint).write hboth

/-- The part that is split off comes with the later opening, and the earlier one is nowhere then. -/
theorem favorite_drops_older_opening :
    RowsValid acceptAll sampleRows ∧ Opened sampleRows reprint.reference (openedReprint "c" 5) ∧
    ∃ result rows', call acceptAll sampleRows (some 20) true sampleCall = (.ok result, rows') ∧
      ¬ HoldsOpened rows' (openedReprint "c" 5) ∧
      ¬ sampleCall.ReplacesOpened reprint.reference (openedReprint "c" 5) ∧
      ¬ Outdated sampleRows (sampleCall.parts acceptAll sampleRows) (openedReprint "c" 5) := by
  have hparts : (sampleCall.parts acceptAll sampleRows).map
      (fun part => (part.group.anchor, part.lastOpened)) =
        [(reprint.reference, some (openedReprint "b" 10))] := by decide +kernel
  have hpart : ∀ part ∈ sampleCall.parts acceptAll sampleRows,
      part.group.anchor = reprint.reference ∧ part.lastOpened = some (openedReprint "b" 10) := by
    intro part hmem
    have h := mem_map_of_mem (f := fun part => (part.group.anchor, part.lastOpened)) hmem
    rw [hparts, mem_singleton] at h
    exact Prod.mk.inj h
  refine ⟨sampleRows_valid, ⟨reprintEntry, by decide +kernel, rfl⟩, ?_⟩
  cases hrun : sampleCall.run acceptAll sampleRows (some 20) with
  | error error =>
    have hok : (sampleCall.run acceptAll sampleRows (some 20)).isOk = true := by decide +kernel
    rw [hrun] at hok
    cases hok
  | ok after =>
    obtain ⟨rows', result⟩ := after
    have hcall : call acceptAll sampleRows (some 20) true sampleCall = (.ok result, rows') := by
      unfold call
      rw [hrun]
      rfl
    have hreprint : (rows' reprint.reference).bind LibraryEntry.lastOpened =
        some (openedReprint "b" 10) := by
      have h : (((call acceptAll sampleRows (some 20) true sampleCall).2 reprint.reference).bind
        LibraryEntry.lastOpened) = some (openedReprint "b" 10) := by decide +kernel
      rwa [hcall] at h
    have hnovel : (rows' novel.reference).bind LibraryEntry.lastOpened = none := by
      have h : (((call acceptAll sampleRows (some 20) true sampleCall).2 novel.reference).bind
        LibraryEntry.lastOpened) = none := by decide +kernel
      rwa [hcall] at h
    refine ⟨result, rows', hcall, ?_, id, ?_⟩
    · rintro ⟨key, row, hrow, hlast, -⟩
      have hfound : (rows' key).bind LibraryEntry.lastOpened = some (openedReprint "c" 5) := by
        rw [hrow, Option.bind_some, hlast]
      by_cases hkey : key = novel.reference
      · rw [hkey, hnovel] at hfound
        cases hfound
      · by_cases hother : key = reprint.reference
        · rw [hother, hreprint] at hfound
          exact absurd hfound (by decide)
        · -- Nothing is written for any other anchor, and there was no row.
          have hframe := (run_spec sampleRows_valid hrun).2.frame key hkey
            fun part hmem => (hpart part hmem).1 ▸ Ne.symm hother
          rw [hframe] at hrow
          unfold sampleRows at hrow
          rw [Function.update_of_ne hkey, Function.update_of_ne hother] at hrow
          cases hrow
    · rintro ⟨part, hmem, hlast, -⟩
      rw [(hpart part hmem).2] at hlast
      exact absurd hlast (by decide)

/-! ### History -/

/-- A call that fails leaves the rows as they were; after one that succeeds they are valid and hold the
history, but for what the call replaces and for the older of two openings of one work. -/
theorem call_keeps_history (hrows : RowsValid C rows) (now : Option ℤ) (committed : Bool)
    (c : Call F) :
    (∃ error, call C rows now committed c = (.error error, rows)) ∨
    ∃ result rows', call C rows now committed c = (.ok result, rows') ∧
      RowsValid C rows' ∧ HistoryKept C rows rows' c := by
  unfold call
  cases committed with
  | false => exact .inl ⟨.sqlite, rfl⟩
  | true =>
    cases hrun : c.run C rows now with
    | error error => exact .inl ⟨error, rfl⟩
    | ok after =>
      obtain ⟨rows', result⟩ := after
      exact .inr ⟨result, rows', rfl, run_spec hrows hrun⟩

/-- When the first of two publications becomes a favorite alone, the other one keeps what was opened. -/
theorem call_keeps_history_sample :
    (∃ error, call acceptAll sampleRows (some 20) true sampleCall = (.error error, sampleRows)) ∨
    ∃ result rows', call acceptAll sampleRows (some 20) true sampleCall = (.ok result, rows') ∧
      RowsValid acceptAll rows' ∧ HistoryKept acceptAll sampleRows rows' sampleCall :=
  call_keeps_history sampleRows_valid (some 20) true sampleCall

end Qbutt.Library
