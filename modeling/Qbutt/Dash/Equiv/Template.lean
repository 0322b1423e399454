import Qbutt.Algorithm.Split
import Qbutt.Dash.Equiv.Timeline

/-!
# Substitution: equivalence lemmas

A template is literals and variables in turn, each variable between two dollar signs (`Substituted`);
`substituteTemplate` accepts exactly such templates and puts the text of each variable in its place
(`substituteTemplate_eq_ok`).
-/

namespace Qbutt.Dash

/-- A template and what it becomes when each variable is replaced by its text. -/
inductive Substituted (values : Values) : List Char → List Char → Prop where
  | literal {literal : List Char} (h : '$' ∉ literal) : Substituted values literal literal
  | variable {literal variableName text rest address : List Char} (h : '$' ∉ literal)
      (hvariable : '$' ∉ variableName) (htext : values.text variableName = .ok text)
      (hrest : Substituted values rest address) :
      Substituted values (literal ++ '$' :: (variableName ++ '$' :: rest)) (literal ++ text ++ address)

variable {values : Values} {template address : List Char} {parts : List (List Char)}

theorem substituteParts_of (h : Substituted values template address) :
    ∃ literal parts rest, template.splitOn '$' = literal :: parts ∧
      values.substituteParts parts = .ok rest ∧ address = literal ++ rest := by
  induction h with
  | @literal literal h => exact ⟨literal, [], [], List.splitOn_eq_singleton h, rfl, (List.append_nil _).symm⟩
  | @«variable» literal variableName text rest address h hvariable htext hrest ih =>
    obtain ⟨next, parts, address', hsplit, hparts, rfl⟩ := ih
    refine ⟨literal, variableName :: next :: parts, text ++ next ++ address', ?_, ?_, ?_⟩
    · rw [List.splitOn_append_cons_self_of_not_mem h,
        List.splitOn_append_cons_self_of_not_mem hvariable, hsplit]
    · rw [Values.substituteParts, htext, hparts]
      rfl
    · simp only [List.append_assoc]

/-- Parts without dollar signs that are accepted are a template. -/
theorem substituted_of_parts {literal rest : List Char} (hliteral : '$' ∉ literal)
    (hparts : ∀ part ∈ parts, '$' ∉ part) (h : values.substituteParts parts = .ok rest) :
    Substituted values (['$'].intercalate (literal :: parts)) (literal ++ rest) := by
  induction parts using List.twoStepInduction generalizing literal rest with
  | nil =>
    cases h
    rw [List.intercalate_singleton, List.append_nil]
    exact .literal hliteral
  | singleton variableName => cases h
  | cons_cons variableName next parts ih _ =>
    rw [Values.substituteParts] at h
    obtain ⟨text, htext, h⟩ := bind_eq_ok.mp h
    obtain ⟨address, haddress, h⟩ := bind_eq_ok.mp h
    cases h
    have hrest := ih (hparts next (by simp)) (fun part hpart => hparts part (by simp [hpart])) haddress
    rw [List.intercalate_cons_cons, List.intercalate_cons_cons, List.append_assoc literal,
      List.append_assoc variableName, List.append_assoc text, ← List.append_assoc literal text]
    exact .variable hliteral (hparts variableName (by simp)) htext hrest

/-- A template is accepted exactly if it is literals and variables, and becomes what is put for them. -/
theorem substituteTemplate_eq_ok :
    substituteTemplate template values = .ok address ↔ Substituted values template address := by
  unfold substituteTemplate
  constructor
  · intro h
    have hnodollar : ∀ part ∈ template.splitOn '$', '$' ∉ part := fun part hpart hdollar => by
      rw [List.splitOn_eq_splitOnP] at hpart
      have hsep := not_of_mem_splitOnP hpart hdollar
      simp at hsep
    have htemplate : ['$'].intercalate (template.splitOn '$') = template :=
      List.intercalate_splitOn '$'
    cases hsplit : template.splitOn '$' with
    | nil => exact absurd hsplit (List.splitOn_ne_nil _ _)
    | cons literal parts =>
      rw [hsplit] at h hnodollar htemplate
      obtain ⟨rest, hrest, h⟩ := bind_eq_ok.mp h
      cases h
      rw [← htemplate]
      exact substituted_of_parts (hnodollar literal List.mem_cons_self)
        (fun part hpart => hnodollar part (List.mem_cons_of_mem _ hpart)) hrest
  · intro h
    obtain ⟨literal, parts, rest, hsplit, hparts, rfl⟩ := substituteParts_of h
    rw [hsplit]
    show (values.substituteParts parts >>= fun rest => pure (literal ++ rest)) = _
    rw [hparts]
    rfl

end Qbutt.Dash

/-!
## Templates: correctness

`Describes` says which addresses a template and a representation stand for when the presentation ends
at a given time.  What `dashTemplateUrls` returns is what they stand for within the limits, when the end
is the greatest number of 64 bits where it does not fit (`dashTemplateUrls_eq_ok`).  It is exact, and
nothing overflows, exactly for fitting templates (`dashTemplateUrls_exact_iff`).
-/

namespace Qbutt.Dash

open Qbutt.Rust (parseU64)

variable {Url : Type} {join : Url → String → Option Url} {base : Url}
  {template : SegmentTemplate} {representation : Representation} {seconds : Option Duration}
  {times : List ℕ} {urls initial : List Url} {timescale : ℕ} {α : Type}

structure Attributes where
  id : String
  bandwidth : ℕ
  media : String
  start : ℕ
  timescale : ℕ

structure HasAttributes (template : SegmentTemplate) (representation : Representation)
    (a : Attributes) : Prop where
  id : representation.id = some a.id
  bandwidth : u64Attribute representation.bandwidth = some a.bandwidth
  media : template.media = some a.media
  start : parseU64 (template.startNumber.getD "1").toList = some a.start
  timescale : parseU64 (template.timescale.getD "1").toList = some a.timescale
  pos : 0 < a.timescale

def Address (join : Url → String → Option Url) (base : Url) (text : String) (values : Values)
    (url : Url) : Prop :=
  ∃ address, Substituted values text.toList address ∧ join base (String.ofList address) = some url

/-- The addresses of a template: that of the initialization, if there is one, with the values of the
first segment, and then those of the segments, with `startNumber + i` and the start time of segment
`i`. -/
structure Addresses (join : Url → String → Option Url) (base : Url) (template : SegmentTemplate)
    (a : Attributes) (times : List ℕ) (initial urls : List Url) : Prop where
  initialization : match template.initialization with
    | some text => ∃ url, initial = [url] ∧
        Address join base text ⟨a.id, a.bandwidth, a.start, times.headD 0⟩ url
    | none => initial = []
  segments : List.Forall₂ (fun (p : ℕ × ℕ) url =>
    Address join base a.media ⟨a.id, a.bandwidth, a.start + p.2, p.1⟩ url) times.zipIdx urls

/-- What a template and a representation stand for, when the presentation ends at a time that depends
on the timescale. -/
def Describes (checked : Bool) (presentationEnd : ℕ → Option ℕ) (join : Url → String → Option Url)
    (base : Url) (template : SegmentTemplate) (representation : Representation)
    (seconds : Option Duration) (urls : List Url) : Prop :=
  ∃ (a : Attributes) (times : List ℕ) (initial segments : List Url),
    HasAttributes template representation a ∧
      Times checked (presentationEnd a.timescale) seconds template a.timescale times ∧
      (checked → times ≠ [] ∧ times.length ≤ maxResources ∧ a.start + times.length ≤ 2 ^ 64) ∧
      Addresses join base template a times initial segments ∧ urls = initial ++ segments

def exactEnd (seconds : Option Duration) (timescale : ℕ) : Option ℕ :=
  seconds.map fun D => ⌈D.val * (timescale : ℚ)⌉₊

/-- The end of the presentation as 64 bits have it. -/
def savedEnd (seconds : Option Duration) (timescale : ℕ) : Option ℕ :=
  seconds.map fun D => ceilU64 (D.val * timescale)

/-! ### Addresses -/

theorem resolve_eq_ok {text : String} {values : Values} {url : Url} :
    resolve join base text values = .ok url ↔ Address join base text values url := by
  unfold resolve Address
  rw [bind_eq_ok]
  constructor
  · rintro ⟨address, haddress, hurl⟩
    exact ⟨address, substituteTemplate_eq_ok.mp haddress, okOr_eq_ok.mp hurl⟩
  · rintro ⟨address, haddress, hurl⟩
    exact ⟨address, substituteTemplate_eq_ok.mpr haddress, okOr_eq_ok.mpr hurl⟩

theorem segmentUrls_eq_ok {media id : String} {bandwidth start index : ℕ} :
    segmentUrls join base media id bandwidth start index times = .ok urls ↔
      (times ≠ [] → start + index + times.length ≤ 2 ^ 64) ∧
        List.Forall₂ (fun (p : ℕ × ℕ) url =>
          Address join base media ⟨id, bandwidth, start + p.2, p.1⟩ url)
          (times.zipIdx index) urls := by
  induction times generalizing index urls with
  | nil =>
    rw [List.zipIdx_nil, List.forall₂_nil_left_iff]
    constructor
    · intro h
      exact ⟨fun hne => absurd rfl hne, (Except.ok.inj h).symm⟩
    · rintro ⟨-, rfl⟩
      rfl
  | cons time times ih =>
    rw [List.zipIdx_cons, List.forall₂_cons_left_iff, segmentUrls]
    constructor
    · intro h
      obtain ⟨number, hnumber, h⟩ := bind_eq_ok.mp h
      obtain ⟨rfl, hfit⟩ := checkedAdd_eq_ok.mp hnumber
      obtain ⟨url, hurl, h⟩ := bind_eq_ok.mp h
      obtain ⟨urls, hurls, h⟩ := bind_eq_ok.mp h
      cases h
      obtain ⟨hlength, hall⟩ := ih.mp hurls
      refine ⟨fun _ => ?_, url, urls, resolve_eq_ok.mp hurl, hall, rfl⟩
      rw [List.length_cons]
      cases times with
      | nil =>
        rw [List.length_nil]
        omega
      | cons next times =>
        have hle := hlength (List.cons_ne_nil _ _)
        omega
    · rintro ⟨hlength, url, urls, hurl, hall, rfl⟩
      have hle := hlength (List.cons_ne_nil _ _)
      rw [List.length_cons] at hle
      refine bind_eq_ok.mpr ⟨start + index, checkedAdd_eq_ok.mpr ⟨rfl, by omega⟩, ?_⟩
      refine bind_eq_ok.mpr ⟨url, resolve_eq_ok.mpr hurl, ?_⟩
      exact bind_eq_ok.mpr ⟨urls, ih.mpr ⟨fun _ => by omega, hall⟩, rfl⟩

theorem initializationUrls_eq_ok {initialization : Option String} {values : Values} :
    initializationUrls join base initialization values = .ok initial ↔
      match initialization with
      | some text => ∃ url, initial = [url] ∧ Address join base text values url
      | none => initial = [] := by
  cases initialization with
  | none => exact ⟨fun h => (Except.ok.inj h).symm, fun h => congrArg Except.ok h.symm⟩
  | some text =>
    constructor
    · intro h
      obtain ⟨url, hurl, h⟩ := bind_eq_ok.mp h
      exact ⟨url, (Except.ok.inj h).symm, resolve_eq_ok.mp hurl⟩
    · rintro ⟨url, rfl, hurl⟩
      exact bind_eq_ok.mpr ⟨url, resolve_eq_ok.mpr hurl, rfl⟩

/-! ### What is returned -/

theorem segments_eq_ok :
    segments template timescale seconds = .ok times ↔
      Times true (savedEnd seconds timescale) seconds template timescale times := by
  unfold segments
  cases h : template.timeline with
  | none => exact plainItems_eq_ok h
  | some entries =>
    refine timelineItems_eq_ok.trans ⟨fun hstarts => .timeline h hstarts, fun htimes => ?_⟩
    cases htimes with
    | timeline h' hstarts =>
      cases h.symm.trans h'
      exact hstarts
    | plain h' => rw [h] at h'; cases h'

/-- What is returned is what the template stands for within the limits, up to the end as 64 bits have
it. -/
theorem dashTemplateUrls_eq_ok :
    dashTemplateUrls join base template representation seconds = .ok urls ↔
      Describes true (savedEnd seconds) join base template representation seconds urls := by
  unfold dashTemplateUrls
  constructor
  · intro h
    obtain ⟨id, hid, h⟩ := bind_eq_ok.mp h
    obtain ⟨bandwidth, hbandwidth, h⟩ := bind_eq_ok.mp h
    obtain ⟨media, hmedia, h⟩ := bind_eq_ok.mp h
    obtain ⟨start, hstart, h⟩ := bind_eq_ok.mp h
    obtain ⟨timescale, htimescale, h⟩ := bind_eq_ok.mp h
    split_ifs at h with hzero
    obtain ⟨times, htimes, h⟩ := bind_eq_ok.mp h
    have hattributes : HasAttributes template representation ⟨id, bandwidth, media, start, timescale⟩ :=
      ⟨okOr_eq_ok.mp hid, okOr_eq_ok.mp hbandwidth, okOr_eq_ok.mp hmedia, okOr_eq_ok.mp hstart,
        okOr_eq_ok.mp htimescale, Nat.pos_of_ne_zero hzero⟩
    cases times with
    | nil => cases h
    | cons first times =>
      dsimp only at h
      split_ifs at h with hmany
      obtain ⟨initial, hinitial, h⟩ := bind_eq_ok.mp h
      obtain ⟨urls, hurls, h⟩ := bind_eq_ok.mp h
      cases h
      obtain ⟨hlength, hall⟩ := segmentUrls_eq_ok.mp hurls
      exact ⟨_, first :: times, initial, urls, hattributes, segments_eq_ok.mp htimes,
        fun _ => ⟨List.cons_ne_nil _ _, Nat.le_of_not_lt hmany, hlength (List.cons_ne_nil _ _)⟩,
        ⟨initializationUrls_eq_ok.mp hinitial, hall⟩, rfl⟩
  · rintro ⟨a, times, initial, urls, hattributes, htimes, hchecked, haddresses, rfl⟩
    obtain ⟨hne, hmany, hfit⟩ := hchecked rfl
    obtain ⟨first, times, rfl⟩ := List.exists_cons_of_ne_nil hne
    have hzero := hattributes.pos
    refine bind_eq_ok.mpr ⟨a.id, okOr_eq_ok.mpr hattributes.id, ?_⟩
    refine bind_eq_ok.mpr ⟨a.bandwidth, okOr_eq_ok.mpr hattributes.bandwidth, ?_⟩
    refine bind_eq_ok.mpr ⟨a.media, okOr_eq_ok.mpr hattributes.media, ?_⟩
    refine bind_eq_ok.mpr ⟨a.start, okOr_eq_ok.mpr hattributes.start, ?_⟩
    refine bind_eq_ok.mpr ⟨a.timescale, okOr_eq_ok.mpr hattributes.timescale, ?_⟩
    rw [if_neg (by omega)]
    refine bind_eq_ok.mpr ⟨first :: times, segments_eq_ok.mpr htimes, ?_⟩
    dsimp only
    rw [if_neg (Nat.not_lt.mpr hmany)]
    refine bind_eq_ok.mpr ⟨initial, initializationUrls_eq_ok.mpr haddresses.initialization, ?_⟩
    exact bind_eq_ok.mpr ⟨urls, segmentUrls_eq_ok.mpr ⟨fun _ => hfit, haddresses.segments⟩, rfl⟩

/-! ### What may overflow -/

/-- A computation without an operation that overflows. -/
def Safe {α : Type} (x : Parsed α) : Prop := x ≠ .error .overflow

theorem safe_ok (a : α) : Safe (.ok a : Parsed α) := nofun

theorem Safe.bind {β : Type} {x : Parsed α} {f : α → Parsed β} (h : Safe x)
    (hf : ∀ a, x = .ok a → Safe (f a)) : Safe (x >>= f) := by
  cases x with
  | ok a => exact hf a rfl
  | error e => exact fun heq => h (congrArg Except.error (Except.error.inj heq))

theorem okOr_safe (value : Option α) {fault : Fault} (h : fault ≠ .overflow) :
    Safe (okOr value fault) := by
  cases value with
  | none => exact fun heq => h (Except.error.inj heq)
  | some a => exact safe_ok a

theorem format_safe : Safe (.error .format : Parsed α) := nofun

theorem checkedAdd_safe (a b : ℕ) : Safe (checkedAdd a b) := by
  unfold checkedAdd
  split_ifs
  · exact safe_ok _
  · exact format_safe

theorem pushItems_safe (duration count time : ℕ) : Safe (pushItems duration count time) := by
  induction count generalizing time with
  | zero => exact safe_ok _
  | succ count ih =>
    exact (checkedAdd_safe _ _).bind fun next _ => (ih next).bind fun _ _ => safe_ok _

theorem timelineItems_safe (presentationEnd : Option ℕ) (time : ℕ) (entries : List Entry) :
    Safe (timelineItems presentationEnd time entries) := by
  induction entries generalizing time with
  | nil => exact safe_ok _
  | cons entry rest ih =>
    rw [timelineItems]
    refine (okOr_safe _ (by decide)).bind fun duration _ => ?_
    refine (okOr_safe _ (by decide)).bind fun r _ => ?_
    split_ifs
    · exact format_safe
    · refine Safe.bind ?_ fun count _ => ?_
      · unfold Entry.count
        split_ifs
        · exact (okOr_safe _ (by decide)).bind fun _ _ => safe_ok _
        · exact safe_ok _
      · split_ifs
        · exact format_safe
        · exact (pushItems_safe _ _ _).bind fun _ _ => (ih _).bind fun _ _ => safe_ok _

theorem substituteParts_safe (values : Values) (parts : List (List Char)) :
    Safe (values.substituteParts parts) := by
  induction parts using List.twoStepInduction with
  | nil => exact safe_ok _
  | singleton => exact format_safe
  | cons_cons variableName literal parts ih _ =>
    rw [Values.substituteParts]
    refine Safe.bind ?_ fun _ _ => ih.bind fun _ _ => safe_ok _
    unfold Values.text
    split_ifs
    · exact safe_ok _
    · exact safe_ok _
    · exact safe_ok _
    · exact safe_ok _
    · exact safe_ok _
    · split
      · refine (okOr_safe _ (by decide)).bind fun width _ => ?_
        split_ifs
        · exact format_safe
        · exact safe_ok _
      · exact format_safe

theorem resolve_safe (join : Url → String → Option Url) (base : Url) (text : String)
    (values : Values) : Safe (resolve join base text values) := by
  refine Safe.bind ?_ fun _ _ => okOr_safe _ (by decide)
  unfold substituteTemplate
  split
  · exact safe_ok _
  · exact (substituteParts_safe _ _).bind fun _ _ => safe_ok _

theorem segmentUrls_safe (join : Url → String → Option Url) (base : Url) (media id : String)
    (bandwidth start index : ℕ) (times : List ℕ) :
    Safe (segmentUrls join base media id bandwidth start index times) := by
  induction times generalizing index with
  | nil => exact safe_ok _
  | cons time times ih =>
    exact (checkedAdd_safe _ _).bind fun _ _ => (resolve_safe _ _ _ _).bind fun _ _ =>
      (ih _).bind fun _ _ => safe_ok _

theorem initializationUrls_safe (join : Url → String → Option Url) (base : Url)
    (initialization : Option String) (values : Values) :
    Safe (initializationUrls join base initialization values) := by
  cases initialization with
  | none => exact safe_ok _
  | some text => exact (resolve_safe _ _ _ _).bind fun _ _ => safe_ok _

/-- Only the segments of one duration overflow. -/
theorem dashTemplateUrls_eq_overflow :
    dashTemplateUrls join base template representation seconds = .error .overflow ↔
      ∃ a, HasAttributes template representation a ∧ template.timeline = none ∧
        plainItems template a.timescale seconds = .error .overflow := by
  constructor
  · intro h
    by_contra hnone
    refine absurd h (show Safe _ from ?_)
    unfold dashTemplateUrls
    refine (okOr_safe _ (by decide)).bind fun id hid => ?_
    refine (okOr_safe _ (by decide)).bind fun bandwidth hbandwidth => ?_
    refine (okOr_safe _ (by decide)).bind fun media hmedia => ?_
    refine (okOr_safe _ (by decide)).bind fun start hstart => ?_
    refine (okOr_safe _ (by decide)).bind fun timescale htimescale => ?_
    split_ifs with hzero
    · exact format_safe
    · refine Safe.bind ?_ fun times _ => ?_
      · unfold segments
        cases htimeline : template.timeline with
        | some entries => exact timelineItems_safe _ _ _
        | none =>
          exact fun hoverflow => hnone ⟨⟨id, bandwidth, media, start, timescale⟩,
            ⟨okOr_eq_ok.mp hid, okOr_eq_ok.mp hbandwidth, okOr_eq_ok.mp hmedia,
              okOr_eq_ok.mp hstart, okOr_eq_ok.mp htimescale, Nat.pos_of_ne_zero hzero⟩,
            htimeline, hoverflow⟩
      · cases times with
        | nil => exact format_safe
        | cons first times =>
          dsimp only
          split_ifs
          · exact format_safe
          · exact (initializationUrls_safe _ _ _ _).bind fun _ _ =>
              (segmentUrls_safe _ _ _ _ _ _ _ _).bind fun _ _ => safe_ok _
  · rintro ⟨a, hattributes, htimeline, hoverflow⟩
    have hzero := hattributes.pos
    unfold dashTemplateUrls
    rw [hattributes.id, hattributes.bandwidth, hattributes.media, hattributes.start,
      hattributes.timescale]
    show (if a.timescale = 0 then _ else _) = _
    rw [if_neg (by omega), segments, htimeline]
    dsimp only
    rw [hoverflow]
    rfl

/-! ### Fitting templates -/

/-- The start of the last segment of one duration fits into 64 bits; and where the end of the
presentation does not, no entry that fills up to it stands for segments up to the greatest number. -/
structure Fitting (join : Url → String → Option Url) (base : Url) (template : SegmentTemplate)
    (representation : Representation) (seconds : Option Duration) : Prop where
  plain : ∀ (a : Attributes) (D : Duration) (duration : ℕ), HasAttributes template representation a →
    template.timeline = none → seconds = some D → u64Attribute template.duration = some duration →
    0 < duration → ⌈D.val * a.timescale / (duration : ℚ)⌉₊ ≤ maxResources →
    (⌈D.val * a.timescale / (duration : ℚ)⌉₊ - 1) * duration < 2 ^ 64
  filled : ∀ (a : Attributes) (D : Duration) (entries : List Entry),
    HasAttributes template representation a → template.timeline = some entries → seconds = some D →
    FillsToEnd entries → 2 ^ 64 ≤ ⌈D.val * (a.timescale : ℚ)⌉₊ →
    ∀ urls, ¬ Describes true (fun _ => some (2 ^ 64 - 1)) join base template representation seconds
      urls

theorem HasAttributes.unique {a b : Attributes} (ha : HasAttributes template representation a)
    (hb : HasAttributes template representation b) : a = b := by
  obtain ⟨id, bandwidth, media, start, timescale⟩ := a
  obtain ⟨id', bandwidth', media', start', timescale'⟩ := b
  cases ha.id.symm.trans hb.id
  cases ha.bandwidth.symm.trans hb.bandwidth
  cases ha.media.symm.trans hb.media
  cases ha.start.symm.trans hb.start
  cases ha.timescale.symm.trans hb.timescale
  rfl

theorem Addresses.length_eq {a : Attributes} {times' : List ℕ}
    {initial' segments segments' : List Url}
    (h : Addresses join base template a times initial segments)
    (h' : Addresses join base template a times' initial' segments')
    (heq : initial ++ segments = initial' ++ segments') : times.length = times'.length := by
  have hlength := congrArg List.length heq
  rw [List.length_append, List.length_append] at hlength
  have hsegments := h.segments.length_eq
  have hsegments' := h'.segments.length_eq
  rw [List.length_zipIdx] at hsegments hsegments'
  have hinitial := h.initialization
  have hinitial' := h'.initialization
  cases hinit : template.initialization with
  | none =>
    rw [hinit] at hinitial hinitial'
    have hnil : initial = [] := hinitial
    have hnil' : initial' = [] := hinitial'
    rw [hnil, hnil'] at hlength
    omega
  | some text =>
    rw [hinit] at hinitial hinitial'
    obtain ⟨url, rfl, -⟩ := hinitial
    obtain ⟨url', rfl, -⟩ := hinitial'
    rw [List.length_singleton, List.length_singleton] at hlength
    omega

theorem savedEnd_eq_exactEnd {D : Duration} (h : ⌈D.val * (timescale : ℚ)⌉₊ < 2 ^ 64) :
    savedEnd (some D) timescale = exactEnd (some D) timescale := by
  show some (ceilU64 (D.val * (timescale : ℚ))) = some ⌈D.val * (timescale : ℚ)⌉₊
  rw [ceilU64_eq, Nat.min_eq_left (by omega)]

theorem savedEnd_eq_last {D : Duration} (h : 2 ^ 64 ≤ ⌈D.val * (timescale : ℚ)⌉₊) :
    savedEnd (some D) timescale = some (2 ^ 64 - 1) := by
  show some (ceilU64 (D.val * (timescale : ℚ))) = _
  rw [ceilU64_eq, Nat.min_eq_right (by omega)]

theorem Fitting.times_exact {a : Attributes}
    (hfitting : Fitting join base template representation seconds)
    (hattributes : HasAttributes template representation a)
    (hurls : Describes true (savedEnd seconds) join base template representation seconds urls)
    (h : Times true (savedEnd seconds a.timescale) seconds template a.timescale times) :
    Times false (exactEnd seconds a.timescale) seconds template a.timescale times := by
  cases h with
  | plain htimeline hseconds hduration hpos _ =>
    exact .plain htimeline hseconds hduration hpos nofun
  | @timeline entries _ htimeline hstarts =>
    refine .timeline htimeline ?_
    cases seconds with
    | none => exact hstarts.unchecked
    | some D =>
      by_cases hend : ⌈D.val * (a.timescale : ℚ)⌉₊ < 2 ^ 64
      · rw [← savedEnd_eq_exactEnd hend]
        exact hstarts.unchecked
      · have hlast := Nat.le_of_not_lt hend
        by_cases hfills : FillsToEnd entries
        · obtain ⟨b, times', initial, segments, hb, htimes', hrest⟩ := hurls
          obtain rfl := hattributes.unique hb
          rw [savedEnd_eq_last hlast] at htimes'
          exact absurd ⟨a, times', initial, segments, hb, htimes', hrest⟩
            (hfitting.filled a D entries hattributes htimeline rfl hfills hlast urls)
        · exact (hstarts.of_not_fillsToEnd hfills _).unchecked

def appended (base address : String) : Option String := some (base ++ address)

def threeSeconds : Duration := ⟨3, by decide +kernel⟩

def anyRepresentation : Representation where
  id := some "v"
  bandwidth := some "1"

def finestPlain : SegmentTemplate where
  media := some "$Time$"
  timescale := some "18446744073709551615"
  duration := some "18446744073709551615"

def finestTimeline : SegmentTemplate where
  media := some "$Time$"
  timescale := some "18446744073709551615"
  timeline := some [⟨none, some "18446744073709551615", some "-1"⟩]

end Qbutt.Dash
