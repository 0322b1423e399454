import Qbutt.Rust.Checks
import Qbutt.Rust.Str

/-!
# Translation contexts

The accepted conventions of a publication: terms with their forms, and confirmed facts, each with the
quote that supports it.  `TranslationContext.apply` checks what a job has learned against the segments
that the job was given, and merges it into the context.  References to publications and chapters are
parameters, since only their equality and their own check are used.
-/

namespace Qbutt.Translation

open Qbutt.Rust (ensure validateDistinct)

/-- What is used of references: the publication of a chapter and the check of a chapter. -/
structure References (P C : Type) where
  publication : C → P
  validate : C → Bool

def maxTerms : ℕ := 2000

def maxFacts : ℕ := 2000

/-- `ImageObservation`; the bounds are left, top, right and bottom. -/
structure ImageObservation where
  page : UInt32
  originalDigest : String
  bounds : Vector UInt32 4
  deriving DecidableEq

structure ContextEvidence (C : Type) where
  chapter : C
  segmentId : String
  quote : String
  imageObservation : Option ImageObservation
  deriving DecidableEq

structure TranslationForm (C : Type) where
  source : String
  target : String
  evidence : ContextEvidence C
  deriving DecidableEq

structure TranslationTerm (C : Type) where
  source : String
  target : String
  forms : List (TranslationForm C)
  evidence : ContextEvidence C
  deriving DecidableEq

structure ConfirmedFact (C : Type) where
  subject : String
  attributeName : String
  value : String
  evidence : ContextEvidence C
  deriving DecidableEq

structure TranslationContext (C : Type) where
  revision : ℕ
  terms : List (TranslationTerm C)
  facts : List (ConfirmedFact C)
  deriving DecidableEq

structure ContextAdditions (C : Type) where
  terms : List (TranslationTerm C)
  facts : List (ConfirmedFact C)

structure EvidenceSegment (C : Type) where
  chapter : C
  id : String
  text : String
  imageObservation : Option ImageObservation
  deriving DecidableEq

variable {P C : Type} [DecidableEq P] [DecidableEq C]

/-! ### Checks -/

def validateText (value : String) (limit : ℕ) : Except String Unit :=
  ensure (!Rust.isBlank value && Rust.byteLength value ≤ limit && !value.toList.any Rust.isControl)
    "translation context text is invalid"

def ImageObservation.validate (image : ImageObservation) : Except String Unit :=
  ensure (Rust.byteLength image.originalDigest = 64 &&
      (image.originalDigest.toList.all fun c => ('0' ≤ c && c ≤ '9') || ('a' ≤ c && c ≤ 'f')) &&
      image.bounds[0] < image.bounds[2] && image.bounds[1] < image.bounds[3] &&
      image.bounds[2] ≤ 1000000 && image.bounds[3] ≤ 1000000)
    "image observation is invalid"

def validateReference (R : References P C) (publication : P) (evidence : ContextEvidence C) :
    Except String Unit := do
  ensure (R.validate evidence.chapter) "invalid evidence chapter"
  ensure (R.publication evidence.chapter = publication) "evidence belongs to another publication"
  validateText evidence.segmentId 128
  validateText evidence.quote 500
  match evidence.imageObservation with
  | some image => image.validate
  | none => .ok ()

/-- The checks of a form in `validate_term`. -/
def validateForm (R : References P C) (publication : P) (form : TranslationForm C) :
    Except String Unit := do
  validateText form.source 200
  validateText form.target 300
  validateReference R publication form.evidence

def validateTerm (R : References P C) (publication : P) (term : TranslationTerm C) :
    Except String Unit := do
  validateText term.source 200
  validateText term.target 300
  ensure (term.forms.length ≤ 16) "translation term has too many forms"
  validateDistinct (validateForm R publication) TranslationForm.source
    "translation term has duplicate forms" [] term.forms
  validateReference R publication term.evidence

def validateFact (R : References P C) (publication : P) (fact : ConfirmedFact C) :
    Except String Unit := do
  validateText fact.subject 200
  validateText fact.attributeName 80
  validateText fact.value 300
  validateReference R publication fact.evidence

def TranslationContext.validate (R : References P C) (publication : P)
    (context : TranslationContext C) : Except String Unit := do
  ensure (context.terms.length ≤ maxTerms && context.facts.length ≤ maxFacts)
    "translation context exceeds its limit"
  validateDistinct (validateTerm R publication) TranslationTerm.source
    "translation context contains duplicate terms" [] context.terms
  validateDistinct (validateFact R publication) (fun fact => (fact.subject, fact.attributeName))
    "translation context contains duplicate facts" [] context.facts

/-! ### Evidence -/

/-- The segment of a chapter with an identifier, the last one if there are several. -/
def findSegment (segments : List (EvidenceSegment C)) (chapter : C) (id : String) :
    Option (EvidenceSegment C) :=
  segments.reverse.find? fun segment => segment.chapter = chapter && segment.id = id

def validateEvidence (segments : List (EvidenceSegment C)) (evidence : ContextEvidence C) :
    Except String Unit :=
  match findSegment segments evidence.chapter evidence.segmentId with
  | none => .error "evidence segment was not supplied to the job"
  | some segment => do
    ensure (segment.imageObservation = evidence.imageObservation)
      "evidence image does not match the supplied page region"
    ensure (Rust.contains segment.text evidence.quote)
      "evidence quote is absent from its source segment"

/-! ### Merging -/

def checkTerm (R : References P C) (publication : P) (segments : List (EvidenceSegment C))
    (term : TranslationTerm C) : Except String Unit := do
  validateTerm R publication term
  validateEvidence segments term.evidence
  ensure (Rust.contains term.evidence.quote term.source ||
      term.forms.any fun form => Rust.contains term.evidence.quote form.source)
    "translation term is absent from its source evidence"
  term.forms.forM fun form => do
    validateEvidence segments form.evidence
    ensure (Rust.contains form.evidence.quote form.source)
      "translation form is absent from its source evidence"

def mergeForms : List (TranslationForm C) → List (TranslationForm C) →
    Except String (List (TranslationForm C))
  | saved, [] => .ok saved
  | saved, form :: forms =>
    match saved.find? fun entry => entry.source = form.source with
    | some entry => do
      ensure (entry.target = form.target) "translation form conflicts with confirmed context"
      mergeForms saved forms
    | none => mergeForms (saved ++ [form]) forms

/-- Merge a term into the first entry with its source; `none` if there is no such entry. -/
def mergeTerm (term : TranslationTerm C) :
    List (TranslationTerm C) → Except String (Option (List (TranslationTerm C)))
  | [] => .ok none
  | entry :: entries =>
    if entry.source = term.source then do
      ensure (entry.target = term.target) "translation term conflicts with confirmed context"
      let forms ← mergeForms entry.forms term.forms
      return some ({ entry with forms := forms } :: entries)
    else do
      let merged ← mergeTerm term entries
      return merged.map (entry :: ·)

/-- One round of the loop over the added terms. -/
def applyTerm (R : References P C) (publication : P) (segments : List (EvidenceSegment C))
    (terms : List (TranslationTerm C)) (term : TranslationTerm C) :
    Except String (List (TranslationTerm C)) := do
  checkTerm R publication segments term
  match ← mergeTerm term terms with
  | some merged => return merged
  | none =>
    ensure (terms.length < maxTerms) "translation context exceeds its limit"
    return terms ++ [term]

/-- Whether the quote of a fact names its subject, or a term that is translated as it. -/
def namesSubject (terms : List (TranslationTerm C)) (fact : ConfirmedFact C) : Bool :=
  Rust.contains fact.evidence.quote fact.subject ||
    terms.any fun term => term.target = fact.subject &&
      (Rust.contains fact.evidence.quote term.source ||
        term.forms.any fun form => Rust.contains fact.evidence.quote form.source)

/-- One round of the loop over the added facts. -/
def applyFact (R : References P C) (publication : P) (segments : List (EvidenceSegment C))
    (terms : List (TranslationTerm C)) (facts : List (ConfirmedFact C)) (fact : ConfirmedFact C) :
    Except String (List (ConfirmedFact C)) := do
  validateFact R publication fact
  validateEvidence segments fact.evidence
  ensure (namesSubject terms fact) "translation fact has no subject in its source evidence"
  match facts.find? fun entry =>
      entry.subject = fact.subject && entry.attributeName = fact.attributeName with
  | some entry =>
    ensure (entry.value = fact.value) "translation fact conflicts with confirmed context"
    return facts
  | none =>
    ensure (facts.length < maxFacts) "translation context exceeds its limit"
    return facts ++ [fact]

/-- The new context of `TranslationContext::apply`. -/
def TranslationContext.next (R : References P C) (publication : P) (context : TranslationContext C)
    (additions : ContextAdditions C) (segments : List (EvidenceSegment C)) :
    Except String (TranslationContext C) := do
  context.validate R publication
  let segments := segments.filter fun segment => R.publication segment.chapter = publication
  let terms ← additions.terms.foldlM (applyTerm R publication segments) context.terms
  let facts ← additions.facts.foldlM (applyFact R publication segments terms) context.facts
  let next := { context with terms := terms, facts := facts }
  if next = context then return next
  else do
    ensure (next.revision + 1 < 2 ^ 64) "translation context revision overflow"
    return { next with revision := next.revision + 1 }

/-- `TranslationContext::apply`: its result, and the context after it. -/
def TranslationContext.apply (R : References P C) (publication : P) (context : TranslationContext C)
    (additions : ContextAdditions C) (segments : List (EvidenceSegment C)) :
    Except String Bool × TranslationContext C :=
  match context.next R publication additions segments with
  | .ok next => (.ok (next ≠ context), next)
  | .error error => (.error error, context)

end Qbutt.Translation
