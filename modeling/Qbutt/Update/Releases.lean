import Mathlib.Data.List.SplitOn
import Qbutt.Qt.Json

/-!
# Versions and releases

`parseVersion`, `compareVersion` and `readReleases`: the updater reads the list of releases and keeps
the highest version that it may offer.  The sign of a comparison is an `Ordering`.
-/

namespace Qbutt.ReleaseUpdater

def RELEASE_ROOT : String := "https://github.com/qbutt-org/qbutt/releases/"

structure Version where
  core : List (List Char)
  prerelease : List (List Char)
deriving DecidableEq, Repr

/-! ### Versions -/

/-- `isDigit`, on the characters that the pattern lets through. -/
def isDigit (c : Char) : Bool := '0' ≤ c && c ≤ '9'

/-- The class `[0-9A-Za-z-]`. -/
def isIdentifierChar (c : Char) : Bool :=
  isDigit c || ('A' ≤ c && c ≤ 'Z') || ('a' ≤ c && c ≤ 'z') || c = '-'

/-- `all_of` with `isDigit`. -/
def numeric (s : List Char) : Bool := s.all isDigit

/-- The group `0|[1-9][0-9]*`. -/
def isNumber (s : List Char) : Bool := s ≠ [] && numeric s && (s.head? ≠ some '0' || s = ['0'])

/-- What the pattern is matched with: `$` also holds before a line feed at the end. -/
def body (text : List Char) : List Char :=
  if text.getLast? = some '\n' then text.dropLast else text

/-- The pattern: the groups of the numbers, and the one of the prerelease, empty if it is not there.
The numbers end at the first hyphen. -/
def pattern (text : List Char) : Option (List (List Char) × List Char) :=
  let numbers := ((body text).takeWhile (· ≠ '-')).splitOn '.'
  if numbers.length = 3 ∧ numbers.all isNumber = true then
    match (body text).dropWhile (· ≠ '-') with
    | [] => some (numbers, [])
    | _ :: captured =>
      if (captured.splitOn '.').all (fun part => part ≠ [] && part.all isIdentifierChar) then
        some (numbers, captured)
      else none
  else none

def parseVersion (text : List Char) : Option Version :=
  match pattern text with
  | none => none
  | some (core, captured) =>
    let prerelease := if captured = [] then [] else captured.splitOn '.'
    if 128 < text.length then none
    else if prerelease.any fun part => 1 < part.length && part.head? = some '0' && numeric part then
      none
    else some ⟨core, prerelease⟩

/-- `QString::compare`, of characters that are one code unit each. -/
def compareText (a b : List Char) : Ordering := a.compareLex (compareOn Char.toNat) b

def compareIdentifier (a b : List Char) : Ordering :=
  let aNumeric := numeric a
  let bNumeric := numeric b
  if aNumeric ≠ bNumeric then if aNumeric then .lt else .gt
  else if aNumeric ∧ a.length ≠ b.length then if a.length < b.length then .lt else .gt
  else compareText a b

/-- The loops of `compareVersion`: the first difference of two lists, as far as the shorter one
goes. -/
def compareParts : List (List Char) → List (List Char) → Ordering
  | a :: as, b :: bs =>
    let value := compareIdentifier a b
    if value ≠ .eq then value else compareParts as bs
  | _, _ => .eq

def compareVersion (a b : Version) : Ordering :=
  let core := compareParts a.core b.core
  if core ≠ .eq then core
  else if a.prerelease.isEmpty ≠ b.prerelease.isEmpty then
    if a.prerelease.isEmpty then .gt else .lt
  else
    let parts := compareParts a.prerelease b.prerelease
    if parts ≠ .eq then parts else compare a.prerelease.length b.prerelease.length

/-! ### Releases -/

/-- `toBool`, with a default. -/
def toBoolOr (fallback : Bool) : Json → Bool
  | .bool value => value
  | _ => fallback

def tagName (release : JsonObject) : String := (release.get "tag_name").toStr

/-- The text that is parsed of a tag: what comes after the `v`. -/
def versionText (tag : String) : Option (List Char) :=
  match tag.toList with
  | 'v' :: text => some text
  | _ => none

/-- The version of a release, if the loop of `readReleases` does not pass the release over. -/
def recognize (current : Version) (release : JsonObject) : Option Version :=
  if toBoolOr true (release.get "draft") then none
  else
    match (versionText (tagName release)).bind parseVersion with
    | none => none
    | some version =>
      if (release.get "html_url").toStr ≠ RELEASE_ROOT ++ "tag/" ++ tagName release then none
      else if current.prerelease.isEmpty ∧
          (¬ version.prerelease.isEmpty ∨ toBoolOr false (release.get "prerelease")) then none
      else some version

/-- What the loop changes. -/
structure Selection where
  selected : JsonObject
  highest : Version
  recognized : Bool

/-- A pass of the loop. -/
def consider (current : Version) (s : Selection) (value : Json) : Selection :=
  let release := value.toObject
  match recognize current release with
  | none => s
  | some version =>
    if compareVersion version s.highest = .gt then ⟨release, version, true⟩
    else { s with recognized := true }

inductive Outcome where
  | invalidMetadata
  | noReleases
  | upToDate
  | selected (release : JsonObject)

def readReleases (qbuttVersion : List Char) (document : Json) : Outcome :=
  match parseVersion qbuttVersion with
  | none => .invalidMetadata
  | some current =>
    if document.isArray = false ∨ document.toArray = [] ∨ 100 < document.toArray.length then
      .invalidMetadata
    else
      let s := document.toArray.foldl (consider current) ⟨[], current, false⟩
      if s.recognized = false then .noReleases
      else if s.selected.isEmpty then .upToDate
      else .selected s.selected

end Qbutt.ReleaseUpdater
