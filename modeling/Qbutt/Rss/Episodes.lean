import Mathlib.Algebra.Group.Nat.Defs
import Mathlib.Data.List.SplitOn
import Qbutt.Algorithm.Regex

/-!
# The episode filter of a download rule

A filter such as `1x2;8-15;30-;` names a season and some of its episodes.  A single number is written
into a pattern that is looked for in the title (`expStr`).  For a range the numbers are read from the
first mark of the title (`partialPattern1`, or else `partialPattern2`) and compared.
-/

namespace Qbutt.Rss

/-! ### Numbers in texts -/

def isSpace (c : Char) : Bool :=
  let n := c.toNat
  n == 0x20 || (0x09 ≤ n && n ≤ 0x0D) || n == 0x85 || n == 0xA0 || n == 0x1680 ||
    (0x2000 ≤ n && n ≤ 0x200A) || n == 0x2028 || n == 0x2029 || n == 0x202F || n == 0x205F ||
    n == 0x3000

def trimmed (text : List Char) : List Char :=
  ((text.dropWhile isSpace).reverse.dropWhile isSpace).reverse

/-- The magnitude of a number and its value with the sign, which is zero where it does not fit. -/
def signedValue (negative : Bool) (digits : List Char) : ℤ :=
  if digits.isEmpty || !digits.all Char.isDigit then 0
  else
    let magnitude := Nat.ofDigitChars 10 digits 0
    if negative then if magnitude ≤ 2 ^ 31 then -magnitude else 0
    else if magnitude < 2 ^ 31 then magnitude else 0

/-- `QStringView::toInt`: zero for a text that is no number of 32 bits. -/
def toInt (text : List Char) : ℤ :=
  match trimmed text with
  | '-' :: digits => signedValue true digits
  | '+' :: digits => signedValue false digits
  | digits => signedValue false digits

/-! ### The patterns -/

/-- The lower case of the letters that the patterns have, as characters without regard to case: the
long s and the Kelvin sign are letters, too. -/
def caseFold (c : Char) : Char :=
  if c.toNat = 0x17F then 's' else if c.toNat = 0x212A then 'k' else c.toLower

def sameLetter (c d : Char) : Bool := caseFold c == caseFold d

def isWord (c : Char) : Bool := c.isAlphanum || c == '_'

/-- `[ -_\.]`, a range from the space to the underscore: the digits, the capital letters and, without
regard to case, the small ones are in it. -/
def isSeparator (c : Char) : Bool :=
  let n := (caseFold c).toUpper.toNat
  0x20 ≤ n && n ≤ 0x5F

open Regex in
/-- `(?:\D|\b)`. -/
def notDigit : Regex Char := alt (set fun c => !c.isDigit) (boundary isWord)

/-- `0?`. -/
def optZero : Regex Char := .opt (.set (· == '0'))

/-- `\d{1,4}`. -/
def number : Regex Char := .someUpTo Char.isDigit 3

open Regex in
/-- `(^\d{1,4})x(.*;$)`. -/
def filterRegex : Regex Char :=
  concat [group 1 (seq (look fun before _ => before.isEmpty) number), set (sameLetter 'x'),
    group 2 (concat [many (· != '\n'), set (· == ';'),
      look fun _ after => after.isEmpty || after == ['\n']])]

open Regex in
/-- `\bs0?(\d{1,4})[ -_\.]?e(0?\d{1,4})(?:\D|\b)`. -/
def partialPattern1 : Regex Char :=
  concat [boundary isWord, set (sameLetter 's'), optZero, group 1 number, opt (set isSeparator),
    set (sameLetter 'e'), group 2 (seq optZero number), notDigit]

open Regex in
/-- `\b(\d{1,4})x(0?\d{1,4})(?:\D|\b)`. -/
def partialPattern2 : Regex Char :=
  concat [boundary isWord, group 1 number, set (sameLetter 'x'), group 2 (seq optZero number),
    notDigit]

open Regex in
/-- `s0?%1[ -_\.]?e0?%2`. -/
def longForm (season episode : List Char) : Regex Char :=
  concat [set (sameLetter 's'), optZero, literal sameLetter season, opt (set isSeparator),
    set (sameLetter 'e'), optZero, literal sameLetter episode]

open Regex in
/-- `%1x0?%2`. -/
def shortForm (season episode : List Char) : Regex Char :=
  concat [literal sameLetter season, set (sameLetter 'x'), optZero, literal sameLetter episode]

open Regex in
/-- `\b(?:s0?%1[ -_\.]?e0?%2|%1x0?%2)(?:\D|\b)` with the season and the episode written in.  Digits
stand for themselves.  What the pattern means with another text in it is `written`. -/
def expStr (written : List Char → List Char → Regex Char) (season episode : List Char) :
    Regex Char :=
  if season.all Char.isDigit && episode.all Char.isDigit then
    concat [boundary isWord, alt (longForm season episode) (shortForm season episode), notDigit]
  else written season episode

/-! ### The filter -/

def trimZeros : List Char → List Char
  | '0' :: c :: rest => trimZeros (c :: rest)
  | episode => episode

/-- The season and the episode of a match. -/
def capturedNumbers (m : Reading Char) : ℤ × ℤ := (toInt (m.captured 1), toInt (m.captured 2))

/-- The season and the episode that are read from a title for a range. -/
def firstMark (articleTitle : List Char) : Option (ℤ × ℤ) :=
  match partialPattern1.search articleTitle with
  | some m => some (capturedNumbers m)
  | none => (partialPattern2.search articleTitle).map capturedNumbers

def matchesEpisode (written : List Char → List Char → Regex Char)
    (season episode articleTitle : List Char) : Bool :=
  if '-' ∈ episode then
    match firstMark articleTitle with
    | none => false
    | some (seasonTheirs, episodeTheirs) =>
      let seasonOurs := toInt season
      if episode.getLast? = some '-' then
        let episodeOurs := toInt episode.dropLast
        (seasonTheirs == seasonOurs && decide (episodeTheirs ≥ episodeOurs)) ||
          decide (seasonTheirs > seasonOurs)
      else
        let range := episode.splitOn '-'
        let episodeOursFirst := toInt (range.head?.getD [])
        let episodeOursLast := toInt (range.getLast?.getD [])
        if episodeOursFirst > episodeOursLast then false
        else
          seasonTheirs == seasonOurs &&
            (decide (episodeOursFirst ≤ episodeTheirs) && decide (episodeOursLast ≥ episodeTheirs))
  else (expStr written season episode).isMatch articleTitle

def matchesEpisodeFilterExpression (written : List Char → List Char → Regex Char)
    (episodeFilter articleTitle : List Char) : Bool :=
  if episodeFilter.isEmpty then true
  else
    match filterRegex.search episodeFilter with
    | none => false
    | some matcher =>
      ((matcher.captured 2).splitOn ';').any fun episode =>
        !episode.isEmpty &&
          matchesEpisode written (matcher.captured 1) (trimZeros episode) articleTitle

end Qbutt.Rss
