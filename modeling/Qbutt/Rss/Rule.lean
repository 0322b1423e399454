import Mathlib.Data.List.Infix
import Qbutt.Rss.Episodes

/-!
# Download rules

A rule decides which articles of a feed are downloaded.  The smart filter (`matchesSmartEpisodeFilter`)
remembers the episodes of the articles that were taken: `matches` computes what is to be remembered and
`accepts` stores it.
-/

namespace Qbutt.Rss

variable {Date : Type}

/-- What the rules ask of their surroundings: the regular expressions of the user, Unicode, dates and
the settings of the downloader. -/
structure Surroundings (Date : Type) where
  /-- `cachedRegex(expression, isRegex).match(title).hasMatch()`. -/
  hasMatch : Bool → List Char → List Char → Bool
  /-- `split` at white space, without the empty parts. -/
  wildcards : List Char → List (List Char)
  /-- The meaning of an episode pattern with a text that is no number. -/
  written : List Char → List Char → Regex Char
  /-- The case folding of Unicode. -/
  toCaseFolded : Char → Char
  isValid : Date → Bool
  addDays : Date → ℤ → Date
  earlier : Date → Date → Bool
  computeEpisodeName : List Char → List Char
  downloadRepacks : Bool

/-- What is read of the data of an article. -/
structure Article (Date : Type) where
  title : List Char
  date : Date

/-- The part of a rule that decides which articles are downloaded. -/
structure AutoDownloadRule (Date : Type) where
  mustContain : List (List Char)
  mustNotContain : List (List Char)
  episodeFilter : List Char
  useRegex : Bool
  ignoreDays : ℤ
  lastMatch : Date
  smartFilter : Bool
  previouslyMatchedEpisodes : List (List Char)
  lastComputedEpisodes : List (List Char)

namespace AutoDownloadRule

variable (env : Surroundings Date) (rule : AutoDownloadRule Date)

def matchesExpression (articleTitle expression : List Char) : Bool :=
  if expression.isEmpty then true
  else if rule.useRegex then env.hasMatch true expression articleTitle
  else (env.wildcards expression).all fun wildcard => env.hasMatch false wildcard articleTitle

def matchesMustContainExpression (articleTitle : List Char) : Bool :=
  if rule.mustContain.isEmpty then true
  else rule.mustContain.any fun expression => rule.matchesExpression env articleTitle expression

def matchesMustNotContainExpression (articleTitle : List Char) : Bool :=
  if rule.mustNotContain.isEmpty then true
  else
    rule.mustNotContain.all fun expression => !rule.matchesExpression env articleTitle expression

/-- `articleTitle.contains(word, Qt::CaseInsensitive)`. -/
def containsWord (articleTitle word : List Char) : Bool :=
  decide (word.map env.toCaseFolded <:+: articleTitle.map env.toCaseFolded)

def isRepack (articleTitle : List Char) : Bool := containsWord env articleTitle "REPACK".toList

def isProper (articleTitle : List Char) : Bool := containsWord env articleTitle "PROPER".toList

/-- `%1%2%3` of the episode and the two marks. -/
def fullEpisode (episode : List Char) (repack proper : Bool) : List Char :=
  episode ++ (if repack then "-REPACK".toList else []) ++ (if proper then "-PROPER".toList else [])

local instance lawfulText : LawfulBEq (List Char) := inferInstance

def matchesSmartEpisodeFilter (articleTitle : List Char) : Bool × AutoDownloadRule Date :=
  if !rule.smartFilter then (true, rule)
  else
    let episodeStr := env.computeEpisodeName articleTitle
    if episodeStr.isEmpty then (false, rule)
    else if episodeStr ∈ rule.previouslyMatchedEpisodes then
      if !env.downloadRepacks then (false, rule)
      else
        let repack := isRepack env articleTitle
        let proper := isProper env articleTitle
        if !repack && !proper then (false, rule)
        else
          let fullEpisodeStr := fullEpisode episodeStr repack proper
          if fullEpisodeStr ∈ rule.previouslyMatchedEpisodes then (false, rule)
          else
            (true, { rule with
              lastComputedEpisodes := rule.lastComputedEpisodes ++ fullEpisodeStr ::
                if repack && proper then
                  [episodeStr ++ "-REPACK".toList, episodeStr ++ "-PROPER".toList]
                else [] })
    else (true, { rule with lastComputedEpisodes := rule.lastComputedEpisodes ++ [episodeStr] })

/-- Whether the rule rests after its last match. -/
def isIgnored (articleDate : Date) : Bool :=
  decide (0 < rule.ignoreDays) &&
    (env.isValid rule.lastMatch &&
      env.earlier articleDate (env.addDays rule.lastMatch rule.ignoreDays))

/-- `matches`.  The episode filter drops what an earlier call has computed. -/
def «matches» (article : Article Date) : Bool × AutoDownloadRule Date :=
  if rule.isIgnored env article.date then (false, rule)
  else if !rule.matchesMustContainExpression env article.title then (false, rule)
  else if !rule.matchesMustNotContainExpression env article.title then (false, rule)
  else
    let cleared := { rule with lastComputedEpisodes := [] }
    if !matchesEpisodeFilterExpression env.written rule.episodeFilter article.title then
      (false, cleared)
    else cleared.matchesSmartEpisodeFilter env article.title

def accepts (article : Article Date) : Bool × AutoDownloadRule Date :=
  match rule.matches env article with
  | (false, rule') => (false, rule')
  | (true, rule') =>
    (true, { rule' with
      lastMatch := article.date
      previouslyMatchedEpisodes := rule'.previouslyMatchedEpisodes ++ rule'.lastComputedEpisodes
      lastComputedEpisodes := [] })

end AutoDownloadRule

end Qbutt.Rss
