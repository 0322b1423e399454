import Mathlib.Data.List.Sort
import Mathlib.Data.Rat.Floor
import Qbutt.Qt.Json

/-!
# Completion rules

The configuration of the completion policy, which stays the JSON object it is saved as, and its two
readers: `validateConfiguration`, which accepts or refuses it, and `evaluate`, which finds the rules
that apply to a torrent.
-/

namespace Qbutt.Completion

/-! ### Validation -/

def refuse (condition : Bool) (text : String) : Option String :=
  if condition then some text else none

def validateMatch (condition : String × Json) : Option String :=
  let (key, value) := condition
  if key = "category" then
    refuse (!value.isString || qsize value.toStr > 1024) "Category must be a string."
  else if key = "tags" then
    if !value.isArray || value.toArray.length > 64 then
      some "Tags must be an array of at most 64 names."
    else
      refuse (value.toArray.any fun tag =>
          !tag.isString || tag.toStr.isEmpty || qsize tag.toStr > 256)
        "Tag names must be nonempty strings."
  else if key = "min_ratio" ∨ key = "min_seeding_seconds" then
    let number := value.toDouble (-1)
    refuse (!value.isDouble || number < 0 || number > 1000000000000 ||
        (key = "min_seeding_seconds" && (⌊number⌋ : ℚ) ≠ number))
      "Ratio and seeding time thresholds must be finite nonnegative numbers."
  else some ("Unknown rule condition: " ++ key)

/-- Whether an action ends the evaluation of the rules. -/
def isTerminal (action : String) : Bool :=
  action = "stop" || action = "remove_torrent" || action = "delete_data"

/-- The loop over the actions of a rule, with those that it has seen. -/
def validateActions (allowDeleteData : Bool) : List String → List Json → Option String
  | _, [] => none
  | seen, value :: values =>
    let action := value.toStr
    (refuse (seen.contains action) "Duplicate rule action.").or <|
      (refuse (!isTerminal action && action ≠ "notify") ("Unknown rule action: " ++ action)).or <|
        (refuse (action = "delete_data" && !allowDeleteData)
          "Enable file deletion before choosing this action.").or <|
          validateActions allowDeleteData (action :: seen) values

/-- A rule, given the identifiers of those before it. -/
def validateRule (allowDeleteData : Bool) (ids : List String) (rule : JsonObject) :
    Option String :=
  let id := (rule.get "id").toStr
  let actions := (rule.get "actions").toArray
  (refuse (id.isEmpty || qsize id > 128 || ids.contains id || !(rule.get "enabled").isBool ||
      !(rule.get "match").isObject || !(rule.get "actions").isArray)
    "Every rule needs a unique ID, enabled flag, match object and actions.").or <|
  (rule.keys.findSome? fun key =>
    refuse (key ≠ "id" && key ≠ "enabled" && key ≠ "match" && key ≠ "actions" && key ≠ "on")
      ("Unknown rule setting: " ++ key)).or <|
  (refuse (rule.has "on" && (rule.get "on").toStr ≠ "wanted_files_committed")
    "Rules run on wanted_files_committed.").or <|
  ((rule.get "match").toObject.findSome? validateMatch).or <|
  (validateActions allowDeleteData [] actions).or <|
  (refuse actions.isEmpty "Choose an action or enable notifications.").or <|
  refuse ((actions.filter fun action => isTerminal action.toStr).length > 1)
    "Choose only one action: stop the torrent, remove it, or delete its files."

/-- The loop over the rules, with the identifiers it has seen. -/
def validateRules (allowDeleteData : Bool) : List String → List Json → Option String
  | _, [] => none
  | ids, value :: values =>
    (validateRule allowDeleteData ids value.toObject).or
      (validateRules allowDeleteData ((value.toObject.get "id").toStr :: ids) values)

/-- `validateConfiguration`: why a configuration is refused. -/
def validateConfiguration (configuration : JsonObject) : Option String :=
  (refuse (!(configuration.get "enabled").isBool || !(configuration.get "allow_delete_data").isBool ||
      !(configuration.get "rules").isArray || (configuration.get "rules").toArray.length > 64)
    "Provide enabled, allow_delete_data and at most 64 rules.").or <|
  (configuration.keys.findSome? fun key =>
    refuse (key ≠ "enabled" && key ≠ "allow_delete_data" && key ≠ "rules")
      ("Unknown completion setting: " ++ key)).or <|
  validateRules (configuration.get "allow_delete_data").toBool []
    (configuration.get "rules").toArray

/-- The configuration of a new installation. -/
def defaultConfiguration : JsonObject :=
  [("allow_delete_data", .bool false), ("enabled", .bool false), ("rules", .array [])]

/-! ### Evaluation -/

/-- What the policy knows about a torrent.  `completing` says that a completion job owns its files;
the other conditions of `isReadyForCompletion` are `idle`.  A torrent that sent data and got none has
no finite ratio (`MAX_RATIO`). -/
structure Torrent where
  id : String
  addedTime : ℤ
  name : String
  category : String
  tags : List String
  wanted : List Bool
  realRatio : Option ℚ≥0
  finishedTime : ℕ
  destination : String
  isStopped : Bool
  idle : Bool
  completing : Bool
  isCompletionPolicyPreview : Bool

def Torrent.isReadyForCompletion (torrent : Torrent) : Bool :=
  torrent.idle && !torrent.completing

def Torrent.sortedTags (torrent : Torrent) : List String :=
  torrent.tags.mergeSort fun left right => left ≤ right

/-- `selected`: a digit for every file. -/
def Torrent.selected (torrent : Torrent) : String :=
  String.ofList (torrent.wanted.map fun wanted => if wanted then '1' else '0')

/-- `identity`: a rule identifier stands for one action per incarnation of a torrent and selection of
files. -/
def Torrent.identity (torrent : Torrent) (ruleId : Json) : Json :=
  .array [.string torrent.id, .string (toString torrent.addedTime), .string torrent.selected, ruleId]

def Torrent.ratioBelow (torrent : Torrent) (threshold : ℚ) : Bool :=
  torrent.realRatio.any fun (ratio : ℚ≥0) => (ratio : ℚ) < threshold

/-- Whether a rule is enabled and its conditions hold. -/
def ruleMatches (torrent : Torrent) (rule : JsonObject) : Bool :=
  let conditions := (rule.get "match").toObject
  (rule.get "enabled").toBool &&
    !(conditions.has "category" && (conditions.get "category").toStr ≠ torrent.category) &&
    !torrent.ratioBelow ((conditions.get "min_ratio").toDouble 0) &&
    !((torrent.finishedTime : ℚ) < (conditions.get "min_seeding_seconds").toDouble 0) &&
    (conditions.get "tags").toArray.all fun tag => torrent.tags.contains tag.toStr

/-- Whether the actions of a rule contain the given one. -/
def hasAction (entry : JsonObject) (action : String) : Bool :=
  (entry.get "actions").toArray.any (Json.isText action)

def isTerminalRule (rule : JsonObject) : Bool :=
  hasAction rule "stop" || hasAction rule "remove_torrent" || hasAction rule "delete_data"

/-- What the policy takes from elsewhere: the hexadecimal SHA-256 of a compact JSON document, and the
text of a failed file operation. -/
structure Environment where
  digest : Json → String
  errorString : String

def claimKey (E : Environment) (torrent : Torrent) (rule : JsonObject) : String :=
  E.digest (torrent.identity (rule.get "id"))

def ruleEntry (E : Environment) (executed : List String) (torrent : Torrent) (rule : JsonObject) :
    JsonObject :=
  let key := claimKey E torrent rule
  [("actions", .array (rule.get "actions").toArray),
    ("added_at", .string (toString torrent.addedTime)),
    ("already_claimed", .bool (executed.contains key)),
    ("hash", .string torrent.id),
    ("key", .string key),
    ("name", .string torrent.name),
    ("reason", .object
      [("category", .string torrent.category),
        ("destination", .string torrent.destination),
        -- An infinite number is written as `null`.
        ("ratio", (torrent.realRatio.map fun (ratio : ℚ≥0) => Json.number ratio).getD .null),
        ("seeding_seconds", .number torrent.finishedTime),
        ("tags", .array (torrent.sortedTags.map .string)),
        ("wanted", .string torrent.selected)]),
    ("rule", rule.get "id")]

/-- The loop of `evaluate`: the matching rules up to the first one with a terminal action. -/
def evaluateRules (E : Environment) (executed : List String) (torrent : Torrent) :
    List Json → List JsonObject
  | [] => []
  | value :: values =>
    let rule := value.toObject
    if !ruleMatches torrent rule then evaluateRules E executed torrent values
    else
      ruleEntry E executed torrent rule ::
        if isTerminalRule rule then [] else evaluateRules E executed torrent values

end Qbutt.Completion
