import Qbutt.Completion.Equiv.Policy

/-!
# The first terminal rule wins

Validation and evaluation read the same JSON.  In an accepted configuration a rule matches if and only
if the conditions hold that it states (`ruleMatches_iff`), and the evaluation returns the matching rules
up to the first terminal one.
-/

namespace Qbutt.Completion

open List

/-! ### Lists that end at their first element of a kind -/

section ThroughFirst

variable {α β : Type} {p : α → Bool}

def throughFirst (p : α → Bool) : List α → List α
  | [] => []
  | a :: l => a :: if p a then [] else throughFirst p l

/-- The list begins with it, only its last element satisfies `p`, and this one does if anything is
left out. -/
theorem throughFirst_spec (p : α → Bool) (l : List α) : ∃ rest, l = throughFirst p l ++ rest ∧
    (∀ a ∈ (throughFirst p l).dropLast, p a = false) ∧
    (rest ≠ [] → ∃ a, (throughFirst p l).getLast? = some a ∧ p a = true) := by
  induction l with
  | nil => exact ⟨[], rfl, fun _ h => (by cases h), fun h => absurd rfl h⟩
  | cons a l ih =>
    obtain ⟨rest, hrest, hinit, hlast⟩ := ih
    by_cases hp : p a = true
    · have hthrough : throughFirst p (a :: l) = [a] := by simp [throughFirst, hp]
      rw [hthrough]
      exact ⟨l, rfl, fun _ h => (by cases h), fun _ => ⟨a, rfl, hp⟩⟩
    · have hthrough : throughFirst p (a :: l) = a :: throughFirst p l := by
        simp [throughFirst, hp]
      rw [hthrough]
      refine ⟨rest, by rw [cons_append, ← hrest], ?_, ?_⟩
      · intro b hb
        cases hl : throughFirst p l with
        | nil =>
          rw [hl] at hb
          cases hb
        | cons c l' =>
          rw [hl, dropLast_cons_of_ne_nil (cons_ne_nil c l'), ← hl] at hb
          rcases mem_cons.mp hb with rfl | hb
          · exact Bool.eq_false_iff.mpr hp
          · exact hinit b hb
      · intro hne
        obtain ⟨b, hb, hpb⟩ := hlast hne
        refine ⟨b, ?_, hpb⟩
        rw [List.getLast?_cons, hb]
        rfl

/-- If only elements with `p` have parts, and each of these one at most, the list has one part. -/
theorem length_flatMap_throughFirst {f : α → List β} {l : List α}
    (hfew : ∀ a ∈ l, (f a).length ≤ 1) (hnone : ∀ a ∈ l, p a = false → f a = []) :
    ((throughFirst p l).flatMap f).length ≤ 1 := by
  induction l with
  | nil => exact Nat.zero_le 1
  | cons a l ih =>
    rw [throughFirst, flatMap_cons]
    by_cases hp : p a = true
    · rw [if_pos hp]
      simpa using hfew a mem_cons_self
    · rw [if_neg hp, hnone a mem_cons_self (Bool.eq_false_iff.mpr hp), nil_append]
      exact ih (fun b hb => hfew b (mem_cons_of_mem a hb)) fun b hb =>
        hnone b (mem_cons_of_mem a hb)

end ThroughFirst

variable {E : Environment} {executed : List String} {torrent : Torrent}

/-- The loop of `evaluate` in two parts. -/
theorem evaluateRules_eq (rules : List Json) : evaluateRules E executed torrent rules =
    (throughFirst (fun rule => isTerminalRule rule.toObject)
      (rules.filter fun rule => ruleMatches torrent rule.toObject)).map fun rule =>
        ruleEntry E executed torrent rule.toObject := by
  induction rules with
  | nil => rfl
  | cons rule rules ih =>
    rw [evaluateRules]
    by_cases hrule : ruleMatches torrent rule.toObject = true
    · by_cases hterminal : isTerminalRule rule.toObject = true
      · simp [hrule, hterminal, throughFirst]
      · simp [hrule, hterminal, throughFirst, ih]
    · simp [hrule, ih]

/-! ### What a rule says -/

structure RuleHolds (torrent : Torrent) (rule : JsonObject) : Prop where
  enabled : rule.get "enabled" = .bool true
  category : ∀ category, (rule.get "match").toObject.get "category" = .string category →
    torrent.category = category
  ratio : ∀ threshold ratio, (rule.get "match").toObject.get "min_ratio" = .number threshold →
    torrent.realRatio = some ratio → threshold ≤ ratio
  seeding : ∀ threshold, (rule.get "match").toObject.get "min_seeding_seconds" = .number threshold →
    threshold ≤ torrent.finishedTime
  tags : ∀ tag, .string tag ∈ ((rule.get "match").toObject.get "tags").toArray →
    tag ∈ torrent.tags

def terminalActions (entry : JsonObject) : List String :=
  ((entry.get "actions").toArray.map Json.toStr).filter isTerminal

theorem isText_eq {text : String} (h : text ≠ "") (value : Json) :
    value.isText text = decide (value.toStr = text) := by
  cases value with
  | string value => exact Bool.beq_eq_decide_eq value text
  | _ => exact (decide_eq_false fun heq => h heq.symm).symm

theorem hasAction_iff {action : String} (h : action ≠ "") (entry : JsonObject) :
    hasAction entry action = true ↔ action ∈ (entry.get "actions").toArray.map Json.toStr := by
  simp only [hasAction, any_eq_true, isText_eq h, decide_eq_true_eq, mem_map]

theorem isTerminalRule_eq (rule : JsonObject) :
    isTerminalRule rule = false ↔ terminalActions rule = [] := by
  have hterminal : isTerminalRule rule = true ↔ terminalActions rule ≠ [] := by
    simp only [isTerminalRule, Bool.or_eq_true, hasAction_iff (by decide : ("stop" : String) ≠ ""),
      hasAction_iff (by decide : ("remove_torrent" : String) ≠ ""),
      hasAction_iff (by decide : ("delete_data" : String) ≠ ""), terminalActions]
    constructor
    · rintro ((h | h) | h) <;>
        exact ne_nil_of_mem (mem_filter.mpr ⟨h, by decide⟩)
    · intro h
      obtain ⟨action, haction⟩ := exists_mem_of_ne_nil _ h
      obtain ⟨hmem, haction⟩ := mem_filter.mp haction
      simp only [isTerminal, Bool.or_eq_true, decide_eq_true_eq] at haction
      rcases haction with (rfl | rfl) | rfl
      · exact .inl (.inl hmem)
      · exact .inl (.inr hmem)
      · exact .inr hmem
  rw [← Bool.not_eq_true, hterminal, not_not]

/-! ### Accepted rules -/

/-- What validation finds out about a rule. -/
structure RuleAccepted (allowDeleteData : Bool) (rule : JsonObject) : Prop where
  matching : ∀ condition ∈ (rule.get "match").toObject, validateMatch condition = none
  actions : ∀ action ∈ (rule.get "actions").toArray.map Json.toStr,
    action = "delete_data" → allowDeleteData = true
  terminal : (terminalActions rule).length ≤ 1

theorem validateActions_delete {allowDeleteData : Bool} {seen : List String} {actions : List Json}
    (h : validateActions allowDeleteData seen actions = none) :
    ∀ action ∈ actions.map Json.toStr, action = "delete_data" → allowDeleteData = true := by
  induction actions generalizing seen with
  | nil => exact fun _ h => by cases h
  | cons value values ih =>
    obtain ⟨-, h⟩ := Option.or_eq_none_iff.mp h
    obtain ⟨-, h⟩ := Option.or_eq_none_iff.mp h
    obtain ⟨hdelete, hrest⟩ := Option.or_eq_none_iff.mp h
    intro action haction heq
    rcases mem_cons.mp haction with rfl | haction
    · simpa [refuse_eq_none, heq] using hdelete
    · exact ih hrest action haction heq

theorem validateRule_accepted {allowDeleteData : Bool} {ids : List String} {rule : JsonObject}
    (h : validateRule allowDeleteData ids rule = none) : RuleAccepted allowDeleteData rule := by
  unfold validateRule at h
  simp only [Option.or_eq_none_iff] at h
  obtain ⟨-, -, -, hmatch, hactions, -, hterminal⟩ := h
  refine ⟨List.findSome?_eq_none_iff.mp hmatch, validateActions_delete hactions, ?_⟩
  rw [refuse_eq_none, decide_eq_false_iff_not, not_lt] at hterminal
  rwa [terminalActions, filter_map, length_map]

theorem validateRules_accepted {allowDeleteData : Bool} {ids : List String} {rules : List Json}
    (h : validateRules allowDeleteData ids rules = none) :
    ∀ rule ∈ rules, RuleAccepted allowDeleteData rule.toObject := by
  induction rules generalizing ids with
  | nil => exact fun _ h => by cases h
  | cons rule rules ih =>
    obtain ⟨hrule, hrules⟩ := Option.or_eq_none_iff.mp h
    intro rule' hrule'
    rcases mem_cons.mp hrule' with rfl | hrule'
    · exact validateRule_accepted hrule
    · exact ih hrules rule' hrule'

theorem validateConfiguration_accepted {configuration : JsonObject}
    (h : validateConfiguration configuration = none) :
    ∀ rule ∈ (configuration.get "rules").toArray,
      RuleAccepted (configuration.get "allow_delete_data").toBool rule.toObject := by
  obtain ⟨-, h⟩ := Option.or_eq_none_iff.mp h
  exact validateRules_accepted (Option.or_eq_none_iff.mp h).2

/-! ### Matching -/

theorem mem_of_get {o : JsonObject} {key : String} (h : o.has key = true) : (key, o.get key) ∈ o := by
  obtain ⟨value, hvalue⟩ := Option.isSome_iff_exists.mp h
  obtain ⟨l₁, l₂, rfl, -⟩ := lookup_eq_some_iff.mp hvalue
  rw [JsonObject.get, hvalue]
  exact mem_append_right l₁ mem_cons_self

theorem has_of_get {o : JsonObject} {key : String} (h : o.get key ≠ .null) : o.has key = true := by
  unfold JsonObject.get at h
  unfold JsonObject.has
  cases hlookup : o.lookup key with
  | none => exact absurd (by rw [hlookup]; rfl) h
  | some value => rfl

variable {allowDeleteData : Bool} {rule : JsonObject}

/-- The condition on the category is a string. -/
theorem RuleAccepted.category (h : RuleAccepted allowDeleteData rule)
    (hhas : (rule.get "match").toObject.has "category" = true) :
    ∃ category, (rule.get "match").toObject.get "category" = .string category := by
  have hmatch := h.matching _ (mem_of_get hhas)
  simp only [validateMatch, if_true, refuse_eq_none, Bool.or_eq_false_iff] at hmatch
  cases hget : (rule.get "match").toObject.get "category" with
  | string category => exact ⟨category, rfl⟩
  | _ =>
    rw [hget] at hmatch
    cases hmatch.1

/-- The condition on the tags names strings. -/
theorem RuleAccepted.tags (h : RuleAccepted allowDeleteData rule) :
    ∀ tag ∈ ((rule.get "match").toObject.get "tags").toArray, tag = .string tag.toStr := by
  intro tag htag
  have hne : (rule.get "match").toObject.get "tags" ≠ .null := by
    intro hnull
    rw [hnull] at htag
    cases htag
  have hmatch := h.matching _ (mem_of_get (has_of_get hne))
  have hkey : ("tags" : String) ≠ "category" := by decide
  simp only [validateMatch, if_neg hkey, if_true] at hmatch
  split_ifs at hmatch with hshape
  rw [refuse_eq_none, any_eq_false] at hmatch
  have hstring := hmatch tag htag
  cases tag with
  | string name => rfl
  | _ => exact absurd rfl hstring

theorem toBool_iff (value : Json) : value.toBool = true ↔ value = .bool true := by
  cases value <;> simp [Json.toBool]

theorem threshold_le_iff {value : Json} {bound : ℚ} (hbound : 0 ≤ bound) :
    value.toDouble 0 ≤ bound ↔ ∀ threshold, value = .number threshold → threshold ≤ bound := by
  cases value with
  | number threshold => exact ⟨fun h t ht => by cases ht; exact h, fun h => h threshold rfl⟩
  | _ => exact ⟨fun _ t ht => (by cases ht), fun _ => hbound⟩

/-- A rule of an accepted configuration matches if and only if the conditions hold that it states. -/
theorem RuleAccepted.ruleMatches_iff (h : RuleAccepted allowDeleteData rule) :
    ruleMatches torrent rule = true ↔ RuleHolds torrent rule := by
  have hcategory : ((rule.get "match").toObject.has "category" &&
      decide (((rule.get "match").toObject.get "category").toStr ≠ torrent.category)) = false ↔
      ∀ category, (rule.get "match").toObject.get "category" = .string category →
        torrent.category = category := by
    by_cases hhas : (rule.get "match").toObject.has "category" = true
    · obtain ⟨category, hget⟩ := h.category hhas
      rw [hhas, hget, Bool.true_and, decide_eq_false_iff_not, not_not]
      exact ⟨fun heq c hc => (Json.string.inj hc) ▸ heq.symm, fun heq => (heq category rfl).symm⟩
    · rw [Bool.eq_false_iff.mpr hhas, Bool.false_and]
      refine ⟨fun _ category hget => absurd (has_of_get ?_) hhas, fun _ => rfl⟩
      rw [hget]
      exact Json.noConfusion
  have hratio : torrent.ratioBelow (((rule.get "match").toObject.get "min_ratio").toDouble 0) =
      false ↔ ∀ threshold ratio, (rule.get "match").toObject.get "min_ratio" = .number threshold →
        torrent.realRatio = some ratio → threshold ≤ ratio := by
    unfold Torrent.ratioBelow
    cases hreal : torrent.realRatio with
    | none => exact ⟨fun _ _ _ _ hr => (by cases hr), fun _ => rfl⟩
    | some ratio =>
      have hpos : (0 : ℚ) ≤ (ratio : ℚ) := ratio.2
      rw [Option.any_some, decide_eq_false_iff_not, not_lt, threshold_le_iff hpos]
      exact ⟨fun hle t r ht hr => (Option.some.inj hr) ▸ hle t ht,
        fun hle t ht => hle t ratio ht rfl⟩
  have htags : (((rule.get "match").toObject.get "tags").toArray.all fun tag =>
      torrent.tags.contains tag.toStr) = true ↔
      ∀ tag, .string tag ∈ ((rule.get "match").toObject.get "tags").toArray →
        tag ∈ torrent.tags := by
    rw [all_eq_true]
    refine ⟨fun hall tag htag => contains_iff_mem.mp (hall _ htag), fun hall tag htag => ?_⟩
    exact contains_iff_mem.mpr (hall _ (h.tags tag htag ▸ htag))
  simp only [ruleMatches, Bool.and_eq_true, Bool.not_eq_true', hratio, hcategory, htags,
    decide_eq_false_iff_not, not_lt, threshold_le_iff (Nat.cast_nonneg torrent.finishedTime),
    toBool_iff]
  exact ⟨fun ⟨⟨⟨⟨h1, h2⟩, h3⟩, h4⟩, h5⟩ => ⟨h1, h2, h3, h4, h5⟩,
    fun ⟨h1, h2, h3, h4, h5⟩ => ⟨⟨⟨⟨h1, h2⟩, h3⟩, h4⟩, h5⟩⟩

/-! ### Evaluation -/

/-- The matching rules up to the first terminal one. -/
theorem evaluateRules_spec {rules : List Json} (h : ∀ rule ∈ rules,
    RuleAccepted allowDeleteData rule.toObject) :
    (∃ kept rest, evaluateRules E executed torrent rules =
        kept.map (fun rule : Json => ruleEntry E executed torrent rule.toObject) ∧
      (rules.filter fun rule => ruleMatches torrent rule.toObject) = kept ++ rest ∧
      (∀ rule ∈ kept.dropLast, terminalActions rule.toObject = []) ∧
      (rest ≠ [] → ∃ rule : Json, kept.getLast? = some rule ∧
        terminalActions rule.toObject ≠ [])) ∧
    ((evaluateRules E executed torrent rules).flatMap terminalActions).length ≤ 1 ∧
    (∀ entry ∈ (evaluateRules E executed torrent rules).dropLast, terminalActions entry = []) ∧
    ∀ entry ∈ evaluateRules E executed torrent rules, hasAction entry "delete_data" = true →
      allowDeleteData = true := by
  obtain ⟨rest, hrest, hinit, hlast⟩ := throughFirst_spec
    (fun rule : Json => isTerminalRule rule.toObject)
    (rules.filter fun rule => ruleMatches torrent rule.toObject)
  have hnone : ∀ rule ∈ (throughFirst (fun rule : Json => isTerminalRule rule.toObject)
      (rules.filter fun rule => ruleMatches torrent rule.toObject)).dropLast,
      terminalActions rule.toObject = [] :=
    fun rule hrule => (isTerminalRule_eq _).mp (hinit rule hrule)
  rw [evaluateRules_eq]
  refine ⟨⟨_, rest, rfl, hrest, hnone, fun hne => ?_⟩, ?_, ?_, ?_⟩
  · obtain ⟨rule, hrule, hterminal⟩ := hlast hne
    refine ⟨rule, hrule, fun hnil => ?_⟩
    rw [(isTerminalRule_eq _).mpr hnil] at hterminal
    cases hterminal
  · rw [flatMap_map]
    refine length_flatMap_throughFirst (fun rule hrule => ?_) fun rule _ hterminal => ?_
    · exact (h rule (mem_filter.mp hrule).1).terminal
    · exact (isTerminalRule_eq _).mp hterminal
  · rw [← map_dropLast]
    intro entry hmem
    obtain ⟨rule, hrule, rfl⟩ := mem_map.mp hmem
    exact hnone rule hrule
  · intro entry hmem hdelete
    obtain ⟨rule, hrule, rfl⟩ := mem_map.mp hmem
    have hfiltered : rule ∈ rules.filter fun rule => ruleMatches torrent rule.toObject := by
      rw [hrest]
      exact mem_append_left rest hrule
    exact (h rule (mem_filter.mp hfiltered).1).actions "delete_data" ((hasAction_iff (by decide) _).mp hdelete) rfl

/-- A matching rule with a terminal action keeps the rules after it from being reached. -/
theorem evaluateRules_append_of_terminal {rules : List Json} (rules' : List Json) {rule : Json}
    (hrule : rule ∈ rules) (hmatch : ruleMatches torrent rule.toObject = true)
    (hterminal : terminalActions rule.toObject ≠ []) :
    evaluateRules E executed torrent (rules ++ rules') = evaluateRules E executed torrent rules := by
  have hexists : ∃ rule ∈ rules, ruleMatches torrent rule.toObject ∧
      isTerminalRule rule.toObject := by
    refine ⟨rule, hrule, hmatch, ?_⟩
    by_contra hnot
    exact hterminal ((isTerminalRule_eq _).mp (Bool.eq_false_iff.mpr hnot))
  rw [evaluateRules_append, if_pos hexists, append_nil]

open Classical in
/-- A policy with an error evaluates no rules.  Otherwise, for an accepted configuration, the entries
are those of the rules that are enabled and whose conditions hold, in order, cut after the first one
with a terminal action.  So there is one terminal action at most, in the last entry, and files are
deleted only where the configuration allows it.  If the policy is enabled, a rule with a terminal
action whose conditions hold prevents the removal of the completed torrent. -/
theorem first_terminal_rule_wins {configuration : JsonObject}
    (h : validateConfiguration configuration = none) (policy : Policy) (torrent : Torrent) :
    let rules := (configuration.get "rules").toArray
    let result := policy.evaluate E torrent rules
    (policy.error ≠ none → result = []) ∧
    (policy.error = none → ∃ kept rest,
      result = kept.map (fun rule : Json => ruleEntry E policy.executed torrent rule.toObject) ∧
      (rules.filter fun rule => RuleHolds torrent rule.toObject) = kept ++ rest ∧
      (∀ rule ∈ kept.dropLast, terminalActions rule.toObject = []) ∧
      (rest ≠ [] → ∃ rule : Json, kept.getLast? = some rule ∧
        terminalActions rule.toObject ≠ [])) ∧
    (result.flatMap terminalActions).length ≤ 1 ∧
    (∀ entry ∈ result.dropLast, terminalActions entry = []) ∧
    (∀ entry ∈ result, hasAction entry "delete_data" = true →
      configuration.get "allow_delete_data" = .bool true) ∧
    (policy.configuration = configuration → configuration.get "enabled" = .bool true →
      (∃ rule ∈ rules, RuleHolds torrent rule.toObject ∧ terminalActions rule.toObject ≠ []) →
      ∀ time, policy.claims E torrent true time = policy.claims E torrent false time) := by
  have haccepted := validateConfiguration_accepted h
  intro rules result
  have hfilter : (rules.filter fun rule => ruleMatches torrent rule.toObject) =
      rules.filter fun rule => decide (RuleHolds torrent rule.toObject) := by
    refine filter_congr fun rule hrule => ?_
    rw [Bool.eq_iff_iff, decide_eq_true_eq]
    exact (haccepted rule hrule).ruleMatches_iff
  obtain ⟨hcut, hcount, hinit, hdelete⟩ :=
    @evaluateRules_spec E policy.executed torrent _ rules haccepted
  rw [hfilter] at hcut
  have hresult : policy.error = none →
      result = evaluateRules E policy.executed torrent rules := by
    intro herror
    simp only [result, Policy.evaluate, Policy.hasError, herror, Option.isSome_none,
      Bool.false_eq_true, if_false]
  have hempty : policy.error ≠ none → result = [] := by
    intro herror
    simp only [result, Policy.evaluate, Policy.hasError, Option.isSome_iff_ne_none.mpr herror, if_true]
  by_cases herror : policy.error = none
  · rw [hresult herror]
    refine ⟨fun hne => absurd herror hne, fun _ => hcut, hcount, hinit, fun entry hmem hhas => ?_, ?_⟩
    · exact (toBool_iff _).mp (hdelete entry hmem hhas)
    · rintro rfl henabled ⟨rule, hrule, hholds, hterminal⟩ time
      have hactive : policy.activeRules = rules := by
        simp only [Policy.activeRules, henabled, Json.toBool, if_true, rules]
      have happend := @evaluateRules_append_of_terminal E policy.executed torrent rules
        [.object builtinRule] rule hrule ((haccepted rule hrule).ruleMatches_iff.mpr hholds) hterminal
      simp only [Policy.claims, Policy.evaluate, Policy.hasError, herror, hactive, if_true,
        Bool.false_eq_true, if_false, append_nil, happend]
  · rw [hempty herror]
    refine ⟨fun _ => rfl, fun hnone => absurd hnone herror, Nat.zero_le 1, fun _ h => (by cases h),
      fun _ h => (by cases h), fun _ _ _ time => ?_⟩
    simp only [Policy.claims, Policy.evaluate, Policy.hasError,
      Option.isSome_iff_ne_none.mpr herror, if_true, filter_nil, map_nil]

def samplePolicy (configuration : JsonObject) (readable : Bool) : Policy :=
  .construct ⟨some configuration, none, []⟩ [sampleTorrent] readable true

/-- A rule without conditions that stops the torrent comes before one that is not reached. -/
def stoppingRules (enabled : Bool) : JsonObject :=
  [("allow_delete_data", .bool false), ("enabled", .bool enabled),
    ("rules", .array
      [.object
        [("actions", .array [.string "notify", .string "stop"]), ("enabled", .bool true),
          ("id", .string "done"), ("match", .object [])],
      .object
        [("actions", .array [.string "notify"]), ("enabled", .bool true),
          ("id", .string "later"), ("match", .object [])]])]

theorem accepted_stoppingRules (enabled : Bool) :
    validateConfiguration (stoppingRules enabled) = none := by
  cases enabled <;> decide +kernel

theorem holds_stoppingRules (enabled : Bool) :
    ∃ rule ∈ ((stoppingRules enabled).get "rules").toArray,
      RuleHolds sampleTorrent rule.toObject ∧ terminalActions rule.toObject ≠ [] := by
  refine ⟨_, mem_cons_self, ?_, by decide +kernel⟩
  constructor
  case enabled => rfl
  case category => exact fun category h => by cases h
  case ratio => exact fun threshold ratio h => by cases h
  case seeding => exact fun threshold h => by cases h
  case tags => exact fun tag h => by cases h

theorem first_terminal_rule_wins_sample :
    (((samplePolicy (stoppingRules true) true).evaluate sampleEnvironment sampleTorrent
      ((stoppingRules true).get "rules").toArray).flatMap terminalActions).length ≤ 1 ∧
    (samplePolicy (stoppingRules true) true).claims sampleEnvironment sampleTorrent true "" =
      (samplePolicy (stoppingRules true) true).claims sampleEnvironment sampleTorrent false "" := by
  obtain ⟨-, -, hcount, -, -, hremoval⟩ := @first_terminal_rule_wins sampleEnvironment _
    (accepted_stoppingRules true) (samplePolicy (stoppingRules true) true) sampleTorrent
  have hread : (samplePolicy (stoppingRules true) true).configuration = stoppingRules true := by
    simp only [samplePolicy, Policy.construct, Option.bind_some, accepted_stoppingRules, if_true,
      Option.isSome_none, Bool.false_eq_true, if_false, Option.getD_some]
  exact ⟨hcount, hremoval hread rfl (holds_stoppingRules true) ""⟩

/-- A policy that could not read its rules evaluates none, and one that is off claims the removal of a
completed torrent although a rule with a terminal action holds. -/
theorem error_or_off_evaluates_no_rule :
    ((samplePolicy (stoppingRules true) false).evaluate sampleEnvironment sampleTorrent
      ((stoppingRules true).get "rules").toArray).isEmpty = true ∧
    (validateConfiguration (stoppingRules true) = none ∧
      ∃ rule ∈ ((stoppingRules true).get "rules").toArray,
        RuleHolds sampleTorrent rule.toObject ∧ terminalActions rule.toObject ≠ []) ∧
    ((samplePolicy (stoppingRules false) true).claims sampleEnvironment sampleTorrent true "").any
      (fun claim => hasAction claim "remove_torrent") = true ∧
    validateConfiguration (stoppingRules false) = none ∧
      ∃ rule ∈ ((stoppingRules false).get "rules").toArray,
        RuleHolds sampleTorrent rule.toObject ∧ terminalActions rule.toObject ≠ [] :=
  ⟨by decide +kernel, ⟨accepted_stoppingRules true, holds_stoppingRules true⟩, by decide +kernel,
    accepted_stoppingRules false, holds_stoppingRules false⟩

end Qbutt.Completion
