import Qbutt.Completion.Policy

/-!
# What the evaluation of rules yields

The entries are those of a sublist of the rules.  In a configuration that was accepted the rules have
different identifiers, hence different claim keys for one torrent; the built-in rule is the only one
that may share its key with another.
-/

namespace Qbutt.Completion

variable {E : Environment} {executed : List String} {torrent : Torrent}

/-! ### Accepted configurations -/

theorem refuse_eq_none {condition : Bool} {text : String} :
    refuse condition text = none ↔ condition = false := by
  unfold refuse
  cases condition <;> simp

def ruleId (rule : Json) : String := (rule.toObject.get "id").toStr

theorem validateRule_ids {allowDeleteData : Bool} {ids : List String} {rule : JsonObject}
    (h : validateRule allowDeleteData ids rule = none) :
    (rule.get "id").toStr ≠ "" ∧ (rule.get "id").toStr ∉ ids := by
  unfold validateRule at h
  have hids := refuse_eq_none.mp (Option.or_eq_none_iff.mp h).1
  simp only [Bool.or_eq_false_iff, List.contains_eq_mem, decide_eq_false_iff_not] at hids
  refine ⟨fun hempty => ?_, hids.1.1.1.2⟩
  rw [hempty] at hids
  exact absurd hids.1.1.1.1.1 (by decide)

theorem validateRules_ids {allowDeleteData : Bool} {ids : List String} {rules : List Json}
    (h : validateRules allowDeleteData ids rules = none) :
    (∀ rule ∈ rules, ruleId rule ≠ "" ∧ ruleId rule ∉ ids) ∧ (rules.map ruleId).Nodup := by
  induction rules generalizing ids with
  | nil => exact ⟨fun _ h => (by cases h), List.nodup_nil⟩
  | cons rule rules ih =>
    obtain ⟨hrule, hrules⟩ := Option.or_eq_none_iff.mp h
    obtain ⟨hempty, hfresh⟩ := validateRule_ids hrule
    obtain ⟨hall, hnodup⟩ := ih hrules
    refine ⟨fun rule' hrule' => ?_, List.nodup_cons.mpr ⟨fun hmem => ?_, hnodup⟩⟩
    · rcases List.mem_cons.mp hrule' with rfl | hrule'
      · exact ⟨hempty, hfresh⟩
      · obtain ⟨hempty', hfresh'⟩ := hall rule' hrule'
        exact ⟨hempty', fun h => hfresh' (List.mem_cons_of_mem _ h)⟩
    · obtain ⟨rule', hrule', heq⟩ := List.mem_map.mp hmem
      exact (hall rule' hrule').2 (heq ▸ List.mem_cons_self)

/-- The rules of an accepted configuration have different identifiers, none of them empty. -/
theorem validateConfiguration_ids {configuration : JsonObject}
    (h : validateConfiguration configuration = none) :
    (∀ rule ∈ (configuration.get "rules").toArray, ruleId rule ≠ "") ∧
      ((configuration.get "rules").toArray.map ruleId).Nodup := by
  obtain ⟨-, h⟩ := Option.or_eq_none_iff.mp h
  obtain ⟨hall, hnodup⟩ := validateRules_ids (Option.or_eq_none_iff.mp h).2
  exact ⟨fun rule hrule => (hall rule hrule).1, hnodup⟩

/-! ### Entries -/

theorem ruleEntry_get (rule : JsonObject) :
    entryKey (ruleEntry E executed torrent rule) = claimKey E torrent rule ∧
      (ruleEntry E executed torrent rule).get "already_claimed" =
        .bool (executed.contains (claimKey E torrent rule)) :=
  ⟨rfl, rfl⟩

theorem evaluateRules_sublist (rules : List Json) : ∃ matching : List Json, matching.Sublist rules ∧
    evaluateRules E executed torrent rules =
      matching.map (fun rule => ruleEntry E executed torrent rule.toObject) ∧
    ∀ rule ∈ matching, ruleMatches torrent rule.toObject := by
  induction rules with
  | nil => exact ⟨[], .slnil, rfl, fun _ h => by cases h⟩
  | cons rule rules ih =>
    obtain ⟨matching, hsublist, heq, hmatch⟩ := ih
    unfold evaluateRules
    dsimp only
    by_cases hrule : ruleMatches torrent rule.toObject
    · rw [hrule]
      by_cases hterminal : isTerminalRule rule.toObject
      · refine ⟨[rule], (List.nil_sublist rules).cons_cons rule, ?_, fun rule' hrule' => ?_⟩
        · simp [hterminal]
        · obtain rfl := List.mem_singleton.mp hrule'
          exact hrule
      · refine ⟨rule :: matching, hsublist.cons_cons rule, ?_, fun rule' hrule' => ?_⟩
        · simp [hterminal, heq]
        · rcases List.mem_cons.mp hrule' with rfl | hrule'
          · exact hrule
          · exact hmatch rule' hrule'
    · exact ⟨matching, hsublist.cons rule, by simp [hrule, heq], hmatch⟩

/-- Rules after the given ones are reached unless one of these matches and is terminal. -/
theorem evaluateRules_append (rules rules' : List Json) :
    evaluateRules E executed torrent (rules ++ rules') =
      evaluateRules E executed torrent rules ++
        if ∃ rule ∈ rules, ruleMatches torrent rule.toObject ∧ isTerminalRule rule.toObject then []
        else evaluateRules E executed torrent rules' := by
  induction rules with
  | nil => simp [evaluateRules]
  | cons rule rules ih =>
    simp only [List.cons_append, evaluateRules, List.exists_mem_cons_iff]
    by_cases hrule : ruleMatches torrent rule.toObject
    · by_cases hterminal : isTerminalRule rule.toObject
      · simp [hrule, hterminal]
      · simp [hrule, hterminal, ih]
    · simp [hrule, ih]

/-- The digest tells the rules of one torrent apart. -/
def Environment.Collisionless (E : Environment) : Prop :=
  ∀ (torrent : Torrent) (id id' : String),
    E.digest (torrent.identity (.string id)) = E.digest (torrent.identity (.string id')) → id = id'

theorem get_id {rule : Json} (h : ruleId rule ≠ "") :
    rule.toObject.get "id" = .string (ruleId rule) := by
  unfold ruleId at h ⊢
  cases hid : rule.toObject.get "id" with
  | string value => rfl
  | _ => exact absurd (by rw [hid]; rfl) h

theorem ruleId_eq (hdigest : E.Collisionless) {rule rule' : Json} (hid : ruleId rule ≠ "")
    (hid' : ruleId rule' ≠ "")
    (h : claimKey E torrent rule.toObject = claimKey E torrent rule'.toObject) :
    ruleId rule = ruleId rule' := by
  unfold claimKey at h
  rw [get_id hid, get_id hid'] at h
  exact hdigest torrent _ _ h

/-- Rules with different identifiers have entries with different keys. -/
theorem evaluateRules_nodup (hdigest : E.Collisionless) {rules : List Json}
    (hempty : ∀ rule ∈ rules, ruleId rule ≠ "") (hids : (rules.map ruleId).Nodup) :
    ((evaluateRules E executed torrent rules).map entryKey).Nodup := by
  obtain ⟨matching, hsublist, heq, -⟩ := @evaluateRules_sublist E executed torrent rules
  rw [heq, List.map_map]
  have hmatching : (matching.map ruleId).Nodup := hids.sublist (hsublist.map ruleId)
  refine List.Nodup.map_on (fun rule hrule rule' hrule' hkey => ?_) hmatching.of_map
  have hid := ruleId_eq hdigest (hempty _ (hsublist.subset hrule))
    (hempty _ (hsublist.subset hrule')) hkey
  exact List.inj_on_of_nodup_map hmatching hrule hrule' hid

end Qbutt.Completion
