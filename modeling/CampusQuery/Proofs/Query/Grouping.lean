import CampusQuery.Proofs.Outcome
import CampusQuery.Proofs.Query.Keys
/-!
The grouping that the walk accepts is the one that is written.
-/

namespace CampusQuery

namespace Check

variable {subject : Subject}

theorem groupKeys_realizes (j : Json) :
    Realizes subject (groupKeys j) fun group =>
      j = .array (group.map fun g => .string g.key) ∧ group ≠ [] ∧
        ∀ g ∈ group, subject.Names g.key g.field := by
  have hkey (key : String) : Realizes subject (do return GroupKey.mk key (← fieldKey key))
      fun g => key = g.key ∧ subject.Names g.key g.field := by
    apply ((fieldKey_realizes key).bind fun field => Realizes.pure _).of_iff
    intro g
    constructor
    · intro h
      rcases h with ⟨field, hnames, rfl⟩
      exact ⟨rfl, hnames⟩
    · intro h
      rcases h with ⟨rfl, hnames⟩
      exact ⟨g.field, hnames, rfl⟩
  apply ((someTexts_realizes .group j).bind fun keys =>
    Realizes.mapM fun key _ => hkey key).of_iff
  intro group
  simp only [forall₂_eq_and_iff]
  constructor
  · intro h
    rcases h with ⟨_, ⟨rfl, hne⟩, rfl, hnames⟩
    exact ⟨by simp, by simpa using hne, hnames⟩
  · intro h
    rcases h with ⟨rfl, hne, hnames⟩
    exact ⟨_, ⟨by simp, by simpa using hne⟩, rfl, hnames⟩

theorem applyKey_realizes (taken : List String) (key : String) :
    Realizes subject (applyKey taken key) fun _ =>
      key ≠ "" ∧ delimiter ∉ key.toList ∧ key ∉ taken := by
  refine (Realizes.unless_bind (Realizes.unless_bind
    (Realizes.unless (Realizes.pure ())))).of_iff ?_
  simp

end Check

theorem Aggregate.ofWord?_eq_some_iff {word : String} {aggregate : Aggregate} :
    Aggregate.ofWord? word = some aggregate ↔ word = aggregate.word := by
  constructor
  · intro h
    unfold Aggregate.ofWord? at h
    split at h <;> cases h <;> rfl
  · rintro rfl
    cases aggregate <;> rfl

/-- What the walk tests of a rule before it accepts it. -/
theorem Aggregate.accepts_iff {aggregate : Aggregate} {field : Field} :
    ¬(aggregate.needsNumber && !field.isNumeric) = true ↔
      (aggregate ≠ .count → field.isNumeric = true) := by
  cases aggregate <;> simp [needsNumber]

namespace Check

variable {subject : Subject}

theorem ruleBody_realizes (key : String) (entry : String × Json) :
    Realizes subject
      (match Aggregate.ofWord? entry.1 with
        | some aggregate =>
          match entry.2 with
          | .string target => do
            let field ← fieldKey target
            if aggregate.needsNumber && !field.isNumeric then
              throw (.aggregateOfText aggregate target)
            return (⟨key, aggregate, field⟩ : ApplyRule)
          | _ => throw .targetNotText
        | _ => throw (.unknownAggregate entry.1))
      fun rule => key = rule.key ∧ (rule.aggregate ≠ .count → rule.field.isNumeric = true) ∧
        ∃ target, subject.Names target rule.field ∧
          entry = (rule.aggregate.word, .string target) := by
  obtain ⟨word, target⟩ := entry
  cases haggregate : Aggregate.ofWord? word with
  | none =>
    apply (Realizes.throw _).of_iff
    intro rule
    have hword : word ≠ rule.aggregate.word := by
      intro h
      rw [Aggregate.ofWord?_eq_some_iff.2 h] at haggregate
      cases haggregate
    simp [hword]
  | some aggregate =>
    obtain rfl := Aggregate.ofWord?_eq_some_iff.1 haggregate
    cases target with
    | string target =>
      apply ((fieldKey_realizes target).bind fun field =>
        Realizes.unless_bind (Realizes.pure (ApplyRule.mk key aggregate field))).of_iff
      intro rule
      constructor
      · intro h
        rcases h with ⟨field, hnames, hnumeric, rfl⟩
        exact ⟨rfl, Aggregate.accepts_iff.1 hnumeric, target, hnames, rfl⟩
      · intro h
        rcases h with ⟨rfl, hnumeric, _, hnames, heq⟩
        simp only [Prod.mk.injEq, Json.string.injEq] at heq
        obtain ⟨hword, rfl⟩ := heq
        have haggregate : aggregate = rule.aggregate := by
          rw [← Aggregate.ofWord?_eq_some_iff, Aggregate.ofWord?_eq_some_iff.2 rfl] at hword
          exact Option.some.inj hword
        subst haggregate
        exact ⟨rule.field, hnames, Aggregate.accepts_iff.2 hnumeric, rfl⟩
    | _ => exact (Realizes.throw _).of_iff (by simp)

theorem applyRule_realizes (taken : List String) (j : Json) :
    Realizes subject (applyRule taken j) fun rule =>
      rule.Written subject j ∧ rule.key ∉ taken := by
  apply ((member_realizes _ j).bind fun entry => (applyKey_realizes taken entry.1).bind fun _ =>
    (member_realizes _ entry.2).bind fun body => ruleBody_realizes entry.1 body).of_iff
  intro rule
  constructor
  · intro h
    rcases h with ⟨⟨key, _⟩, rfl, _, ⟨hne, hdelimiter, htaken⟩, body, rfl, rfl, hnumeric, target,
      hnames, rfl⟩
    exact ⟨⟨hne, hdelimiter, hnumeric, target, hnames, rfl⟩, htaken⟩
  · intro h
    rcases h with ⟨⟨hne, hdelimiter, hnumeric, target, hnames, rfl⟩, htaken⟩
    exact ⟨_, rfl, (), ⟨hne, hdelimiter, htaken⟩, _, rfl, rfl, hnumeric, target, hnames, rfl⟩

theorem applyRules_realizes (taken : List String) (items : List Json) :
    Realizes subject (applyRules taken items) fun rules =>
      List.Forall₂ (ApplyRule.Written subject) rules items ∧
        (∀ rule ∈ rules, rule.key ∉ taken) ∧ (rules.map ApplyRule.key).Nodup := by
  induction items generalizing taken with
  | nil =>
    apply (Realizes.pure []).of_iff
    intro rules
    simp +contextual [eq_comm]
  | cons j items ih =>
    apply ((applyRule_realizes taken j).bind fun rule => (ih (rule.key :: taken)).bind
      fun rules => Realizes.pure (rule :: rules)).of_iff
    intro rules
    rw [List.forall₂_cons_right_iff]
    constructor
    · intro h
      rcases h with ⟨rule, ⟨hrule, htaken⟩, rest, ⟨hrest, hfresh, hnodup⟩, rfl⟩
      simp only [List.mem_cons, not_or] at hfresh
      refine ⟨⟨rule, rest, hrule, hrest, rfl⟩, ?_, ?_⟩
      · intro other hother
        rcases List.mem_cons.1 hother with rfl | hother
        · exact htaken
        · exact (hfresh other hother).2
      · rw [List.map_cons, List.nodup_cons]
        refine ⟨?_, hnodup⟩
        intro hmem
        obtain ⟨other, hother, heq⟩ := List.mem_map.1 hmem
        exact (hfresh other hother).1 heq
    · intro h
      rcases h with ⟨⟨rule, rest, hrule, hrest, rfl⟩, htaken, hnodup⟩
      rw [List.map_cons, List.nodup_cons] at hnodup
      refine ⟨rule, ⟨hrule, htaken rule List.mem_cons_self⟩, rest, ⟨hrest, ?_, hnodup.2⟩, rfl⟩
      intro other hother hmem
      rcases List.mem_cons.1 hmem with heq | hmem
      · exact hnodup.1 (heq ▸ List.mem_map_of_mem hother)
      · exact htaken other (List.mem_cons_of_mem rule hother) hmem

end Check

theorem Subject.Names.delimiter_mem {subject : Subject} {key : String} {field : Field}
    (hnames : subject.Names key field) : delimiter ∈ key.toList := by
  rw [hnames.key_eq]
  simp [delimiter]

/-- Keys of fields have an underscore, and keys of computed values have none. -/
theorem key_not_mem_of_names {subject : Subject} {group : List GroupKey}
    (hnames : ∀ g ∈ group, subject.Names g.key g.field) {rules : List ApplyRule}
    {items : List Json} (hrules : List.Forall₂ (ApplyRule.Written subject) rules items) :
    ∀ rule ∈ rules, rule.key ∉ group.map GroupKey.key := by
  intro rule hrule hmem
  obtain ⟨g, hg, heq⟩ := List.mem_map.1 hmem
  obtain ⟨j, -, hj⟩ := Outcome.exists_of_forall₂_of_mem hrules.flip hrule
  exact hj.no_delimiter (heq ▸ (hnames g hg).delimiter_mem)

namespace Check

variable {subject : Subject}

/-- The rules of a grouping, beside the keys that are already grouped by. -/
theorem rules_realizes (keys : List GroupKey) (j : Json) :
    Realizes subject
      (match j with
        | .array rules => do return Transform.mk keys (← applyRules (keys.map (·.key)) rules)
        | _ => throw (.notArray .apply))
      fun t => t.group = keys ∧ ∃ items, j = .array items ∧
        List.Forall₂ (ApplyRule.Written subject) t.apply items ∧
          (∀ rule ∈ t.apply, rule.key ∉ keys.map GroupKey.key) ∧
          (t.apply.map ApplyRule.key).Nodup := by
  cases j with
  | array items =>
    apply ((applyRules_realizes (keys.map GroupKey.key) items).bind fun rules =>
      Realizes.pure (Transform.mk keys rules)).of_iff
    intro t
    constructor
    · intro h
      rcases h with ⟨rules, ⟨hrules, hfresh, hnodup⟩, rfl⟩
      exact ⟨rfl, items, rfl, hrules, hfresh, hnodup⟩
    · intro h
      rcases h with ⟨rfl, _, heq, hrules, hfresh, hnodup⟩
      cases heq
      exact ⟨t.apply, ⟨hrules, hfresh, hnodup⟩, rfl⟩
  | _ => exact (Realizes.throw _).of_iff (by simp)

theorem transformations_realizes (j : Json) :
    Realizes subject (transformations j) fun t =>
      ∃ entries, j = .object entries ∧ t.Written subject entries := by
  unfold transformations
  refine (Realizes.bind (S := fun entries t => t.Written subject entries)
    (members_realizes .transformations j) fun entries => ?_).of_iff fun t => Iff.rfl
  cases hgroup : Json.get? "GROUP" entries with
  | none =>
    refine (Realizes.throw _).of_iff fun t => ⟨False.elim, fun ht => ?_⟩
    cases hgroup.symm.trans ht.group
  | some group =>
    cases happly : Json.get? "APPLY" entries with
    | none =>
      refine (Realizes.throw _).of_iff fun t => ⟨False.elim, fun ht => ?_⟩
      obtain ⟨_, hrules, -⟩ := ht.apply
      cases happly.symm.trans hrules
    | some apply =>
      refine (Realizes.unless_bind ((groupKeys_realizes group).bind fun keys =>
        rules_realizes keys apply)).of_iff ?_
      intro t
      constructor
      · intro h
        rcases h with ⟨hlength, _, ⟨rfl, hne, hnames⟩, rfl, items, rfl, hrules, -, hnodup⟩
        exact ⟨of_not_not hlength, hgroup, hne, hnames, ⟨items, happly, hrules⟩, hnodup⟩
      · intro h
        rcases h with ⟨hlength, heq, hne, hnames, ⟨items, heq', hrules⟩, hnodup⟩
        cases hgroup.symm.trans heq
        cases happly.symm.trans heq'
        exact ⟨not_not_intro hlength, t.group, ⟨rfl, hne, hnames⟩, rfl, items, rfl, hrules,
            key_not_mem_of_names hnames hrules, hnodup⟩

end Check

end CampusQuery
