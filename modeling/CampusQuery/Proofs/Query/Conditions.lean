import CampusQuery.Proofs.Query.Keys
/-!
The conditions that the walk accepts are those that are written, by induction on the value.
-/

namespace CampusQuery

namespace Pattern

theorem written_of_ofText? {s : String} {p : Pattern} (h : ofText? s = some p) : p.Written s := by
  unfold ofText? at h
  by_cases hlead : s.toList.head? = some '*'
  · obtain ⟨rest, hs⟩ := List.head?_eq_some_iff.1 hlead
    by_cases htrail : rest.getLast? = some '*'
    · obtain ⟨core, rfl⟩ := List.getLast?_eq_some_iff.1 htrail
      simp [hs] at h
      obtain ⟨hplain, rfl⟩ := h
      refine ⟨by simpa [Plain] using hplain, .inl ?_⟩
      simp [← String.toList_inj, hs]
    · simp [hs, htrail] at h
      obtain ⟨hplain, h⟩ := h
      split at h
      · next hcore =>
        cases h
        subst hcore
        refine ⟨by simp [Plain], .inr ⟨rfl, ?_⟩⟩
        simp [← String.toList_inj, hs]
      · next hcore =>
        cases h
        refine ⟨by simpa [Plain] using hplain, by simpa using hcore, ?_⟩
        simp [← String.toList_inj, hs]
  · by_cases htrail : s.toList.getLast? = some '*'
    · obtain ⟨core, hs⟩ := List.getLast?_eq_some_iff.1 htrail
      have hcore : core ≠ [] := by
        rintro rfl
        simp [hs] at hlead
      simp [hs] at h hlead
      simp [hlead, hcore] at h
      obtain ⟨hplain, rfl⟩ := h
      refine ⟨by simpa [Plain] using hplain, by simpa using hcore, ?_⟩
      simp [← String.toList_inj, hs]
    · simp [hlead, htrail] at h
      obtain ⟨hplain, rfl⟩ := h
      exact ⟨hplain, rfl⟩

theorem ofText?_of_written {s : String} {p : Pattern} (h : p.Written s) : ofText? s = some p := by
  have hhead {text : String} (hplain : Plain text) : text.toList.head? ≠ some '*' :=
    fun heq => hplain (List.mem_of_head? heq)
  have hlast {text : String} (hplain : Plain text) : text.toList.getLast? ≠ some '*' :=
    fun heq => hplain (List.mem_of_getLast? heq)
  cases p with
  | exactly text =>
    obtain ⟨hplain, rfl⟩ := h
    have hmem : '*' ∉ s.toList := hplain
    simp [ofText?, hhead hplain, hlast hplain, hmem]
  | startsWith text =>
    obtain ⟨hplain, hne, rfl⟩ := h
    have hmem : '*' ∉ text.toList := hplain
    have hfirst : (text.toList ++ ['*']).head? ≠ some '*' := by
      rw [List.head?_append_of_ne_nil _ (by simpa using hne)]
      exact hhead hplain
    simp only [List.head?_append, List.head?_singleton, Option.or_some] at hfirst
    simp [ofText?, hfirst, hne, hmem]
  | endsWith text =>
    obtain ⟨hplain, hne, rfl⟩ := h
    have hmem : '*' ∉ text.toList := hplain
    simp [ofText?, hlast hplain, hne, hmem]
  | contains text =>
    obtain ⟨hplain, rfl | ⟨rfl, rfl⟩⟩ := h
    · have hmem : '*' ∉ text.toList := hplain
      simp [ofText?, hmem]
    · rfl

theorem ofText?_eq_some_iff {s : String} {p : Pattern} : ofText? s = some p ↔ p.Written s :=
  ⟨written_of_ofText?, ofText?_of_written⟩

end Pattern

namespace Check

variable {subject : Subject}

theorem comparand_realizes (op : Comparator) (field : Field) (value : Json) :
    Realizes subject
      (match value with
        | .number n => (pure (.compare op field n.toDouble) : Check Filter)
        | _ => throw (.comparandNotNumber op))
      fun f => ∃ n, value = .number n ∧ f = .compare op field n.toDouble := by
  cases value with
  | number n => exact (Realizes.pure _).of_iff (by simp [eq_comm])
  | _ => exact (Realizes.throw _).of_iff (by simp)

theorem comparison_realizes (op : Comparator) (body : Json) :
    Realizes subject (comparison op body) fun f =>
      ∃ key field n, body = .object [(key, .number n)] ∧ subject.Names key field ∧
        field.isNumeric = true ∧ f = .compare op field n.toDouble := by
  apply ((member_realizes _ body).bind fun entry => (fieldKey_realizes entry.1).bind
    fun field => (comparand_realizes op field entry.2).unless_bind).of_iff
  intro f
  constructor
  · intro h
    rcases h with ⟨⟨key, _⟩, rfl, field, hnames, hnumeric, n, rfl, rfl⟩
    exact ⟨key, field, n, rfl, hnames, by simpa using hnumeric, rfl⟩
  · intro h
    rcases h with ⟨key, field, n, rfl, hnames, hnumeric, rfl⟩
    exact ⟨(key, .number n), rfl, field, hnames, by simpa using hnumeric, n, rfl, rfl⟩

theorem pattern_realizes (field : Field) (value : Json) :
    Realizes subject
      (match value with
        | .string s =>
          match Pattern.ofText? s with
          | some pattern => (pure (.is field pattern) : Check Filter)
          | _ => throw (.strayAsterisk s)
        | _ => throw .patternNotText)
      fun f => ∃ s pattern, value = .string s ∧ pattern.Written s ∧ f = .is field pattern := by
  cases value with
  | string s =>
    simp only [Json.string.injEq, ← Pattern.ofText?_eq_some_iff]
    cases hpattern : Pattern.ofText? s with
    | some pattern => exact (Realizes.pure _).of_iff (by simp [hpattern, eq_comm])
    | none => exact (Realizes.throw _).of_iff (by simp [hpattern])
  | _ => exact (Realizes.throw _).of_iff (by simp)

theorem textMatch_realizes (body : Json) :
    Realizes subject (textMatch body) fun f =>
      ∃ key field s pattern, body = .object [(key, .string s)] ∧ subject.Names key field ∧
        field.isNumeric = false ∧ pattern.Written s ∧ f = .is field pattern := by
  apply ((member_realizes _ body).bind fun entry => (fieldKey_realizes entry.1).bind
    fun field => (pattern_realizes field entry.2).unless_bind).of_iff
  intro f
  constructor
  · intro h
    rcases h with ⟨⟨key, _⟩, rfl, field, hnames, hnumeric, s, pattern, rfl, hwritten, rfl⟩
    exact ⟨key, field, s, pattern, rfl, hnames, by simpa using hnumeric, hwritten, rfl⟩
  · intro h
    rcases h with ⟨key, field, s, pattern, rfl, hnames, hnumeric, hwritten, rfl⟩
    exact ⟨(key, .string s), rfl, field, hnames, by simpa using hnumeric, s, pattern, rfl,
      hwritten, rfl⟩

theorem comparison_realizes_written (op : Comparator) (body : Json) :
    Realizes subject (comparison op body) fun f =>
      f.Written subject (.object [(op.word, body)]) := by
  apply (comparison_realizes op body).of_iff
  intro f
  cases f with
  | compare op' field value =>
    cases op <;> cases op' <;> simp [Filter.Written, Comparator.word]
  | _ => cases op <;> simp [Filter.Written, Comparator.word]

theorem textMatch_realizes_written (body : Json) :
    Realizes subject (textMatch body) fun f => f.Written subject (.object [("IS", body)]) := by
  apply (textMatch_realizes body).of_iff
  intro f
  cases f with
  | is field pattern =>
    simp [Filter.Written]
  | compare op field value => cases op <;> simp [Filter.Written, Comparator.word]
  | _ => simp [Filter.Written]

/-- The nodes whose body is a list of conditions. -/
theorem connective_realizes {body : Json} {m : Check (List Filter)}
    (hm : Realizes subject m fun parts =>
      ∃ items, body = .array items ∧ items ≠ [] ∧ Filter.WrittenEach subject parts items) :
    Realizes subject (do return Filter.and (← m))
        (fun f => f.Written subject (.object [("AND", body)])) ∧
      Realizes subject (do return Filter.or (← m))
        fun f => f.Written subject (.object [("OR", body)]) := by
  constructor
  · apply (hm.bind fun parts => Realizes.pure (Filter.and parts)).of_iff
    intro f
    cases f with
    | compare op field value => cases op <;> simp [Filter.Written, Comparator.word]
    | _ => simp [Filter.Written]
  · apply (hm.bind fun parts => Realizes.pure (Filter.or parts)).of_iff
    intro f
    cases f with
    | compare op field value => cases op <;> simp [Filter.Written, Comparator.word]
    | _ => simp [Filter.Written]

theorem negation_realizes {body : Json} {m : Check Filter}
    (hm : Realizes subject m fun f => f.Written subject body) :
    Realizes subject (do return Filter.not (← m))
      fun f => f.Written subject (.object [("NOT", body)]) := by
  apply (hm.bind fun part => Realizes.pure (Filter.not part)).of_iff
  intro f
  cases f with
  | compare op field value => cases op <;> simp [Filter.Written, Comparator.word]
  | _ => simp [Filter.Written]

theorem unknown_realizes {key : String} {body : Json}
    (hkey : key ∉ ["AND", "OR", "NOT", "LT", "GT", "EQ", "IS"]) (fault : QueryFault) :
    Realizes subject (throw fault : Check Filter) fun f =>
      f.Written subject (.object [(key, body)]) := by
  apply (Realizes.throw fault).of_iff
  intro f
  simp only [List.mem_cons, not_or] at hkey
  cases f with
  | compare op field value => cases op <;> simp [Filter.Written, Comparator.word, hkey]
  | _ => simp [Filter.Written, hkey]

mutual
theorem filter_realizes : (j : Json) → Realizes subject (filter j) fun f => f.Written subject j
  | .object [(key, body)] => by
    have hand := connective_realizes (branches_realizes .conjunction body)
    have hor := connective_realizes (branches_realizes .disjunction body)
    have hnot := negation_realizes (filter_realizes body)
    rw [filter]
    split_ifs
    · subst key
      exact hand.1
    · subst key
      exact hor.2
    · subst key
      exact hnot
    · subst key
      exact comparison_realizes_written .lt body
    · subst key
      exact comparison_realizes_written .gt body
    · subst key
      exact comparison_realizes_written .eq body
    · subst key
      exact textMatch_realizes_written body
    · exact unknown_realizes (by simp [*]) _
  | .object [] => by
    simp only [filter]
    apply (Realizes.throw _).of_iff
    intro f
    cases f <;> simp [Filter.Written]
  | .object (_ :: _ :: _) => by
    simp only [filter]
    apply (Realizes.throw _).of_iff
    intro f
    cases f <;> simp [Filter.Written]
  | .null | .bool _ | .number _ | .string _ | .array _ => by
    simp only [filter]
    apply (Realizes.throw _).of_iff
    intro f
    cases f <;> simp [Filter.Written]

theorem branches_realizes (part : QueryPart) : (j : Json) →
    Realizes subject (branches part j) fun parts =>
      ∃ items, j = .array items ∧ items ≠ [] ∧ Filter.WrittenEach subject parts items
  | .array [] => by
    simp only [branches]
    exact (Realizes.throw _).of_iff (by simp)
  | .array (j :: items) => by
    simp only [branches]
    exact (filters_realizes (j :: items)).of_iff (by simp)
  | .null | .bool _ | .number _ | .string _ | .object _ => by
    simp only [branches]
    exact (Realizes.throw _).of_iff (by simp)

theorem filters_realizes : (items : List Json) →
    Realizes subject (filters items) fun parts => Filter.WrittenEach subject parts items
  | [] => by
    rw [filters]
    apply (Realizes.pure []).of_iff
    intro parts
    cases parts <;> simp [Filter.WrittenEach]
  | j :: items => by
    have hj := filter_realizes j
    have hitems := filters_realizes items
    rw [filters]
    refine (hj.bind fun f => hitems.bind fun parts => Realizes.pure (f :: parts)).of_iff ?_
    intro parts
    cases parts <;> simp [Filter.WrittenEach]
end

theorem condition_realizes (j : Json) :
    Realizes subject (condition j) fun f => f.WrittenWhole subject j := by
  cases j with
  | object entries =>
    cases entries with
    | nil =>
      apply (Realizes.pure Filter.all).of_iff
      intro f
      cases f <;> simp [Filter.WrittenWhole, Filter.Written]
    | cons entry entries =>
      exact (filter_realizes (.object (entry :: entries))).of_iff (by simp [Filter.WrittenWhole])
  | _ =>
    apply (Realizes.throw _).of_iff
    intro f
    cases f <;> simp [Filter.WrittenWhole, Filter.Written]

end Check

end CampusQuery
