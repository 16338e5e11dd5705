import CampusQuery.Proofs.Outcome
import CampusQuery.Proofs.Query.Validation
/-!
The faults that are found.

A query that names no dataset would be at fault. But a value that is walked through has columns,
and the keys of fields behind them have settled a dataset: some other fault always comes first.
-/

namespace CampusQuery

namespace Check

variable {α β : Type} {m : Check α} {k : α → Check β}

/-- The step does not fail for want of a dataset, wherever it starts. -/
def Addressed (m : Check α) : Prop :=
  ∀ settled, Outcome.FailsOnly (· ≠ .noDataset) (m settled)

namespace Addressed

theorem pure (a : α) : Addressed (pure a) :=
  fun settled => Outcome.FailsOnly.ok (a, settled)

theorem throw {fault : QueryFault} (h : fault ≠ .noDataset) : Addressed (throw fault : Check α) :=
  fun _ => Outcome.FailsOnly.error h

theorem bind (hm : Addressed m) (hk : ∀ a, Addressed (k a)) : Addressed (m >>= k) :=
  fun settled => (hm settled).bind fun p => hk p.1 p.2

theorem mapM {f : β → Check α} (hf : ∀ b, Addressed (f b)) (l : List β) :
    Addressed (l.mapM f) := by
  induction l with
  | nil => exact pure []
  | cons b l ih =>
    rw [List.mapM_cons]
    exact (hf b).bind fun a => ih.bind fun as => pure (a :: as)

theorem option_mapM {f : β → Check α} (hf : ∀ b, Addressed (f b)) (o : Option β) :
    Addressed (o.mapM f) := by
  cases o with
  | none => exact pure none
  | some b => exact (hf b).bind fun a => pure (some a)

end Addressed

/-- A condition that has to fail for the walk to go on. -/
theorem Addressed.unless {c : Prop} [Decidable c] {fault : QueryFault} (h : fault ≠ .noDataset)
    (hm : Addressed m) : Addressed (if c then MonadExcept.throw fault else m) := by
  split_ifs
  · exact .throw h
  · exact hm

@[inherit_doc Addressed.unless]
theorem Addressed.unless_bind {c : Prop} [Decidable c] {fault : QueryFault} {k : β → Check α}
    (h : fault ≠ .noDataset) (hm : Addressed m) :
    Addressed (if c then (MonadExcept.throw fault : Check β) >>= k else m) :=
  .unless h hm

theorem fieldKey_addressed (key : String) : Addressed (fieldKey key) := by
  unfold fieldKey
  split
  · refine .unless_bind (by simp) ?_
    split
    · refine .bind (fun settled => Outcome.FailsOnly.ok _) fun settled => ?_
      split
      · exact .bind (fun settled => Outcome.FailsOnly.ok _) fun _ => .pure _
      · exact .unless_bind (by simp) (.unless_bind (by simp) (.pure _))
    · exact .throw (by simp)
  · exact .throw (by simp)

/-! ### Shapes -/

theorem members_addressed (part : QueryPart) (j : Json) : Addressed (members part j) := by
  unfold members
  split
  · exact .pure _
  · exact .throw (by simp)

theorem member_addressed (part : QueryPart) (j : Json) : Addressed (member part j) := by
  refine (members_addressed part j).bind fun entries => ?_
  split
  · exact .pure _
  · exact .throw (by simp)

theorem someItems_addressed (part : QueryPart) (j : Json) : Addressed (someItems part j) := by
  unfold someItems
  split
  · exact .throw (by simp)
  · exact .pure _
  · exact .throw (by simp)

theorem someTexts_addressed (part : QueryPart) (j : Json) : Addressed (someTexts part j) := by
  refine (someItems_addressed part j).bind fun items => .mapM (fun item => ?_) items
  split
  · exact .pure _
  · exact .throw (by simp)

/-! ### Conditions -/

theorem comparison_addressed (op : Comparator) (body : Json) : Addressed (comparison op body) := by
  refine (member_addressed _ body).bind fun entry => (fieldKey_addressed entry.1).bind
    fun field => .unless_bind (by simp) ?_
  split
  · exact .pure _
  · exact .throw (by simp)

theorem textMatch_addressed (body : Json) : Addressed (textMatch body) := by
  refine (member_addressed _ body).bind fun entry => (fieldKey_addressed entry.1).bind
    fun field => .unless_bind (by simp) ?_
  split
  · split
    · exact .pure _
    · exact .throw (by simp)
  · exact .throw (by simp)

mutual
theorem filter_addressed : (j : Json) → Addressed (filter j)
  | .object [(key, body)] => by
    have hparts (part : QueryPart) := branches_addressed part body
    have hpart := filter_addressed body
    rw [filter]
    split_ifs
    · exact (hparts .conjunction).bind fun _ => .pure _
    · exact (hparts .disjunction).bind fun _ => .pure _
    · exact hpart.bind fun _ => .pure _
    · exact comparison_addressed .lt body
    · exact comparison_addressed .gt body
    · exact comparison_addressed .eq body
    · exact textMatch_addressed body
    · exact .throw (by simp)
  | .object [] | .object (_ :: _ :: _) | .null | .bool _ | .number _ | .string _ | .array _ => by
    simp only [filter]
    exact .throw (by simp)

theorem branches_addressed (part : QueryPart) : (j : Json) → Addressed (branches part j)
  | .array (j :: items) => by
    simp only [branches]
    exact filters_addressed (j :: items)
  | .array [] | .null | .bool _ | .number _ | .string _ | .object _ => by
    simp only [branches]
    exact .throw (by simp)

theorem filters_addressed : (items : List Json) → Addressed (filters items)
  | [] => by
    rw [filters]
    exact .pure []
  | j :: items => by
    have hj := filter_addressed j
    have hitems := filters_addressed items
    rw [filters]
    exact hj.bind fun f => hitems.bind fun parts => .pure (f :: parts)
end

theorem condition_addressed (j : Json) : Addressed (condition j) := by
  unfold condition
  split
  · exact .pure _
  · exact filter_addressed _
  · exact .throw (by simp)

/-! ### Grouping -/

theorem groupKeys_addressed (j : Json) : Addressed (groupKeys j) :=
  (someTexts_addressed .group j).bind fun keys =>
    .mapM (fun key => (fieldKey_addressed key).bind fun _ => .pure _) keys

theorem applyKey_addressed (taken : List String) (key : String) : Addressed (applyKey taken key) :=
  .unless_bind (by simp) (.unless_bind (by simp) (.unless (by simp) (.pure ())))

theorem applyRule_addressed (taken : List String) (rule : Json) :
    Addressed (applyRule taken rule) := by
  refine (member_addressed _ rule).bind fun entry => (applyKey_addressed taken entry.1).bind
    fun _ => (member_addressed _ entry.2).bind fun body => ?_
  obtain ⟨word, target⟩ := body
  dsimp only
  split
  · split
    · exact (fieldKey_addressed _).bind fun _ => .unless_bind (by simp) (.pure _)
    · exact .throw (by simp)
  · exact .throw (by simp)

theorem applyRules_addressed (taken : List String) (items : List Json) :
    Addressed (applyRules taken items) := by
  induction items generalizing taken with
  | nil => exact .pure []
  | cons j items ih =>
    exact (applyRule_addressed taken j).bind fun rule => (ih (rule.key :: taken)).bind
      fun rules => .pure (rule :: rules)

theorem transformations_addressed (j : Json) : Addressed (transformations j) := by
  refine (members_addressed _ j).bind fun entries => ?_
  split
  · split
    · refine .unless_bind (by simp) ((groupKeys_addressed _).bind fun group => ?_)
      split
      · exact (applyRules_addressed _ _).bind fun _ => .pure _
      · exact .throw (by simp)
    · exact .throw (by simp)
  · exact .throw (by simp)

/-! ### Columns -/

theorem column_addressed (transform : Option Transform) (key : String) :
    Addressed (column transform key) := by
  unfold column groupedColumn
  split
  · split
    · exact .pure _
    · split_ifs
      · exact .pure _
      · exact .throw (by simp)
  · exact (fieldKey_addressed key).bind fun _ => .pure _

theorem orderKey_addressed (columns : List Column) (key : String) :
    Addressed (orderKey columns key) := by
  unfold orderKey
  split_ifs
  · exact .pure key
  · exact .throw (by simp)

theorem direction_addressed (j : Json) : Addressed (direction j) := by
  unfold direction
  split
  · exact .pure _
  · exact .pure _
  · exact .throw (by simp)

theorem sortOrder_addressed (columns : List Column) (j : Json) :
    Addressed (sortOrder columns j) := by
  unfold sortOrder
  split
  · exact (orderKey_addressed columns _).bind fun _ => .pure _
  · dsimp only
    split
    · split
      · exact .unless_bind (by simp) ((direction_addressed _).bind fun direction =>
          (someTexts_addressed _ _).bind fun keys =>
            (Addressed.mapM (orderKey_addressed columns) keys).bind fun keys => .pure _)
      · exact .throw (by simp)
    · exact .throw (by simp)
  · exact .throw (by simp)

theorem options_addressed (transform : Option Transform) (j : Json) :
    Addressed (options transform j) := by
  refine (members_addressed _ j).bind fun entries => ?_
  dsimp only
  split
  · exact .throw (by simp)
  · split
    · exact (someTexts_addressed _ _).bind fun keys =>
        (Addressed.mapM (column_addressed transform) keys).bind fun columns =>
          (Addressed.option_mapM (sortOrder_addressed columns) _).bind fun _ => .pure _
    · exact .throw (by simp)

theorem parts_addressed (where_ options_ : Json) (transform_ : Option Json) :
    Addressed (parts where_ options_ transform_) :=
  (condition_addressed where_).bind fun _ =>
    (Addressed.option_mapM transformations_addressed transform_).bind fun transform =>
      (options_addressed transform options_).bind fun _ => .pure _

/-- By the end of the parts a subject is settled, and what is left cannot fail. -/
theorem assembled_failsOnly {where_ options_ : Json} {transform_ : Option Json} :
    Outcome.FailsOnly (· ≠ .noDataset)
      ((parts where_ options_ transform_ >>= assembled) none) := by
  intro fault h
  change (parts where_ options_ transform_ none >>= fun p => assembled p.1 p.2) = _ at h
  cases hparts : parts where_ options_ transform_ none with
  | error other =>
    rw [hparts] at h
    cases h
    exact parts_addressed where_ options_ transform_ none fault hparts
  | ok p =>
    obtain ⟨a, settled⟩ := p
    obtain ⟨subject, rfl⟩ := parts_settle hparts
    rw [hparts] at h
    cases h

theorem query_failsOnly (j : Json) : Outcome.FailsOnly (· ≠ .noDataset) (query j none) := by
  cases j with
  | object entries =>
    rcases query_object_cases entries with ⟨fault, hne, hfault⟩ |
      ⟨honly, where_, options_, hwhere, hoptions⟩
    · rw [hfault]
      exact .error hne
    · rw [query_object_eq honly hwhere hoptions]
      exact assembled_failsOnly
  | _ => exact .error (by simp)

end Check

namespace Query

theorem ofJson_ne_noDataset (j : Json) : ofJson j ≠ .error .noDataset := by
  have h : Outcome.FailsOnly (· ≠ .noDataset) (ofJson j) := (Check.query_failsOnly j).map Prod.fst
  exact fun hj => h _ hj rfl

end Query

/-! ### Wordings -/

section

variable {a s : String} (h : ¬ a.toList <+: s.toList)
include h

/-- A text that starts otherwise is another text. -/
theorem append_ne (b : String) : a ++ b ≠ s := by
  rintro rfl
  exact h (by simp)

theorem append_two_ne (b c : String) : a ++ b ++ c ≠ s := by
  rw [String.append_assoc]
  exact append_ne h _

theorem append_four_ne (b c d e : String) : a ++ b ++ c ++ d ++ e ≠ s := by
  have hpieces : a ++ b ++ c ++ d ++ e = a ++ b ++ (c ++ d ++ e) := by
    simp only [String.append_assoc]
  rw [hpieces]
  exact append_two_ne h _ _

end

theorem QueryPart.not_prefix_of_ne {part : QueryPart} (h : part ≠ .query) :
    ¬ part.name.toList <+: "query references no dataset".toList := by
  cases part with
  | query => exact absurd rfl h
  | comparison op => cases op <;> decide
  | _ => decide

/-- No other fault is said in the same words. -/
theorem QueryFault.eq_noDataset_of_message {fault : QueryFault}
    (h : fault.message = "query references no dataset") : fault = .noDataset := by
  cases fault with
  | noDataset => rfl
  | notObject part | notArray part | emptyArray part | entryNotText part =>
    -- A fault of the query as a whole starts in the same word, so its full wording is compared.
    by_cases hpart : part = .query
    · subst hpart
      exact absurd h (by decide)
    · exact absurd h (append_ne (QueryPart.not_prefix_of_ne hpart) _)
  | memberCount part count =>
    by_cases hpart : part = .query
    · subst hpart
      exact absurd h (append_ne (by decide) _)
    · exact absurd h (append_two_ne (QueryPart.not_prefix_of_ne hpart) _ _)
  | missing part => exact absurd h (append_ne (by decide) _)
  | comparandNotNumber op => cases op <;> exact absurd h (by decide)
  | comparisonOfText op _ => cases op <;> exact absurd h (append_two_ne (by decide) _ _)
  | aggregateOfText aggregate _ =>
    cases aggregate <;> exact absurd h (append_two_ne (by decide) _ _)
  | patternNotText | transformationsMembers | emptyApplyKey | targetNotText | orderShape
  | orderMembers | orderDirection => exact absurd h (by decide)
  | secondDataset _ _ | foreignField _ _ | delimiterInApplyKey _ =>
    exact absurd h (append_four_ne (by decide) _ _ _ _)
  | _ => exact absurd h (append_two_ne (by decide) _ _)

end CampusQuery
