import CampusQuery.Json.Outline
import CampusQuery.Proofs.Decimal
/-!
The numbers of a text are finite.

A literal that no finite double is near to has no value. So whatever the text is, every number that
is read from it is a whole number of at most sixty-four bits or a finite double; the tokens, the
outline that they spell and the value of the outline only pass it on.
-/

namespace CampusQuery

/-- A number that a text can have. -/
def Number.Readable : Number → Prop
  | .integer n => -0x8000000000000000 ≤ n ∧ n < 0x10000000000000000
  | .double x => x.isFinite = true

theorem Number.Readable.isFinite_toDouble {n : Number} (h : n.Readable) :
    n.toDouble.isFinite = true := by
  cases n with
  | integer n =>
    obtain ⟨hlow, hhigh⟩ := h
    exact Double.isFinite_ofInt (by omega)
  | double x => exact h

namespace Json

/-- A token whose number, if it has one, is readable. -/
def Token.Readable : Token → Prop
  | .number (some n) => n.Readable
  | _ => True

theorem Numeral.readable_of_finite? {x : Double} {n : Number} (h : finite? x = some n) :
    n.Readable := by
  unfold finite? at h
  split_ifs at h with hx
  cases h
  exact hx

theorem Numeral.readable_of_wholeValue {negative : Bool} {significand : UInt64} {n : Number}
    (h : wholeValue negative significand = some n) : n.Readable := by
  have hsize := significand.toNat_lt
  unfold wholeValue at h
  split_ifs at h with _ _ hle
  · cases h
    exact rfl
  · cases h
    have hle : significand.toNat ≤ 0x8000000000000000 := hle
    simp only [Number.Readable]
    omega
  · exact readable_of_finite? h
  · cases h
    simp only [Number.Readable]
    omega

theorem Numeral.readable_token (n : Numeral) : n.token.Readable := by
  have hoption {o : Option Number} (h : ∀ n, o = some n → n.Readable) :
      (Token.number o).Readable := by
    cases o with
    | none => trivial
    | some n => exact h n rfl
  have hwhole : (Token.number
      (if n.full then n.doubleValue else wholeValue n.negative n.significand)).Readable := by
    split_ifs
    · exact hoption fun _ => readable_of_finite?
    · exact hoption fun _ => readable_of_wholeValue
  unfold token
  split
  · exact hwhole
  · exact hwhole
  · exact hoption fun _ => readable_of_finite?
  · exact hoption fun _ => readable_of_finite?
  · trivial

namespace Scan

/-- The tokens of one character. -/
def marks : List Token :=
  [.openArray, .closeArray, .openObject, .closeObject, .comma, .colon]

/-- The words, each without its first letter and with its token. -/
def words : List (List Char × Token) :=
  [(['u', 'l', 'l'], .null), (['r', 'u', 'e'], .bool true), (['a', 'l', 's', 'e'], .bool false)]

/-- A character between tokens is white space, or a token by itself, or starts one, or fails. -/
theorem pushBetween_cases {P : Scan → Prop} (s : Scan) (c : Char)
    (hspace : (c = ' ' ∨ c = '\n' ∨ c = '\r' ∨ c = '\t') → P { s with mode := .between })
    (hmark : ∀ t ∈ marks, P (s.emit t)) (hstring : P { s with mode := .string .empty })
    (hword : ∀ word ∈ words, P { s with mode := .word word.1 word.2 })
    (hnumber : ∀ n, P { s with mode := .number n }) (hfail : P (s.fail false)) :
    P (s.pushBetween (.char c)) := by
  simp only [marks, words, List.forall_mem_cons, List.not_mem_nil, false_imp_iff, implies_true,
    and_true] at hmark hword
  obtain ⟨hopenArray, hcloseArray, hopenObject, hcloseObject, hcomma, hcolon⟩ := hmark
  obtain ⟨hnull, htrue, hfalse⟩ := hword
  unfold pushBetween
  refine iteInduction hspace fun _ => ?_
  refine iteInduction (fun _ => hopenArray) fun _ => ?_
  refine iteInduction (fun _ => hcloseArray) fun _ => ?_
  refine iteInduction (fun _ => hopenObject) fun _ => ?_
  refine iteInduction (fun _ => hcloseObject) fun _ => ?_
  refine iteInduction (fun _ => hcomma) fun _ => ?_
  refine iteInduction (fun _ => hcolon) fun _ => ?_
  refine iteInduction (fun _ => hstring) fun _ => ?_
  refine iteInduction (fun _ => hnull) fun _ => ?_
  refine iteInduction (fun _ => htrue) fun _ => ?_
  refine iteInduction (fun _ => hfalse) fun _ => ?_
  cases Numeral.start? c with
  | none => exact hfail
  | some n => exact hnumber n

/-- What holds of all tokens that are there before a text is over: of marks, words and strings, of
numbers that something comes behind, and of what cannot go on. -/
structure Emits (P : Token → Prop) : Prop where
  mark : ∀ t ∈ marks, P t
  word : ∀ word ∈ words, P word.2
  number : ∀ (n : Numeral) (c : Char), n.push c = .over → P n.token
  string : ∀ value, P (.string value)
  broken : ∀ inString, P (.broken inString .malformed)

/-- All tokens so far have the property, and so has the one that a word is for. -/
structure Every (P : Token → Prop) (s : Scan) : Prop where
  tokens : ∀ t ∈ s.tokens, P t
  word : ∀ rest token, s.mode = .word rest token → P token

namespace Every

variable {P : Token → Prop} {s : Scan}

theorem start : Scan.start.Every P :=
  ⟨by simp [Scan.start], by simp [Scan.start]⟩

theorem emit (h : s.Every P) {t : Token} (ht : P t) : (s.emit t).Every P :=
  ⟨by simpa [Scan.emit, ht] using h.tokens, by simp [Scan.emit]⟩

theorem between (h : s.Every P) : Every P { s with mode := .between } :=
  ⟨h.tokens, by simp⟩

theorem inWord (h : s.Every P) {t : Token} (ht : P t) (rest : List Char) :
    Every P { s with mode := .word rest t } := by
  refine ⟨h.tokens, ?_⟩
  rintro _ _ ⟨⟩
  exact ht

theorem inNumber (h : s.Every P) (n : Numeral) : Every P { s with mode := .number n } :=
  ⟨h.tokens, by simp⟩

theorem inString (h : s.Every P) (part : StringPart) :
    Every P { s with mode := .string part } :=
  ⟨h.tokens, by simp⟩

theorem ite {p : Prop} [Decidable p] {s' : Scan} (h : s.Every P) (h' : s'.Every P) :
    (if p then s else s').Every P :=
  iteInduction (fun _ => h) fun _ => h'

theorem fail (hP : Emits P) (h : s.Every P) (inString : Bool) : (s.fail inString).Every P :=
  ⟨by simpa [Scan.fail, hP.broken] using h.tokens, by simp [Scan.fail]⟩

theorem pushBetween (hP : Emits P) (h : s.Every P) (c : Symbol) : (s.pushBetween c).Every P := by
  cases c with
  | stray => exact h.fail hP false
  | char c =>
    exact pushBetween_cases s c (fun _ => h.between) (fun t ht => h.emit (hP.mark t ht))
      (h.inString .empty) (fun word hmem => h.inWord (hP.word word hmem) word.1) h.inNumber
      (h.fail hP false)

theorem push (hP : Emits P) (h : s.Every P) (c : Symbol) : (s.push c).Every P := by
  unfold Scan.push
  split
  · exact h.pushBetween hP c
  · next rest token hmode =>
    have htoken := h.word rest token hmode
    cases rest with
    | nil => exact h.fail hP false
    | cons letter rest =>
      exact (h.fail hP false).ite ((h.emit htoken).ite (h.inWord htoken rest))
  · next n hmode =>
    cases c with
    | stray => exact h.fail hP false
    | char c =>
      simp only
      split
      · exact h.inNumber _
      · next hpush => exact (h.emit (hP.number n c hpush)).pushBetween hP (.char c)
      · exact h.fail hP false
  · next part hmode =>
    cases part.push c with
    | more part => exact h.inString part
    | closed value => exact h.emit (hP.string value)
    | bad => exact h.fail hP true
  · exact h

theorem foldl_push (hP : Emits P) (h : s.Every P) (text : Text) :
    (text.foldl Scan.push s).Every P := by
  induction text generalizing s with
  | nil => exact h
  | cons c text ih => exact ih (h.push hP c)

end Every

theorem emits_readable : Emits Token.Readable where
  mark := by simp [marks, Token.Readable]
  word := by simp [words, Token.Readable]
  number n _ _ := n.readable_token
  string _ := trivial
  broken _ := trivial

theorem Every.of_mem_finish {s : Scan} (h : s.Every Token.Readable) {t : Token}
    (ht : t ∈ s.finish) : t.Readable := by
  unfold finish at ht
  split at ht <;> simp only [List.mem_reverse, List.mem_cons] at ht
  · exact h.tokens t ht
  · exact h.tokens t ht
  · rcases ht with rfl | ht
    · trivial
    · exact h.tokens t ht
  · rcases ht with rfl | ht
    · exact Numeral.readable_token _
    · exact h.tokens t ht
  · rcases ht with rfl | ht
    · trivial
    · exact h.tokens t ht

end Scan

theorem readable_of_mem_scan {text : Text} {t : Token} (ht : t ∈ scan text) : t.Readable :=
  (Scan.Every.start.foldl_push Scan.emits_readable text).of_mem_finish ht

/-! ### Outlines -/

mutual
/-- Every scalar of the outline has the property. -/
def Outline.Every (P : Token → Prop) : Outline → Prop
  | .scalar t => P t
  | .array items => EveryItem P items
  | .object members => EveryMember P members

@[inherit_doc Outline.Every]
def Outline.EveryItem (P : Token → Prop) : List Outline → Prop
  | [] => True
  | o :: items => o.Every P ∧ EveryItem P items

@[inherit_doc Outline.Every]
def Outline.EveryMember (P : Token → Prop) : List (Option String × Outline) → Prop
  | [] => True
  | (_, o) :: members => o.Every P ∧ EveryMember P members
end

variable {P : Token → Prop}

theorem Outline.everyItem_iff {items : List Outline} :
    EveryItem P items ↔ ∀ o ∈ items, o.Every P := by
  induction items with
  | nil => simp [EveryItem]
  | cons o items ih => simp [EveryItem, ih]

theorem Outline.everyMember_iff {members : List (Option String × Outline)} :
    EveryMember P members ↔ ∀ m ∈ members, m.2.Every P := by
  induction members with
  | nil => simp [EveryMember]
  | cons m members ih => simp [EveryMember, ih]

/-- Every scalar inside the open array or object has the property. -/
def Frame.Every (P : Token → Prop) : Frame → Prop
  | .items done => Outline.EveryItem P done
  | .member members _ => Outline.EveryMember P members

/-- Every scalar so far has the property. -/
def Reading.Every (P : Token → Prop) : Reading → Prop
  | .value frames | .firstItem frames | .firstKey frames => ∀ f ∈ frames, f.Every P
  | .afterItem items frames => Outline.EveryItem P items ∧ ∀ f ∈ frames, f.Every P
  | .nextKey members frames | .colon members _ frames | .afterMember members frames =>
    Outline.EveryMember P members ∧ ∀ f ∈ frames, f.Every P
  | .finished outline => outline.Every P

namespace Reading

theorem every_deliver {frames : List Frame} (hframes : ∀ f ∈ frames, f.Every P) {o : Outline}
    (ho : o.Every P) : (deliver o frames).Every P := by
  match frames with
  | [] => exact ho
  | .items items :: frames =>
    rw [List.forall_mem_cons] at hframes
    exact ⟨⟨ho, hframes.1⟩, hframes.2⟩
  | .member members key :: frames =>
    rw [List.forall_mem_cons] at hframes
    exact ⟨⟨ho, hframes.1⟩, hframes.2⟩

theorem every_pushValue {rules : Rules} {frames : List Frame} (hframes : ∀ f ∈ frames, f.Every P)
    {t : Token} (ht : P t) {reading : Reading} (h : pushValue rules frames t = .ok reading) :
    reading.Every P := by
  unfold pushValue at h
  split at h
  · split_ifs at h
    cases h
    exact hframes
  · split_ifs at h
    cases h
    exact hframes
  · cases h
    exact every_deliver hframes ht
  · cases h
    exact every_deliver hframes ht
  · split_ifs at h
    cases h
    exact every_deliver hframes ht
  · split_ifs at h
    cases h
    exact every_deliver hframes ht
  · cases h
  · cases h

theorem every_pushKey {rules : Rules} {members : List (Option String × Outline)}
    {frames : List Frame} (hmembers : Outline.EveryMember P members)
    (hframes : ∀ f ∈ frames, f.Every P) {t : Token} {reading : Reading}
    (h : pushKey rules members frames t = .ok reading) : reading.Every P := by
  unfold pushKey at h
  split at h
  · split_ifs at h
    cases h
    exact ⟨hmembers, hframes⟩
  · cases h
  · cases h

theorem every_push {rules : Rules} {reading reading' : Reading} (hreading : reading.Every P)
    {t : Token} (ht : P t) (h : push rules reading t = .ok reading') : reading'.Every P := by
  unfold push at h
  split at h
  · exact every_pushValue hreading ht h
  · cases h
    exact every_deliver hreading trivial
  · refine every_pushValue ?_ ht h
    rw [List.forall_mem_cons]
    exact ⟨trivial, hreading⟩
  · cases h
    exact List.forall_mem_cons.2 hreading
  · cases h
    refine every_deliver hreading.2 ?_
    have hitems := Outline.everyItem_iff.1 hreading.1
    exact Outline.everyItem_iff.2 (by simpa using hitems)
  · cases h
    exact every_deliver hreading trivial
  · refine every_pushKey ?_ hreading h
    trivial
  · exact every_pushKey hreading.1 hreading.2 h
  · cases h
    exact List.forall_mem_cons.2 hreading
  · cases h
    exact hreading
  · cases h
    refine every_deliver hreading.2 ?_
    have hmembers := Outline.everyMember_iff.1 hreading.1
    exact Outline.everyMember_iff.2 (by simpa using hmembers)
  · cases h

end Reading

theorem Outline.every_of_ofTokens {rules : Rules} {tokens : List Token}
    (htokens : ∀ t ∈ tokens, P t) {o : Outline} (h : ofTokens rules tokens = .ok o) : o.Every P := by
  obtain ⟨reading, hreading, hfinish⟩ := Outcome.bind_eq_ok_iff.1 h
  have hevery : reading.Every P := by
    refine Outcome.foldlM_induction (P := fun r => r.Every P) ?_ ?_ hreading
    · simp [Reading.start, Reading.Every]
    · exact fun t ht _ _ hr hpush => Reading.every_push hr (htokens t ht) hpush
  unfold Reading.finish at hfinish
  split at hfinish
  · cases hfinish
    exact hevery
  · cases hfinish

/-! ### Values -/

mutual
/-- Every number in the value is readable. -/
def Readable : Json → Prop
  | .number n => n.Readable
  | .array items => ReadableItems items
  | .object members => ReadableMembers members
  | _ => True

@[inherit_doc Readable]
def ReadableItems : List Json → Prop
  | [] => True
  | j :: items => j.Readable ∧ ReadableItems items

@[inherit_doc Readable]
def ReadableMembers : List (String × Json) → Prop
  | [] => True
  | (_, j) :: members => j.Readable ∧ ReadableMembers members
end

theorem readableItems_iff {items : List Json} :
    ReadableItems items ↔ ∀ j ∈ items, j.Readable := by
  induction items with
  | nil => simp [ReadableItems]
  | cons j items ih => simp [ReadableItems, ih]

theorem readableMembers_iff {members : List (String × Json)} :
    ReadableMembers members ↔ ∀ m ∈ members, m.2.Readable := by
  induction members with
  | nil => simp [ReadableMembers]
  | cons m members ih => simp [ReadableMembers, ih]

namespace Outline

mutual
theorem readable_of_toJson? : {o : Outline} → (ho : o.Every Token.Readable) → {j : Json} →
    (h : o.toJson? = some j) → j.Readable
  | .scalar .null, _, _, h | .scalar (.bool _), _, _, h => by
    cases h
    trivial
  | .scalar (.string s), _, _, h => by
    obtain ⟨s, -, rfl⟩ := Option.map_eq_some_iff.1 h
    trivial
  | .scalar (.number n), ho, _, h => by
    obtain ⟨n, rfl, rfl⟩ := Option.map_eq_some_iff.1 h
    exact ho
  | .scalar .openArray, _, _, h | .scalar .closeArray, _, _, h | .scalar .openObject, _, _, h
  | .scalar .closeObject, _, _, h | .scalar .comma, _, _, h | .scalar .colon, _, _, h
  | .scalar (.broken _ _), _, _, h => by
    cases h
  | .array items, ho, _, h => by
    obtain ⟨items, hitems, rfl⟩ := Option.map_eq_some_iff.1 h
    exact readable_of_itemsToJson? ho hitems
  | .object members, ho, _, h => by
    obtain ⟨members, hmembers, rfl⟩ := Option.map_eq_some_iff.1 h
    exact readable_of_membersToJson? ho hmembers

theorem readable_of_itemsToJson? : {items : List Outline} →
    (hitems : EveryItem Token.Readable items) → {js : List Json} →
    (h : itemsToJson? items = some js) → ReadableItems js
  | [], _, _, h => by
    cases h
    trivial
  | o :: items, hitems, _, h => by
    rw [itemsToJson?] at h
    split at h
    · next hj hjs =>
      cases h
      exact ⟨readable_of_toJson? hitems.1 hj, readable_of_itemsToJson? hitems.2 hjs⟩
    · cases h

theorem readable_of_membersToJson? : {members : List (Option String × Outline)} →
    (hmembers : EveryMember Token.Readable members) → {js : List (String × Json)} →
    (h : membersToJson? members = some js) → ReadableMembers js
  | [], _, _, h => by
    cases h
    trivial
  | (key, o) :: members, hmembers, _, h => by
    unfold membersToJson? at h
    split at h
    · next hj hjs =>
      cases h
      exact ⟨readable_of_toJson? hmembers.1 hj, readable_of_membersToJson? hmembers.2 hjs⟩
    · cases h
end

end Outline

end Json

end CampusQuery
