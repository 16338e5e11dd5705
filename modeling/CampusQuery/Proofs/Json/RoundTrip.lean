import CampusQuery.Proofs.Json.Doubles
import CampusQuery.Proofs.Json.Strings
/-!
Values are read as they are written, up to their doubles.

The compact text of a value is scanned to the tokens of the value in which each number is read
again, the tokens spell its outline, and the outline has the value. Only the end of a number is not
seen before the character behind it.
-/

namespace CampusQuery.Json

/-! ### From text to tokens -/

mutual
/-- The tokens of the text of a value. -/
def tokens : Json → List Token
  | .null => [.null]
  | .bool b => [.bool b]
  | .number n => [.number (some n)]
  | .string s => [.string (some s)]
  | .array items => .openArray :: itemsTokens items ++ [.closeArray]
  | .object members => .openObject :: membersTokens members ++ [.closeObject]

@[inherit_doc tokens]
def itemsTokens : List Json → List Token
  | [] => []
  | j :: items => j.tokens ++ if items.isEmpty then [] else .comma :: itemsTokens items

@[inherit_doc tokens]
def membersTokens : List (String × Json) → List Token
  | [] => []
  | (key, j) :: members =>
    .string (some key) :: .colon :: j.tokens ++
      if members.isEmpty then [] else .comma :: membersTokens members
end

mutual
/-- The value that the text of a value is read as: each number is read again. -/
def reread : Json → Json
  | .null => .null
  | .bool b => .bool b
  | .number n => .number n.reread
  | .string s => .string s
  | .array items => .array (rereadItems items)
  | .object members => .object (rereadMembers members)

@[inherit_doc reread]
def rereadItems : List Json → List Json
  | [] => []
  | j :: items => j.reread :: rereadItems items

@[inherit_doc reread]
def rereadMembers : List (String × Json) → List (String × Json)
  | [] => []
  | (key, j) :: members => (key, j.reread) :: rereadMembers members
end

theorem rereadItems_eq_map (items : List Json) : rereadItems items = items.map reread := by
  induction items with
  | nil => rfl
  | cons j items ih => rw [rereadItems, ih, List.map_cons]

theorem rereadMembers_eq_map (members : List (String × Json)) :
    rereadMembers members = members.map fun m => (m.1, m.2.reread) := by
  induction members with
  | nil => rfl
  | cons m members ih => rw [rereadMembers, ih, List.map_cons]

namespace Scan

/-- The scan after characters. -/
def feed (s : Scan) (text : List Char) : Scan :=
  text.foldl (fun s c => s.push (.char c)) s

@[simp]
theorem feed_nil (s : Scan) : s.feed [] = s :=
  rfl

theorem feed_append (s : Scan) (text text' : List Char) :
    s.feed (text ++ text') = (s.feed text).feed text' :=
  List.foldl_append

theorem feed_cons (s : Scan) (c : Char) (text : List Char) :
    s.feed (c :: text) = (s.push (.char c)).feed text :=
  rfl

/-- The tokens are complete, except that the last may be a number to which more could belong. -/
def Holds (s : Scan) (ts : List Token) : Prop :=
  s = ⟨ts, .between⟩ ∨
    ∃ (n : Numeral) (done : List Token), n.Complete ∧ s = ⟨done, .number n⟩ ∧ ts = n.token :: done

variable {s : Scan} {ts : List Token}

theorem Holds.push (h : s.Holds ts) {c : Char} (hc : Numeral.Ends c) :
    s.push (.char c) = pushBetween ⟨ts, .between⟩ (.char c) := by
  rcases h with rfl | ⟨n, done, hn, rfl, rfl⟩
  · rfl
  · simp only [Scan.push, hn.push_eq_over hc]
    rfl

theorem Holds.finish (h : s.Holds ts) : s.finish = ts.reverse := by
  rcases h with rfl | ⟨n, done, hn, rfl, rfl⟩ <;> rfl

theorem feed_number {n n' : Numeral} {text : List Char} (h : n.feed text = some n')
    (ts : List Token) : feed ⟨ts, .number n⟩ text = ⟨ts, .number n'⟩ := by
  induction text generalizing n with
  | nil =>
    cases h
    rfl
  | cons c text ih =>
    unfold Numeral.feed at h
    split at h
    · next hpush =>
      rw [feed_cons, ← ih h]
      simp only [Scan.push, hpush]
    · cases h

theorem feed_string {part part' : StringPart} {text : List Char} (h : part.feed text = some part')
    (ts : List Token) : feed ⟨ts, .string part⟩ text = ⟨ts, .string part'⟩ := by
  induction text generalizing part with
  | nil =>
    cases h
    rfl
  | cons c text ih =>
    unfold StringPart.feed at h
    split at h
    · next hpush =>
      rw [feed_cons, ← ih h]
      simp only [Scan.push, hpush]
    · cases h

/-- A string between quotes is one token. -/
theorem feed_quoted (ts : List Token) (text : String) :
    feed ⟨ts, .between⟩ (quoted text) = ⟨.string (some text) :: ts, .between⟩ := by
  have hpart := StringPart.feed_flatMap_escaped text.toList []
  rw [quoted, List.cons_append, feed_cons, feed_append]
  change feed (feed ⟨ts, .string ⟨some [], .plain⟩⟩ _) _ = _
  rw [feed_string hpart]
  simp [feed, Scan.push, StringPart.push, StringPart.pushPlain, emit]

theorem pushBetween_start (ts : List Token) {c : Char} {n : Numeral}
    (h : Numeral.start? c = some n) :
    pushBetween ⟨ts, .between⟩ (.char c) = ⟨ts, .number n⟩ := by
  have hne {d : Char} (hd : Numeral.start? d = none) : c ≠ d := by
    rintro rfl
    rw [hd] at h
    cases h
  have hblank : ¬ (c = ' ' ∨ c = '\n' ∨ c = '\r' ∨ c = '\t') := by
    simp only [not_or]
    exact ⟨hne rfl, hne rfl, hne rfl, hne rfl⟩
  unfold pushBetween
  dsimp only
  rw [if_neg hblank, if_neg (hne rfl), if_neg (hne rfl), if_neg (hne rfl), if_neg (hne rfl),
    if_neg (hne rfl), if_neg (hne rfl), if_neg (hne rfl), if_neg (hne rfl), if_neg (hne rfl),
    if_neg (hne rfl), h]

/-- A number is one token once it ends. -/
theorem holds_number (ts : List Token) {n : Number} (hn : n.Readable) :
    (feed ⟨ts, .between⟩ (numberChars n)).Holds (.number (some n.reread) :: ts) := by
  obtain ⟨numeral, hread, hcomplete, htoken⟩ := Numeral.ofChars?_numberChars hn
  cases htext : numberChars n with
  | nil =>
    rw [htext] at hread
    cases hread
  | cons c text =>
    rw [htext] at hread
    obtain ⟨first, hfirst, hrest⟩ := Option.bind_eq_some_iff.1 hread
    rw [feed_cons]
    change (feed (pushBetween ⟨ts, .between⟩ (.char c)) text).Holds _
    rw [pushBetween_start ts hfirst, feed_number hrest]
    exact .inr ⟨numeral, ts, hcomplete, rfl, by rw [htoken]⟩

theorem ends_of_mem {c : Char} (hc : c ∈ [',', ']', '\x7d']) : Numeral.Ends c := by
  simp only [List.mem_cons, List.not_mem_nil, or_false] at hc
  rcases hc with rfl | rfl | rfl <;> exact ⟨rfl, by decide, by decide, by decide⟩

mutual
theorem holds_chars : (j : Json) → (hj : j.Readable) → (ts : List Token) →
    (feed ⟨ts, .between⟩ j.chars).Holds (j.reread.tokens.reverse ++ ts)
  | .null, _, ts => .inl rfl
  | .bool true, _, ts => .inl rfl
  | .bool false, _, ts => .inl rfl
  | .number n, hj, ts => by
    rw [chars, reread, Json.tokens]
    exact holds_number ts hj
  | .string s, _, ts => by
    rw [chars, reread, Json.tokens, feed_quoted]
    exact .inl rfl
  | .array items, hj, ts => by
    have hitems := holds_itemsChars items hj (.openArray :: ts)
    rw [chars, List.cons_append, feed_cons, feed_append]
    refine .inl ((hitems.push (ends_of_mem (by simp))).trans ?_)
    simp [reread, Json.tokens, pushBetween, emit]
  | .object members, hj, ts => by
    have hmembers := holds_membersChars members hj (.openObject :: ts)
    rw [chars, List.cons_append, feed_cons, feed_append]
    refine .inl ((hmembers.push (ends_of_mem (by simp))).trans ?_)
    simp [reread, Json.tokens, pushBetween, emit]

theorem holds_itemsChars : (items : List Json) → (hitems : ReadableItems items) →
    (ts : List Token) →
    (feed ⟨ts, .between⟩ (itemsChars items)).Holds
      ((itemsTokens (rereadItems items)).reverse ++ ts)
  | [], _, ts => .inl rfl
  | j :: items, hitems, ts => by
    have hj := holds_chars j hitems.1 ts
    have hrest := holds_itemsChars items hitems.2 (.comma :: (j.reread.tokens.reverse ++ ts))
    rw [itemsChars, rereadItems, itemsTokens]
    cases items with
    | nil => simpa [rereadItems] using hj
    | cons next items =>
      have hcomma := hj.push (c := ',') (ends_of_mem (by simp))
      rw [feed_append, List.isEmpty_cons, if_neg Bool.false_ne_true, feed_cons, hcomma]
      simpa [pushBetween, emit, rereadItems] using hrest

theorem holds_membersChars : (members : List (String × Json)) →
    (hmembers : ReadableMembers members) → (ts : List Token) →
    (feed ⟨ts, .between⟩ (membersChars members)).Holds
      ((membersTokens (rereadMembers members)).reverse ++ ts)
  | [], _, ts => .inl rfl
  | (key, j) :: members, hmembers, ts => by
    have hj := holds_chars j hmembers.1 (.colon :: .string (some key) :: ts)
    have hrest := holds_membersChars members hmembers.2
      (.comma :: (j.reread.tokens.reverse ++ .colon :: .string (some key) :: ts))
    have hcolon : Scan.push ⟨.string (some key) :: ts, .between⟩ (.char ':') =
        ⟨.colon :: .string (some key) :: ts, .between⟩ := rfl
    rw [membersChars, rereadMembers, membersTokens, List.append_assoc, feed_append, feed_quoted,
      List.cons_append, feed_cons, feed_append, hcolon]
    cases members with
    | nil => simpa [rereadMembers] using hj
    | cons next members =>
      have hcomma := hj.push (c := ',') (ends_of_mem (by simp))
      rw [List.isEmpty_cons, if_neg Bool.false_ne_true, feed_cons, hcomma]
      simpa [pushBetween, emit, rereadMembers] using hrest
end

end Scan

/-- The compact text of a value has the tokens of the value with its numbers read again. -/
theorem scan_chars {j : Json} (hj : j.Readable) : scan (j.chars.map .char) = j.reread.tokens := by
  have hholds := Scan.holds_chars j hj []
  rw [scan, List.foldl_map]
  exact hholds.finish.trans (by simp)

/-! ### From tokens to outlines -/

mutual
/-- The outline of a value. -/
def outline : Json → Outline
  | .null => .scalar .null
  | .bool b => .scalar (.bool b)
  | .number n => .scalar (.number (some n))
  | .string s => .scalar (.string (some s))
  | .array items => .array (itemsOutlines items)
  | .object members => .object (membersOutlines members)

@[inherit_doc outline]
def itemsOutlines : List Json → List Outline
  | [] => []
  | j :: items => j.outline :: itemsOutlines items

@[inherit_doc outline]
def membersOutlines : List (String × Json) → List (Option String × Outline)
  | [] => []
  | (key, j) :: members => (some key, j.outline) :: membersOutlines members
end

mutual
/-- How many arrays and objects lie inside one another. -/
def levels : Json → Nat
  | .array items => itemsLevels items + 1
  | .object members => membersLevels members + 1
  | _ => 0

@[inherit_doc levels]
def itemsLevels : List Json → Nat
  | [] => 0
  | j :: items => max j.levels (itemsLevels items)

@[inherit_doc levels]
def membersLevels : List (String × Json) → Nat
  | [] => 0
  | (_, j) :: members => max j.levels (membersLevels members)
end

mutual
theorem levels_reread : (j : Json) → j.reread.levels = j.levels
  | .array items => by rw [reread, levels, levels, levels_rereadItems items]
  | .object members => by rw [reread, levels, levels, levels_rereadMembers members]
  | .null | .bool _ | .number _ | .string _ => by simp [reread, levels]

theorem levels_rereadItems : (items : List Json) →
    itemsLevels (rereadItems items) = itemsLevels items
  | [] => rfl
  | j :: items => by
    rw [rereadItems, itemsLevels, itemsLevels, levels_reread j, levels_rereadItems items]

theorem levels_rereadMembers : (members : List (String × Json)) →
    membersLevels (rereadMembers members) = membersLevels members
  | [] => rfl
  | (_, j) :: members => by
    rw [rereadMembers, membersLevels, membersLevels, levels_reread j, levels_rereadMembers members]
end

theorem exists_tokens_eq_cons (j : Json) : ∃ t rest, j.tokens = t :: rest ∧ t ≠ .closeArray := by
  cases j <;> simp [tokens]

namespace Reading

variable {rules : Rules}

theorem push_firstItem (frames : List Frame) {t : Token} (ht : t ≠ .closeArray) :
    push rules (.firstItem frames) t = push rules (.value (.items [] :: frames)) t := by
  cases t <;> first | rfl | exact absurd rfl ht

mutual
/-- A value that the rules admit at its depth is delivered. -/
theorem push_tokens : (j : Json) → (frames : List Frame) →
    (hrules : ∀ depth < frames.length + j.levels, rules.admits depth = true) →
    j.tokens.foldlM (push rules) (.value frames) = .ok (deliver j.outline frames)
  | .null, frames, _ => rfl
  | .bool b, frames, _ => rfl
  | .number n, frames, _ => by simp [tokens, outline, push, pushValue]
  | .string s, frames, _ => by simp [tokens, outline, push, pushValue]
  | .array items, frames, hrules => by
    rw [levels] at hrules
    have hadmits : rules.admits frames.length = true := hrules _ (by omega)
    have hopen : push rules (.value frames) .openArray = .ok (.firstItem frames) := by
      simp [push, pushValue, hadmits]
    rw [tokens, List.cons_append, List.foldlM_cons, hopen]
    change List.foldlM (push rules) (.firstItem frames) _ = _
    cases items with
    | nil => rfl
    | cons j items =>
      have hitems := push_itemsTokens (j :: items) [] frames (List.cons_ne_nil j items)
        fun depth hdepth => hrules depth (by omega)
      rw [List.append_nil] at hitems
      obtain ⟨t, rest, htokens, ht⟩ := exists_tokens_eq_cons j
      have hfirst : (itemsTokens (j :: items)).foldlM (push rules) (.firstItem frames) =
          (itemsTokens (j :: items)).foldlM (push rules) (.value (.items [] :: frames)) := by
        rw [itemsTokens, htokens, List.cons_append, List.foldlM_cons, List.foldlM_cons,
          push_firstItem frames ht]
      rw [List.foldlM_append, hfirst, hitems, outline]
      change Except.ok (deliver (.array (itemsOutlines (j :: items)).reverse.reverse) frames) = _
      rw [List.reverse_reverse]
  | .object members, frames, hrules => by
    rw [levels] at hrules
    have hadmits : rules.admits frames.length = true := hrules _ (by omega)
    have hopen : push rules (.value frames) .openObject = .ok (.firstKey frames) := by
      simp [push, pushValue, hadmits]
    rw [tokens, List.cons_append, List.foldlM_cons, hopen]
    change List.foldlM (push rules) (.firstKey frames) _ = _
    cases members with
    | nil => rfl
    | cons entry members =>
      have hmembers := push_membersTokens (entry :: members) [] frames
        (List.cons_ne_nil entry members) fun depth hdepth => hrules depth (by omega)
      have hfirst : (membersTokens (entry :: members)).foldlM (push rules) (.firstKey frames) =
          (membersTokens (entry :: members)).foldlM (push rules) (.nextKey [] frames) :=
        rfl
      rw [List.append_nil] at hmembers
      rw [List.foldlM_append, hfirst, hmembers, outline]
      change Except.ok
        (deliver (.object (membersOutlines (entry :: members)).reverse.reverse) frames) = _
      rw [List.reverse_reverse]

/-- The items of an array after some of them. -/
theorem push_itemsTokens : (items : List Json) → (done : List Outline) → (frames : List Frame) →
    items ≠ [] →
    (hrules : ∀ depth < frames.length + 1 + itemsLevels items, rules.admits depth = true) →
    (itemsTokens items).foldlM (push rules) (.value (.items done :: frames)) =
      .ok (.afterItem ((itemsOutlines items).reverse ++ done) frames)
  | [], _, _, hne, _ => absurd rfl hne
  | j :: items, done, frames, _, hrules => by
    rw [itemsLevels] at hrules
    have hj := push_tokens j (.items done :: frames) fun depth hdepth => hrules depth (by
      rw [List.length_cons] at hdepth
      omega)
    rw [itemsTokens, List.foldlM_append, hj]
    change List.foldlM (push rules) (.afterItem (j.outline :: done) frames) _ = _
    cases items with
    | nil => rfl
    | cons next items =>
      have hrest := push_itemsTokens (next :: items) (j.outline :: done) frames
        (List.cons_ne_nil next items) fun depth hdepth => hrules depth (by omega)
      rw [itemsOutlines, List.reverse_cons, List.append_assoc]
      exact hrest

/-- The members of an object after some of them. -/
theorem push_membersTokens : (members : List (String × Json)) →
    (done : List (Option String × Outline)) → (frames : List Frame) → members ≠ [] →
    (hrules : ∀ depth < frames.length + 1 + membersLevels members, rules.admits depth = true) →
    (membersTokens members).foldlM (push rules) (.nextKey done frames) =
      .ok (.afterMember ((membersOutlines members).reverse ++ done) frames)
  | [], _, _, hne, _ => absurd rfl hne
  | (key, j) :: members, done, frames, _, hrules => by
    rw [membersLevels] at hrules
    have hj := push_tokens j (.member done (some key) :: frames) fun depth hdepth =>
      hrules depth (by
        rw [List.length_cons] at hdepth
        omega)
    have hkey : push rules (.nextKey done frames) (.string (some key)) =
        .ok (.colon done (some key) frames) := by
      simp [push, pushKey]
    rw [membersTokens, List.cons_append, List.foldlM_cons, hkey]
    change List.foldlM (push rules) (.value (.member done (some key) :: frames)) (j.tokens ++ _) = _
    rw [List.foldlM_append, hj]
    change List.foldlM (push rules) (.afterMember ((some key, j.outline) :: done) frames) _ = _
    cases members with
    | nil => rfl
    | cons next members =>
      have hrest := push_membersTokens (next :: members) ((some key, j.outline) :: done)
        frames (List.cons_ne_nil next members) fun depth hdepth => hrules depth (by omega)
      rw [membersOutlines, List.reverse_cons, List.append_assoc]
      exact hrest
end

end Reading

/-- Tokens of a value spell its outline, where its depth is admitted. -/
theorem ofTokens_tokens {rules : Rules} {j : Json}
    (hrules : ∀ depth < j.levels, rules.admits depth = true) :
    Outline.ofTokens rules j.tokens = .ok j.outline := by
  rw [Outline.ofTokens, Reading.start, Reading.push_tokens j [] (by simpa using hrules)]
  rfl

/-! ### From outlines to values -/

mutual
theorem toJson?_outline : (j : Json) → j.outline.toJson? = some j
  | .null => rfl
  | .bool _ => rfl
  | .number _ => rfl
  | .string _ => rfl
  | .array items => by rw [outline, Outline.toJson?, toJson?_itemsOutlines]; rfl
  | .object members => by rw [outline, Outline.toJson?, toJson?_membersOutlines]; rfl

theorem toJson?_itemsOutlines : (items : List Json) →
    Outline.itemsToJson? (itemsOutlines items) = some items
  | [] => rfl
  | j :: items => by
    rw [itemsOutlines, Outline.itemsToJson?, toJson?_outline j, toJson?_itemsOutlines items]

theorem toJson?_membersOutlines : (members : List (String × Json)) →
    Outline.membersToJson? (membersOutlines members) = some members
  | [] => rfl
  | (key, j) :: members => by
    have hj := toJson?_outline j
    have hmembers := toJson?_membersOutlines members
    simp only [membersOutlines, Outline.membersToJson?, hj, hmembers]
end

end CampusQuery.Json
