import Parlance.Draft.Title
import Parlance.Proofs.Items
import Parlance.Step.Title

/-!
Values and targets in titles. A value stands between double quotes and is read as it was written.
A selector is a bare text, which may also begin with the word of another query or be an expression.
-/

namespace Parlance

open Source

/-! ## 1. Values in double quotes -/

theorem escapes_of_eq {quote : Char} (hn : quote ≠ 'n') (ht : quote ≠ 't') {escape : Char → Text}
    (h : ∀ c, escape c = if c = '\\' then ['\\', '\\'] else if c = quote then ['\\', quote]
      else if c = '\n' then ['\\', 'n'] else [c]) : Escapes quote escape := by
  intro c
  rw [h c]
  by_cases hb : c = '\\'
  · exact .inl ⟨'\\', by simp [hb], by simp [hb]⟩
  by_cases hq : c = quote
  · exact .inl ⟨quote, by simp [hq ▸ hb, hq], by simp [hn, ht, hq]⟩
  by_cases hc : c = '\n'
  · exact .inl ⟨'n', by simp [hc, hc ▸ hq], by simp [hc]⟩
  · exact .inr ⟨by simp [hb, hq, hc], hb, hq⟩

theorem escapes_single : Escapes '\x27' escapeSingle :=
  escapes_of_eq (by decide) (by decide) fun _ => rfl

theorem escapes_value : Escapes '"' escapeValue :=
  escapes_of_eq (by decide) (by decide) fun _ => rfl

theorem unquote_singleQuoted (t : Text) : unquote (Source.literal t) = some t :=
  unquote_escaped (by decide) escapes_single t

/-- A text as a value in a title. -/
def quotedValue (t : Text) : Text := '"' :: t.flatMap escapeValue ++ ['"']

theorem unquote_quotedValue (t : Text) : unquote (quotedValue t) = some t :=
  unquote_escaped (by decide) escapes_value t

theorem isTrimmed_quotedValue (t : Text) : Text.IsTrimmed (quotedValue t) :=
  (IsValueText.literal (by decide) (escapes_value.isLiteralBody_flatMap t)).isTrimmed

theorem valueWords_of_plainLiteral? {expr t : Text} (h : plainLiteral? (Text.trim expr) = some t) :
    valueWords expr = quotedValue t := by
  unfold valueWords
  simp only [h]
  rfl

theorem Style.plainLiteral?_literal (s : Style) (t : Text) :
    plainLiteral? (s.literal t) = some t := by
  have hfirst : Text.firstIs (· = '\x60') (s.literal t) = false := by
    unfold Style.literal
    cases s.quote <;> rfl
  unfold plainLiteral?
  rw [hfirst, if_neg Bool.false_ne_true, s.unquote_literal]

theorem Style.valueWords_literal (s : Style) (t : Text) :
    valueWords (s.literal t) = quotedValue t := by
  apply valueWords_of_plainLiteral?
  rw [(s.isValueText_literal t).isTrimmed.trim_eq, s.plainLiteral?_literal]

/-! ## 2. Choosing the longest words -/

/-- A fold that goes over to the next element or stays with one chooses among the elements. -/
theorem foldl_chosen {α : Type} {step : Option α → α → Option α} (hnone : ∀ p, step none p = some p)
    (hsome : ∀ b p, step (some b) p = some p ∨ step (some b) p = some b) (found : List α) :
    (found.foldl step none = none → found = []) ∧
      ∀ p, found.foldl step none = some p → p ∈ found := by
  have hchosen (found : List α) (b : α) : ∃ p ∈ b :: found, found.foldl step (some b) = some p := by
    induction found generalizing b with
    | nil => exact ⟨b, List.mem_cons_self, rfl⟩
    | cons p found ih =>
      rw [List.foldl_cons]
      rcases hsome b p with hs | hs
      · obtain ⟨p', hp, h⟩ := ih p
        exact ⟨p', List.mem_cons_of_mem b hp, by rw [hs, h]⟩
      · obtain ⟨p', hp, h⟩ := ih b
        refine ⟨p', ?_, by rw [hs, h]⟩
        rcases List.mem_cons.1 hp with rfl | hp
        · exact List.mem_cons_self
        · exact List.mem_cons_of_mem b (List.mem_cons_of_mem p hp)
  cases found with
  | nil => exact ⟨fun _ => rfl, fun p h => absurd h (by simp)⟩
  | cons b found =>
    obtain ⟨p, hp, h⟩ := hchosen found b
    rw [List.foldl_cons, hnone, h]
    exact ⟨fun h => absurd h (by simp), fun p' h => Option.some.inj h ▸ hp⟩

namespace Action

theorem longest_spec (found : List (Action × Text)) :
    (longest found = none → found = []) ∧ ∀ p, longest found = some p → p ∈ found := by
  apply foldl_chosen
  · intro p
    rfl
  · intro b p
    simp only
    split
    · exact .inl rfl
    · exact .inr rfl

end Action

/-! ## 3. Targets -/

/-- Whether a target begins with the word of a query and a space. -/
def hasTargetWord (t : Text) : Bool :=
  Action.all.any fun a => a.targetWord?.any fun word => Text.startsWith t (word ++ " ".toList)

/-- Whether a target does not begin with the word of a query, and is no list of expressions only. -/
def isSelector (t : Text) : Bool :=
  !hasTargetWord t && (splitArguments t).any fun part => !isExpression part

namespace Action

/-- In a text without blanks around it something follows every space. -/
theorem fits_targetWord {t : Text} (ht : Text.IsTrimmed t) (word : Text) :
    ((Text.after? word t).any fun rest => Text.firstIs (· = ' ') rest && !Text.allBlank rest) =
      Text.startsWith t (word ++ " ".toList) := by
  change _ = Text.startsWith t (word ++ [' '])
  rw [← Text.isSome_after?, Bool.eq_iff_iff]
  constructor
  · intro h
    obtain ⟨rest, hrest, hfits⟩ := (Option.any_eq_true _ _).1 h
    rw [Bool.and_eq_true] at hfits
    cases rest with
    | nil => exact absurd hfits.1 (by decide)
    | cons c rest =>
      have hc : c = ' ' := by simpa [Text.firstIs] using hfits.1
      rw [Text.eq_append_of_after? hrest, hc, List.append_cons word ' ' rest, Text.after?_append]
      rfl
  · intro h
    obtain ⟨rest, hrest⟩ := Option.isSome_iff_exists.1 h
    have he := Text.eq_append_of_after? hrest
    rw [List.append_assoc, List.singleton_append] at he
    rw [he] at ht
    rw [he, Text.after?_append, Option.any_some, ht.not_allBlank (by simp)]
    rfl

theorem ofTarget?_eq_none_iff {t : Text} (ht : Text.IsTrimmed t) :
    ofTarget? t = none ↔ hasTargetWord t = false := by
  have hword (a : Action) :
      ((a.targetWord?.filter fun word =>
        (Text.after? word t).any fun rest => Text.firstIs (· = ' ') rest && !Text.allBlank rest).map
          (a, ·)) = none ↔
        (a.targetWord?.any fun word => Text.startsWith t (word ++ " ".toList)) = false := by
    cases a.targetWord? with
    | none => simp
    | some word => simp [Option.filter, fits_targetWord ht]
  unfold ofTarget? hasTargetWord
  rw [Option.map_eq_none_iff, List.any_eq_false]
  constructor
  · intro h a ha
    have hnil := (longest_spec _).1 h
    rw [List.filterMap_eq_nil_iff] at hnil
    rw [(hword a).1 (hnil a ha)]
    exact Bool.false_ne_true
  · intro h
    have hnil := List.filterMap_eq_nil_iff.2 fun a ha => (hword a).2 (Bool.eq_false_iff.2 (h a ha))
    rw [hnil]
    rfl

theorem ne_locate_of_ofTarget? {t rest : Text} {a : Action} (h : ofTarget? t = some (a, rest)) :
    a ≠ .locate := by
  obtain ⟨⟨b, word⟩, hb, he⟩ := Option.map_eq_some_iff.1 h
  obtain ⟨c, -, hc⟩ := List.mem_filterMap.1 ((longest_spec _).2 _ hb)
  obtain ⟨w, hw, hcb⟩ := Option.map_eq_some_iff.1 hc
  obtain ⟨rfl, -⟩ := Prod.mk.inj hcb
  obtain ⟨rfl, -⟩ := Prod.mk.inj he
  rintro rfl
  exact absurd hw (by simp [targetWord?])

end Action

theorem argumentExpression_eq {t : Text} (ht : Text.IsTrimmed t) (hne : t ≠ []) :
    argumentExpression t = if (splitArguments t).all isExpression then t else literal t := by
  have hparts := splitArguments_ne_nil (@Text.IsTrimmed.not_allBlank [] t ht hne)
  have hempty : (splitArguments t).isEmpty = false := by simpa using hparts
  unfold argumentExpression
  rw [ht.trim_eq]
  simp only [hempty, Bool.not_false, Bool.true_and]

theorem readTarget_trim (t : Text) : readTarget (Text.trim t) = readTarget t := by
  unfold readTarget
  rw [(Text.isTrimmed_trim t).trim_eq]

section

variable {t : Text} (ht : Text.IsTrimmed t) (hne : t ≠ [])

include ht hne

theorem readTarget_of_word {a : Action} {rest : Text} (h : Action.ofTarget? t = some (a, rest)) :
    readTarget t = some ⟨a, argumentExpression rest⟩ := by
  unfold readTarget
  rw [ht.trim_eq]
  simp only [List.isEmpty_iff, hne, if_false, h, Option.getD_some]

theorem readTarget_of_bare (h : Action.ofTarget? t = none) :
    readTarget t =
      some ⟨.locate, if (splitArguments t).all isExpression then t else literal t⟩ := by
  unfold readTarget
  rw [ht.trim_eq]
  simp only [List.isEmpty_iff, hne, if_false, h, Option.getD_none, argumentExpression_eq ht hne]

/-- A selector is read as a literal. -/
theorem readTarget_of_isSelector (h : isSelector t = true) :
    readTarget t = some ⟨.locate, literal t⟩ := by
  simp only [isSelector, Bool.and_eq_true, Bool.not_eq_true', ← List.not_all_eq_any_not] at h
  rw [readTarget_of_bare ht hne ((Action.ofTarget?_eq_none_iff ht).2 h.1), h.2,
    if_neg Bool.false_ne_true]

/-- Anything else is read as another query or kept as an expression, which is longer than its value
if it has one. -/
theorem exists_readTarget (h : isSelector t = false) :
    ∃ q, readTarget t = some q ∧
      ∀ s, q.action = .locate → unquote q.selector = some s → s.length < t.length := by
  cases hword : Action.ofTarget? t with
  | some found =>
    obtain ⟨a, rest⟩ := found
    exact ⟨_, readTarget_of_word ht hne hword,
      fun _ ha => absurd ha (Action.ne_locate_of_ofTarget? hword)⟩
  | none =>
    have hbare := readTarget_of_bare ht hne hword
    rw [Action.ofTarget?_eq_none_iff ht] at hword
    simp only [isSelector, hword, Bool.not_false, Bool.true_and, ← List.not_all_eq_any_not,
      Bool.not_eq_false'] at h
    rw [if_pos h] at hbare
    refine ⟨_, hbare, fun s _ hs => ?_⟩
    have hlength : s.length + 2 ≤ t.length := length_of_unquote hs
    omega

end

/-- A target that is read as the literal of a text no shorter than it is this text, and a
selector. -/
theorem isSelector_of_readTarget {t s : Text} {q : Query} (h : readTarget t = some q)
    (hq : q.action = .locate) (hs : unquote q.selector = some s) (hlength : t.length ≤ s.length) :
    t = s ∧ Text.IsTrimmed s ∧ s ≠ [] ∧ isSelector s = true := by
  have htrim := Text.isTrimmed_trim t
  have hle := Text.length_trim t
  rw [← readTarget_trim] at h
  by_cases hne : Text.trim t = []
  · rw [hne] at h
    exact absurd h (by simp [readTarget, Text.trim, Text.trimStart, Text.trimEnd])
  cases hsel : isSelector (Text.trim t) with
  | false =>
    obtain ⟨q', hq', hshorter⟩ := exists_readTarget htrim hne hsel
    obtain rfl : q' = q := Option.some.inj (hq'.symm.trans h)
    have hlt := hshorter s hq hs
    omega
  | true =>
    obtain rfl : _ = q := Option.some.inj ((readTarget_of_isSelector htrim hne hsel).symm.trans h)
    obtain rfl : Text.trim t = s := Option.some.inj ((unquote_singleQuoted _).symm.trans hs)
    exact ⟨(Text.trim_eq_of_length hlength).symm, htrim, hne, hsel⟩

theorem elementWords_locate {selector s : Text} (h : unquote selector = some s) :
    elementWords [⟨.locate, selector⟩] = s := by
  simp [elementWords, selectors?, h, Text.join]

/-- The selector of an element, put into words, is read as the same selector exactly if it does not
begin with the word of another query and not all its parts read as expressions. -/
theorem readTarget_elementWords_iff (style : Style) {s : Text} (htrim : Text.IsTrimmed s)
    (hne : s ≠ []) :
    ∃ q, readTarget (elementWords [⟨.locate, style.literal s⟩]) = some q ∧
      (q.action = .locate ∧ unquote q.selector = some s ↔ isSelector s = true) := by
  rw [elementWords_locate (style.unquote_literal s)]
  cases hsel : isSelector s with
  | true =>
    exact ⟨_, readTarget_of_isSelector htrim hne hsel,
      iff_of_true ⟨rfl, unquote_singleQuoted s⟩ rfl⟩
  | false =>
    obtain ⟨q, hq, hshorter⟩ := exists_readTarget htrim hne hsel
    refine ⟨q, hq, iff_of_false ?_ Bool.false_ne_true⟩
    intro h
    exact absurd (hshorter s h.1 h.2) (Nat.lt_irrefl _)

/-- A list of selectors, of which the last one alone would be read as an expression. -/
def listedSelector : Text := "ul > li:nth-child(2) a, [title=\"it's here\"]"

theorem readTarget_listedSelector :
    Text.IsTrimmed listedSelector ∧ listedSelector ≠ [] ∧
      ∃ q, readTarget (elementWords
            [⟨.locate, ({ quote := .double } : Style).literal listedSelector⟩]) = some q ∧
        q.action = .locate ∧ unquote q.selector = some listedSelector := by
  have htrim : Text.IsTrimmed listedSelector := ⟨by decide, by decide⟩
  have hne : listedSelector ≠ [] := by decide
  obtain ⟨q, hq, hiff⟩ := readTarget_elementWords_iff { quote := .double } htrim hne
  exact ⟨htrim, hne, q, hq, hiff.2 (by decide)⟩

/-- An attribute in brackets comes back as an array, and a tag that is the word of another query as
this query. -/
theorem readTarget_attribute :
    readTarget (elementWords [⟨.locate, ({} : Style).literal "[data-test=save]"⟩]) =
        some ⟨.locate, "[data-test=save]"⟩ ∧
      unquote "[data-test=save]" = none ∧
      readTarget (elementWords [⟨.locate, ({} : Style).literal "label input"⟩]) =
        some ⟨.locateLabel, "'input'"⟩ := by
  decide

end Parlance
