import Parlance.Proofs.ArgumentCuts
import Parlance.Proofs.Chain
import Parlance.Proofs.Style

/-!
Arguments that are literals and numbers say the same after they have been written in another style:
a literal keeps its value, a number its digits, and the list is cut at the same places.
-/

namespace Parlance

open Source

/-- What an argument says: the value of a literal, or an expression as it is written. -/
inductive Operand where
  | literal (value : Text)
  | expression (code : Text)
deriving DecidableEq, Repr

def Operand.ofText (t : Text) : Operand :=
  match unquote t with
  | some value => .literal value
  | none => .expression (Text.trim t)

/-- What the arguments of an argument list say. -/
def operands (args : Text) : List Operand := (splitArguments args).map Operand.ofText

/-- Whether an argument is a literal in any quotes or a decimal number. -/
def isValue (t : Text) : Bool := (unquote t).isSome || Text.isDecimal t

/-! ## 1. Values -/

def isNumeral (c : Char) : Bool := c.isAlphanum || c = '+' || c = '-' || c = '.'

/-- A value that stands on its own, without blanks around it. -/
inductive IsValueText : Text → Prop
  | literal {quote : Char} {inner : Text} (hq : isQuote quote = true)
      (hi : isLiteralBody quote inner = true) : IsValueText (quote :: inner ++ [quote])
  | number {t : Text} (hne : t ≠ []) (ht : t.all isNumeral = true) : IsValueText t

theorem isBlank_of_isQuote {c : Char} (h : isQuote c = true) : isBlank c = false := by
  simp only [isQuote, Bool.or_eq_true, decide_eq_true_eq] at h
  rcases h with (rfl | rfl) | rfl <;> decide

theorem isBlank_of_isNumeral {c : Char} (h : isNumeral c = true) : isBlank c = false := by
  simp only [isNumeral, Bool.or_eq_true, decide_eq_true_eq] at h
  rcases h with ((h | rfl) | rfl) | rfl
  · exact Text.isBlank_of_isAlphanum h
  all_goals decide

theorem isFlat_of_isNumeral : ∀ c, isNumeral c = true → isFlat c = true :=
  isFlat_of_holds (by decide)
    (isPlain_of_holds (by decide) (by decide) (by decide) (by decide)) (by decide) (by decide)

theorem isNumeral_of_isDigit : ∀ c : Char, c.isDigit = true → isNumeral c = true := by
  intro c h
  simp [isNumeral, Char.isAlphanum, h]

theorem isNumeral_of_toLower {c : Char} (h : c.toLower.isAlpha = true) : isNumeral c = true := by
  by_cases hu : c.val ≥ 'A'.val ∧ c.val ≤ 'Z'.val
  · have halpha : c.isAlpha = true := by
      show (decide (c.val ≥ 'A'.val ∧ c.val ≤ 'Z'.val) || c.isLower) = true
      rw [decide_eq_true hu, Bool.true_or]
    simp [isNumeral, Char.isAlphanum, halpha]
  · have hlower : c.toLower = c := by
      unfold Char.toLower
      rw [dif_neg hu]
    rw [hlower] at h
    simp [isNumeral, Char.isAlphanum, h]

theorem all_isNumeral_unsigned {t : Text} (h : (Text.unsigned t).all isNumeral = true) :
    t.all isNumeral = true := by
  unfold Text.unsigned at h
  split at h
  · rw [List.all_cons, h]; rfl
  · rw [List.all_cons, h]; rfl
  · exact h

theorem all_isNumeral_digits {t : Text} (h : Text.isDigits t = true) : t.all isNumeral = true := by
  simp only [Text.isDigits, Bool.and_eq_true] at h
  exact Text.all_mono isNumeral_of_isDigit h.2

theorem all_isNumeral_exponent {t : Text} (h : Text.isExponent t = true) :
    t.all isNumeral = true := by
  cases t with
  | nil => rfl
  | cons c rest =>
    simp only [Text.isExponent, Bool.and_eq_true, decide_eq_true_eq] at h
    have hc : isNumeral c = true := by
      apply isNumeral_of_toLower
      rw [h.1]
      decide
    rw [List.all_cons, hc, all_isNumeral_unsigned (all_isNumeral_digits h.2)]
    rfl

theorem all_takeWhile_dropWhile {p q : Char → Bool} {t : Text} (hpq : ∀ c, p c = true → q c = true)
    (h : (t.dropWhile p).all q = true) : t.all q = true := by
  rw [← @List.takeWhile_append_dropWhile _ p t, List.all_append, h, Bool.and_true]
  exact Text.all_mono hpq List.all_takeWhile

theorem all_isNumeral_magnitude {t : Text} (h : Text.isMagnitude t = true) :
    t ≠ [] ∧ t.all isNumeral = true := by
  unfold Text.isMagnitude at h
  refine ⟨?_, ?_⟩
  · intro ht
    subst ht
    exact absurd h (by decide)
  apply all_takeWhile_dropWhile isNumeral_of_isDigit
  split at h
  · rename_i rest hrest
    simp only [Bool.and_eq_true] at h
    rw [hrest, List.all_cons,
      all_takeWhile_dropWhile isNumeral_of_isDigit (all_isNumeral_exponent h.2)]
    rfl
  · rename_i rest
    simp only [Bool.and_eq_true] at h
    exact all_isNumeral_exponent h.2

theorem all_isNumeral_named {t : Text} (h : Text.namedNumbers.contains (Text.lower t) = true) :
    t ≠ [] ∧ t.all isNumeral = true := by
  have hlower : Text.lower t ≠ [] ∧ (Text.lower t).all Char.isAlpha = true := by
    rw [List.contains_iff_mem] at h
    have hall : ∀ n ∈ Text.namedNumbers, n ≠ [] ∧ n.all Char.isAlpha = true := by decide
    exact hall _ h
  refine ⟨?_, ?_⟩
  · intro ht
    subst ht
    exact hlower.1 rfl
  · unfold Text.lower at hlower
    rw [List.all_map] at hlower
    exact Text.all_mono (fun c hc => isNumeral_of_toLower hc) hlower.2

theorem isValueText_of_isDecimal {t : Text} (h : Text.isDecimal t = true) : IsValueText t := by
  have hmagnitude : Text.unsigned t ≠ [] ∧ (Text.unsigned t).all isNumeral = true := by
    simp only [Text.isDecimal, Bool.or_eq_true] at h
    rcases h with h | h
    · exact all_isNumeral_named h
    · exact all_isNumeral_magnitude h
  apply IsValueText.number
  · intro ht
    subst ht
    exact hmagnitude.1 rfl
  · exact all_isNumeral_unsigned hmagnitude.2

namespace IsValueText

variable {t : Text}

theorem ne_nil (h : IsValueText t) : t ≠ [] := by
  cases h with
  | literal => simp
  | number hne => exact hne

theorem isTrimmed (h : IsValueText t) : Text.IsTrimmed t := by
  cases h with
  | literal hq =>
    have hblank := isBlank_of_isQuote hq
    refine ⟨by simp [hblank], ?_⟩
    rw [List.getLast?_concat]
    simp [hblank]
  | number _ ht =>
    have hnone : ∀ c ∈ t, isBlank c = false := fun c hc =>
      isBlank_of_isNumeral (List.all_eq_true.1 ht c hc)
    refine ⟨?_, ?_⟩
    · cases hh : t.head? with
      | none => rfl
      | some c => simp [hnone c (List.mem_of_head? hh)]
    · cases hl : t.getLast? with
      | none => rfl
      | some c => simp [hnone c (List.mem_of_getLast? hl)]

theorem marks_cases (h : IsValueText t) :
    finalMode t = .code ∧ ∀ m ∈ marks t,
      m.opens = false ∧ m.closes = false ∧ m.isCode ',' = false := by
  cases h with
  | @literal quote inner hq hi =>
    refine ⟨finalMode_literal hq hi [], ?_⟩
    rw [marks_literal hq hi []]
    -- every character is part of the literal, so no bracket and no comma is code
    intro m hm
    have hlit : m.kind = .literal := by
      simp only [List.cons_append, List.mem_cons, List.mem_append, List.mem_map] at hm
      rcases hm with rfl | ⟨c, -, rfl⟩ | rfl | hm
      · rfl
      · rfl
      · rfl
      · exact absurd hm List.not_mem_nil
    simp [Mark.opens, Mark.closes, Mark.isCode, hlit]
  | number _ ht =>
    have hplain := Text.all_mono isPlain_of_isFlat (Text.all_mono isFlat_of_isNumeral ht)
    refine ⟨finalMode_plain hplain, ?_⟩
    rw [marks_plain hplain]
    intro m hm
    obtain ⟨c, hc, rfl⟩ := List.mem_map.1 hm
    have hn := List.all_eq_true.1 ht c hc
    have hf := isFlat_of_isNumeral c hn
    simp only [isFlat, Bool.and_eq_true, Bool.not_eq_true', ne_eq, decide_eq_true_eq] at hf
    have hcomma : c ≠ ',' :=
      of_decide_eq_true (Text.ne_of_holds (show isNumeral ',' = false by decide) c hn)
    simp [Mark.opens, Mark.closes, Mark.isCode, codeMark, hf, hcomma]

theorem selfContained (h : IsValueText t) : SelfContained t := by
  have hm := h.marks_cases
  have hflat : Unbroken (fun _ => false) (marks t) :=
    unbroken_of_flat fun m hmem => ⟨(hm.2 m hmem).1, (hm.2 m hmem).2.1, rfl⟩
  exact ⟨hm.1, hflat.nested⟩

theorem isArgument (h : IsValueText t) : IsArgument t ∧ finalMode t = .code := by
  obtain ⟨hmode, hflat⟩ := h.marks_cases
  exact ⟨⟨.inl hmode, Brackets.balanced_of_other fun m hm => ⟨(hflat m hm).2.1, (hflat m hm).1⟩,
    hasComma_of_isCode (fun m hm => (hflat m hm).2.2) 0⟩, hmode⟩

theorem splitCommas_eq (h : IsValueText t) : splitCommas [] 0 (marks t) = [t] := by
  rw [h.isArgument.1.splitCommas_eq, h.isTrimmed.trim_eq]

/-- A comma behind a value ends the argument. -/
theorem splitCommas_comma (h : IsValueText t) (rest : Text) :
    splitCommas [] 0 (marks (t ++ ", ".toList ++ rest)) =
      t :: splitCommas [' '] 0 (marks rest) := by
  have hcut := h.isArgument.1.splitCommas_comma h.isArgument.2 (' ' :: rest)
  rw [h.isTrimmed.trim_eq, marks_plain_cons (by decide)] at hcut
  rw [List.append_assoc]
  exact hcut

end IsValueText

/-! ## 2. Literals in another style -/

theorem unquote_literal {quote : Char} (hq : isQuote quote = true) {inner : Text}
    (hi : isLiteralBody quote inner = true) :
    unquote (quote :: inner ++ [quote]) = some (unescape inner) := by
  unfold unquote
  rw [(IsValueText.literal hq hi).isTrimmed.trim_eq]
  simp only [List.cons_append, hq, if_true, splitLiteral_append hq hi []]

theorem unquote_escaped {quote : Char} (hq : isQuote quote = true) {escape : Char → Text}
    (he : Escapes quote escape) (t : Text) :
    unquote (quote :: t.flatMap escape ++ [quote]) = some t := by
  rw [unquote_literal hq (he.isLiteralBody_flatMap t), he.unescape_flatMap]

/-- What has a value as a literal is one, but for blanks around it. -/
theorem exists_literal_of_unquote {t value : Text} (h : unquote t = some value) :
    ∃ quote inner, isQuote quote = true ∧ isLiteralBody quote inner = true ∧
      Text.trim t = quote :: inner ++ [quote] ∧ value = unescape inner := by
  unfold unquote at h
  split at h
  · simp at h
  · rename_i quote rest ht
    by_cases hq : isQuote quote = true
    · rw [if_pos hq] at h
      split at h
      · rename_i inner hs
        obtain ⟨rfl, hi⟩ := of_splitLiteral hs
        exact ⟨quote, inner, hq, hi, ht, (Option.some.inj h).symm⟩
      · simp at h
    · rw [if_neg hq] at h
      simp at h

theorem unquote_trim (t : Text) : unquote (Text.trim t) = unquote t := by
  unfold unquote
  rw [(Text.isTrimmed_trim t).trim_eq]

theorem isValueText_trim {t : Text} (h : isValue t = true) : IsValueText (Text.trim t) := by
  cases hv : unquote t with
  | some value =>
    obtain ⟨quote, inner, hq, hi, ht, -⟩ := exists_literal_of_unquote hv
    exact ht ▸ .literal hq hi
  | none =>
    have hvalue : IsValueText t := by
      simp only [isValue, hv, Option.isSome_none, Bool.false_or] at h
      exact isValueText_of_isDecimal h
    rwa [hvalue.isTrimmed.trim_eq]

theorem length_unescape (t : Text) : (unescape t).length ≤ t.length := by
  fun_induction unescape t with
  | case1 => exact Nat.le_refl 0
  | case2 c rest ih =>
    simp only [List.length_cons]
    omega
  | case3 c rest _ ih =>
    simp only [List.length_cons]
    omega

/-- Its quotes make a literal longer than its value. -/
theorem length_of_unquote {t value : Text} (h : unquote t = some value) :
    value.length + 2 ≤ t.length := by
  obtain ⟨quote, inner, -, -, ht, rfl⟩ := exists_literal_of_unquote h
  obtain ⟨before, after, -, -, he⟩ := Text.exists_trim t
  have hinner := length_unescape inner
  -- the value may only be shorter than what stands between the quotes
  rw [he, ht]
  simp only [List.length_append, List.length_cons, List.length_nil]
  omega

namespace Style

theorem isValueText_literal (s : Style) (t : Text) : IsValueText (s.literal t) :=
  .literal s.quote.isQuote_char (s.quote.isLiteralBody_escape t)

theorem unquote_literal (s : Style) (t : Text) : unquote (s.literal t) = some t :=
  unquote_escaped s.quote.isQuote_char s.quote.escapes t

/-- In another style an expression is only trimmed, unless it is a literal and becomes another
one. -/
theorem requote_cases (s : Style) (t : Text) :
    s.requote t = Text.trim t ∨
      ∃ value, unquote t = some value ∧ s.requote t = s.literal value := by
  simp only [requote, unquote_trim]
  cases hv : unquote t with
  | none => exact .inl (ite_self _)
  | some value =>
    by_cases hb : Text.firstIs (· = '\x60') (Text.trim t) = true
    · -- a template literal stays as it is
      exact .inl (if_pos hb)
    · exact .inr ⟨value, rfl, if_neg hb⟩

/-- A value in another style is a value and says the same. -/
theorem requote_spec (s : Style) {t : Text} (h : isValue t = true) :
    IsValueText (s.requote t) ∧ Operand.ofText (s.requote t) = Operand.ofText t := by
  rcases s.requote_cases t with hsame | ⟨value, hv, hliteral⟩
  · rw [hsame]
    refine ⟨isValueText_trim h, ?_⟩
    simp only [Operand.ofText, unquote_trim, (Text.isTrimmed_trim t).trim_eq]
  · rw [hliteral]
    refine ⟨s.isValueText_literal value, ?_⟩
    simp only [Operand.ofText, s.unquote_literal, hv]

end Style

/-! ## 3. Argument lists -/

theorem splitArguments_ne_nil {t : Text} (h : Text.allBlank t = false) : splitArguments t ≠ [] := by
  unfold splitArguments
  rw [h, if_neg Bool.false_ne_true]
  exact splitCommas_ne_nil _ _ _

theorem marks_comma {a : Text} (h : SelfContained a) (t : Text) :
    marks (a ++ ", ".toList ++ t) = marks a ++ codeMark ',' :: codeMark ' ' :: marks t := by
  show marks (a ++ [',', ' '] ++ t) = _
  rw [List.append_assoc, List.cons_append, List.singleton_append,
    h.marks_append_cons (by decide) (by decide), marks_plain_cons (by decide)]

theorem selfContained_comma {a t : Text} (ha : SelfContained a) (ht : SelfContained t) :
    SelfContained (a ++ ", ".toList ++ t) := by
  refine ⟨?_, ?_⟩
  · show finalMode (a ++ [',', ' '] ++ t) = _
    rw [List.append_assoc, List.cons_append, List.singleton_append,
      ha.finalMode_append_cons (by decide) (by decide), finalMode_plain_cons (by decide)]
    exact ht.mode
  · rw [marks_comma ha]
    exact ha.nested.append
      (.plain (by decide) (by decide) (.plain (by decide) (by decide) ht.nested))

theorem selfContained_join {parts : List Text} (h : ∀ t ∈ parts, SelfContained t) :
    SelfContained (Text.join ", " parts) := by
  unfold Text.join
  induction parts with
  | nil => exact ⟨rfl, .nil⟩
  | cons t parts ih =>
    have ht := h t List.mem_cons_self
    cases parts with
    | nil =>
      rw [List.intercalate_singleton]
      exact ht
    | cons u parts =>
      rw [List.intercalate_cons_cons]
      exact selfContained_comma ht (ih fun v hv => h v (List.mem_cons_of_mem t hv))

/-- The list of some values behind a blank is cut between them. -/
theorem splitCommas_join {vs : List Text} (hvs : ∀ v ∈ vs, IsValueText v) (hne : vs ≠ []) :
    splitCommas [' '] 0 (marks (Text.join ", " vs)) = vs := by
  have hgap : [' '].all isBlank = true := by decide
  have hcut := (splitCommas_join_arguments hne (fun v hv => (hvs v hv).isArgument) hgap).2
  rw [List.singleton_append, marks_plain_cons (by decide)] at hcut
  have htrim : vs.map Text.trim = vs :=
    (List.map_congr_left fun v hv => (hvs v hv).isTrimmed.trim_eq).trans (List.map_id vs)
  exact hcut.trans htrim

theorem isTrimmed_join {vs : List Text} (hvs : ∀ v ∈ vs, IsValueText v) :
    Text.IsTrimmed (Text.join ", " vs) ∧ (vs ≠ [] → Text.join ", " vs ≠ []) := by
  unfold Text.join
  induction vs with
  | nil => exact ⟨⟨rfl, rfl⟩, fun h => absurd rfl h⟩
  | cons v vs ih =>
    have hv := hvs v List.mem_cons_self
    cases vs with
    | nil =>
      rw [List.intercalate_singleton]
      exact ⟨hv.isTrimmed, fun _ => hv.ne_nil⟩
    | cons w vs =>
      obtain ⟨htrim, hne⟩ := ih fun u hu => hvs u (List.mem_cons_of_mem v hu)
      rw [List.intercalate_cons_cons]
      refine ⟨?_, ?_⟩
      · rw [List.append_assoc]
        exact hv.isTrimmed.append hv.ne_nil (Text.last_append (hne (by simp)) htrim.last)
      intro _ h
      exact hv.ne_nil (List.append_eq_nil_iff.1 (List.append_eq_nil_iff.1 h).1).1

theorem splitArguments_join {vs : List Text} (hvs : ∀ v ∈ vs, IsValueText v) :
    splitArguments (Text.join ", " vs) = vs := by
  have hne : vs ≠ [[]] := by
    rintro rfl
    exact (hvs [] List.mem_cons_self).ne_nil rfl
  exact ((splitArguments_join_iff hne fun v hv =>
    ⟨(hvs v hv).isTrimmed, (hvs v hv).isArgument.1⟩).2 fun v hv => (hvs v hv).isArgument.2).2

namespace Route

variable (r : Route)

/-- Arguments in another style are the list of their values in this style. -/
theorem exists_arguments {args : Text} (h : (splitArguments args).all isValue = true) :
    ∃ vs, (∀ v ∈ vs, IsValueText v) ∧ r.arguments args = Text.join ", " vs ∧
      vs.map Operand.ofText = operands args := by
  have hall := List.all_eq_true.1 h
  refine ⟨(splitArguments args).map r.style.requote, ?_, rfl, ?_⟩
  · intro v hv
    obtain ⟨a, ha, rfl⟩ := List.mem_map.1 hv
    exact (r.style.requote_spec (hall a ha)).1
  · unfold operands
    rw [List.map_map]
    apply List.map_congr_left
    intro a ha
    exact (r.style.requote_spec (hall a ha)).2

theorem operands_arguments {args : Text} (h : (splitArguments args).all isValue = true) :
    operands (r.arguments args) = operands args := by
  obtain ⟨vs, hvs, hargs, hsay⟩ := r.exists_arguments h
  rw [hargs, ← hsay, operands, splitArguments_join hvs]

theorem selfContained_arguments {args : Text} (h : (splitArguments args).all isValue = true) :
    SelfContained (r.arguments args) := by
  obtain ⟨vs, hvs, hargs, -⟩ := r.exists_arguments h
  rw [hargs]
  exact selfContained_join fun v hv => (hvs v hv).selfContained

theorem trim_arguments {args : Text} (h : (splitArguments args).all isValue = true) :
    Text.trim (r.arguments args) = r.arguments args := by
  obtain ⟨vs, hvs, hargs, -⟩ := r.exists_arguments h
  rw [hargs]
  exact (isTrimmed_join hvs).1.trim_eq

end Route

/-- A literal is an argument list of one. -/
theorem splitArguments_of_unquote {t value : Text} (h : unquote t = some value) :
    splitArguments t = [Text.trim t] := by
  obtain ⟨quote, inner, hq, hi, ht, -⟩ := exists_literal_of_unquote h
  obtain ⟨before, after, hb, ha, he⟩ := Text.exists_trim t
  have hv : IsValueText (Text.trim t) := ht ▸ .literal hq hi
  obtain ⟨hfront, hmode⟩ := hv.isArgument.1.blanks_append hb
  have hargument := hfront.append_blanks ha (hmode.trans hv.isArgument.2)
  rw [← he] at hargument
  have hnonblank : Text.allBlank t = false := by
    cases hall : Text.allBlank t with
    | false => rfl
    | true => exact absurd (Text.trim_of_allBlank hall) hv.ne_nil
  unfold splitArguments
  rw [hnonblank, if_neg Bool.false_ne_true, hargument.splitCommas_eq]

end Parlance
