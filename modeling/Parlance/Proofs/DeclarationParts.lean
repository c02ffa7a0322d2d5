import Parlance.Declaration.Slot
import Parlance.Proofs.Lexical
import Parlance.Proofs.Pattern
import Parlance.Proofs.Text

/-!
The parts of a declaration: its title is a literal, its callback ends with the brace that opens the
block, and at one place there is at most one such callback.
-/

namespace Parlance.Slot

open Pattern Source

/-! ## 1. Titles -/

/-- Whether a text can be a title between two quotes of one sort: the contents of a literal in which
no backslash stands before a line feed. -/
def isTitleBody (quote : Char) : Text → Bool
  | [] => true
  | '\\' :: c :: rest => c ≠ '\n' && isTitleBody quote rest
  | c :: rest => c ≠ quote && c ≠ '\\' && isTitleBody quote rest

theorem isLiteralBody_of_isTitleBody {quote : Char} {t : Text}
    (h : isTitleBody quote t = true) : isLiteralBody quote t = true := by
  fun_induction isTitleBody quote t with
  | case1 => rfl
  | case2 c rest ih =>
    rw [Bool.and_eq_true] at h
    exact ih h.2
  | case3 c rest hesc ih =>
    rw [Bool.and_eq_true] at h
    rw [isLiteralBody]
    · rw [h.1, ih h.2]
      rfl
    · exact hesc

theorem takes_titlePart {quote : Char} {last : Option Char} {s rest : Text} {kept : Kept} :
    (noneOf [quote, '\\'] <|> one '\\' ++ char (· ≠ '\n')).Takes last s rest kept ↔
      ((∃ c, s = [c] ∧ c ≠ quote ∧ c ≠ '\\') ∨ ∃ c, s = ['\\', c] ∧ c ≠ '\n') ∧ kept = {} := by
  rw [takes_orElse, noneOf, takes_char, takes_append]
  constructor
  · rintro (⟨c, rfl, hc, rfl⟩ | ⟨s₁, s₂, _, _, rfl, h₁, h₂, rfl⟩)
    · exact ⟨.inl ⟨c, rfl, by simpa using hc⟩, rfl⟩
    · obtain ⟨rfl, rfl⟩ := takes_one.1 h₁
      obtain ⟨c, rfl, hc, rfl⟩ := takes_char.1 h₂
      exact ⟨.inr ⟨c, rfl, by simpa using hc⟩, rfl⟩
  · rintro ⟨⟨c, rfl, hc⟩ | ⟨c, rfl, hc⟩, rfl⟩
    · exact .inl ⟨c, rfl, by simpa using hc, rfl⟩
    · exact .inr ⟨['\\'], [c], {}, {}, rfl, takes_one.2 ⟨rfl, rfl⟩,
        takes_char.2 ⟨c, rfl, by simpa using hc, rfl⟩, rfl⟩

theorem takes_titleBody {quote : Char} {last : Option Char} {s rest : Text} {kept : Kept} :
    (many (noneOf [quote, '\\'] <|> one '\\' ++ char (· ≠ '\n'))).Takes last s rest kept ↔
      isTitleBody quote s = true ∧ kept = {} := by
  rw [takes_many]
  constructor
  · refine @TakesRepeated.induct _ (fun s kept => isTitleBody quote s = true ∧ kept = {})
      ⟨rfl, rfl⟩ ?_ _ _ _ _ _
    rintro last s₁ s₂ rest kept₁ kept₂ h₁ ⟨h₂, rfl⟩
    obtain ⟨⟨c, rfl, hq, hb⟩ | ⟨c, rfl, hn⟩, rfl⟩ := takes_titlePart.1 h₁
    · refine ⟨?_, rfl⟩
      rw [List.singleton_append, isTitleBody]
      · simp [hq, hb, h₂]
      · intro d r hd
        exact absurd hd hb
    · exact ⟨by simp [isTitleBody, hn, h₂], rfl⟩
  · rintro ⟨hs, rfl⟩
    fun_induction isTitleBody quote s generalizing last with
    | case1 => exact takesRepeated_iff.2 (.inl ⟨rfl, rfl⟩)
    | case2 c t ih =>
      simp only [Bool.and_eq_true, ne_eq, decide_eq_true_eq] at hs
      exact takesRepeated_iff.2 (.inr ⟨['\\', c], t, {}, {}, by simp, rfl,
        takes_titlePart.2 ⟨.inr ⟨c, rfl, hs.1⟩, rfl⟩, ih hs.2, rfl⟩)
    | case3 c t hesc ih =>
      simp only [Bool.and_eq_true, ne_eq, decide_eq_true_eq] at hs
      exact takesRepeated_iff.2 (.inr ⟨[c], t, {}, {}, by simp, rfl,
        takes_titlePart.2 ⟨.inl ⟨c, rfl, hs.1⟩, rfl⟩, ih hs.2, rfl⟩)

theorem takes_quotedTitle {quote : Char} {last : Option Char} {s rest : Text} {kept : Kept} :
    (quotedTitle quote).Takes last s rest kept ↔
      ∃ inner, s = quote :: (inner ++ [quote]) ∧ isTitleBody quote inner = true ∧
        kept = ⟨some inner, none⟩ := by
  rw [quotedTitle, takes_append_one]
  constructor
  · rintro ⟨s₁, rfl, h⟩
    obtain ⟨s₂, inner, _, _, rfl, h₂, h₃, rfl⟩ := takes_append.1 h
    obtain ⟨rfl, rfl⟩ := takes_one.1 h₂
    obtain ⟨_, h₄, rfl⟩ := takes_keep.1 h₃
    obtain ⟨hi, rfl⟩ := takes_titleBody.1 h₄
    exact ⟨inner, rfl, hi, rfl⟩
  · rintro ⟨inner, rfl, hi, rfl⟩
    exact ⟨quote :: inner, rfl, takes_append.2 ⟨[quote], inner, {}, ⟨some inner, none⟩, rfl,
      takes_one.2 ⟨rfl, rfl⟩, takes_keep.2 ⟨{}, takes_titleBody.2 ⟨hi, rfl⟩, rfl⟩, rfl⟩⟩

theorem takes_title {last : Option Char} {s rest : Text} {kept : Kept} :
    title.Takes last s rest kept ↔
      ∃ b q inner, s = b ++ q :: (inner ++ [q]) ∧ b.all isBlank = true ∧ isQuote q = true ∧
        isTitleBody q inner = true ∧ kept = ⟨some inner, none⟩ := by
  rw [title, takes_append]
  constructor
  · rintro ⟨b, s₂, _, _, rfl, h₁, h₂, rfl⟩
    obtain ⟨hb, rfl⟩ := takes_blanks.1 h₁
    rw [takes_orElse, takes_orElse] at h₂
    rcases h₂ with h₂ | h₂ | h₂ <;>
    · obtain ⟨inner, rfl, hi, rfl⟩ := takes_quotedTitle.1 h₂
      exact ⟨b, _, inner, rfl, hb, rfl, hi, rfl⟩
  · rintro ⟨b, q, inner, rfl, hb, hq, hi, rfl⟩
    refine ⟨b, _, {}, ⟨some inner, none⟩, rfl, takes_blanks.2 ⟨hb, rfl⟩, ?_, rfl⟩
    have h {last : Option Char} : (quotedTitle q).Takes last (q :: (inner ++ [q])) rest
        ⟨some inner, none⟩ := takes_quotedTitle.2 ⟨inner, rfl, hi, rfl⟩
    simp only [isQuote, Bool.or_eq_true, decide_eq_true_eq] at hq
    rw [takes_orElse, takes_orElse]
    rcases hq with (rfl | rfl) | rfl
    · exact .inl h
    · exact .inr (.inl h)
    · exact .inr (.inr h)

/-! ## 2. Words and parentheses -/

/-- The texts that a head can be: a name, with or without a modifier. -/
def headTexts (names modifiers : List Text) : List Text :=
  names.flatMap fun name => name :: modifiers.map (name ++ ·)

theorem mem_headTexts {names modifiers : List Text} {s : Text} :
    s ∈ headTexts names modifiers ↔
      ∃ name ∈ names, s = name ∨ ∃ modifier ∈ modifiers, s = name ++ modifier := by
  simp only [headTexts, List.mem_flatMap, List.mem_cons, List.mem_map, eq_comm]

section Parts

variable {last : Option Char} {s rest : Text} {kept : Kept}

theorem takes_optional_words {ts : List Text} :
    (optional (words ts)).Takes last s rest kept ↔ (s = [] ∨ s ∈ ts) ∧ kept = {} := by
  rw [takes_optional, takes_words, ← or_and_right, or_comm]

theorem takes_modifier {modifiers : List Text} :
    (if modifiers.isEmpty then empty else optional (words modifiers)).Takes last s rest kept ↔
      (s = [] ∨ s ∈ modifiers) ∧ kept = {} := by
  split
  · rename_i hm
    rw [List.isEmpty_iff] at hm
    simp [hm, takes_empty]
  · exact takes_optional_words

/-- A head is one of its texts at the beginning of a word. -/
theorem takes_head {names modifiers : List Text} :
    (head names modifiers).Takes last s rest kept ↔
      s ∈ headTexts names modifiers ∧ (Point.mk last (s ++ rest)).isWordEdge = true ∧
        kept = {} := by
  rw [head, takes_append, mem_headTexts]
  constructor
  · rintro ⟨s₁, modifier, _, _, rfl, h, h₃, rfl⟩
    obtain ⟨s₂, name, _, _, rfl, h₁, h₂, rfl⟩ := takes_append.1 h
    obtain ⟨rfl, he, rfl⟩ := takes_wordEdge.1 h₁
    obtain ⟨hn, rfl⟩ := takes_words.1 h₂
    obtain ⟨hm, rfl⟩ := takes_modifier.1 h₃
    refine ⟨⟨name, hn, ?_⟩, by simpa using he, rfl⟩
    rcases hm with rfl | hm
    · exact .inl (by simp)
    · exact .inr ⟨modifier, hm, rfl⟩
  · rintro ⟨⟨name, hn, hs⟩, he, rfl⟩
    obtain ⟨modifier, rfl, hm⟩ : ∃ modifier, s = name ++ modifier ∧
        (modifier = [] ∨ modifier ∈ modifiers) := by
      rcases hs with rfl | ⟨modifier, hm, rfl⟩
      · exact ⟨[], by simp, .inl rfl⟩
      · exact ⟨modifier, rfl, .inr hm⟩
    refine ⟨name, modifier, {}, {}, rfl, ?_, takes_modifier.2 ⟨hm, rfl⟩, rfl⟩
    refine takes_append.2 ⟨[], name, {}, {}, rfl, ?_, takes_words.2 ⟨hn, rfl⟩, rfl⟩
    exact takes_wordEdge.2 ⟨rfl, by simpa using he, rfl⟩

/-- What stands before the parenthesis of a head, with the parenthesis. -/
theorem takes_lead {h : Pattern} :
    (h ++ blanks ++ one '(').Takes last s rest kept ↔
      ∃ w b, s = w ++ (b ++ ['(']) ∧ b.all isBlank = true ∧
        h.Takes last w (b ++ '(' :: rest) kept := by
  rw [takes_append_one]
  constructor
  · rintro ⟨s₁, rfl, h₁⟩
    obtain ⟨w, b, rfl, hb, hw⟩ := takes_append_blanks.1 h₁
    exact ⟨w, b, by simp, hb, hw⟩
  · rintro ⟨w, b, rfl, hb, hw⟩
    exact ⟨w ++ b, by simp, takes_append_blanks.2 ⟨w, b, rfl, hb, hw⟩⟩

/-- The title of a head with its comma. -/
theorem takes_title_comma {p : Pattern} (hp : p.keepsNothing = true) :
    (p ++ title ++ blanks ++ one ',').Takes last s rest kept ↔
      ∃ s₁ b q inner b', s = s₁ ++ (b ++ q :: (inner ++ q :: (b' ++ [',']))) ∧
        b.all isBlank = true ∧ isQuote q = true ∧ isTitleBody q inner = true ∧
        b'.all isBlank = true ∧
        p.Takes last s₁ (b ++ q :: (inner ++ q :: (b' ++ ',' :: rest))) {} ∧
        kept = ⟨some inner, none⟩ := by
  rw [takes_append_one]
  constructor
  · rintro ⟨_, rfl, h⟩
    obtain ⟨s₂, b', rfl, hb', h⟩ := takes_append_blanks.1 h
    obtain ⟨s₁, s₂, kept₁, _, rfl, h₁, h₂, rfl⟩ := takes_append.1 h
    obtain ⟨b, q, inner, rfl, hb, hq, hi, rfl⟩ := takes_title.1 h₂
    obtain rfl := h₁.kept_eq hp
    exact ⟨s₁, b, q, inner, b', by simp, hb, hq, hi, hb', by simpa using h₁, rfl⟩
  · rintro ⟨s₁, b, q, inner, b', rfl, hb, hq, hi, hb', h₁, rfl⟩
    refine ⟨s₁ ++ (b ++ q :: (inner ++ [q])) ++ b', by simp, ?_⟩
    refine takes_append_blanks.2 ⟨_, b', rfl, hb', ?_⟩
    refine takes_append.2 ⟨s₁, _, {}, ⟨some inner, none⟩, rfl, by simpa using h₁, ?_, rfl⟩
    exact takes_title.2 ⟨b, q, inner, rfl, hb, hq, hi, rfl⟩

end Parts

/-! ## 3. Callbacks -/

/-- The characters of a callback without fixtures, up to its brace. -/
def isCallbackChar (c : Char) : Bool :=
  isBlank c || isWord c || "()=>".toList.contains c

theorem isCallbackChar_of_isBlank {c : Char} (h : isBlank c = true) : isCallbackChar c = true := by
  simp [isCallbackChar, h]

theorem isCallbackChar_of_isWord {c : Char} (h : isWord c = true) : isCallbackChar c = true := by
  simp [isCallbackChar, h]

theorem within_blanks_callback : blanks.Within isCallbackChar :=
  fun _ => isCallbackChar_of_isBlank

theorem within_maybeAsync : maybeAsync.Within isCallbackChar := by
  rw [maybeAsync, within_optional, within_append, within_word]
  exact ⟨by decide, within_blanks_callback⟩

theorem within_noParameters : noParameters.Within isCallbackChar := by
  rw [noParameters, within_append, within_append, within_one, within_one]
  exact ⟨⟨by decide, within_blanks_callback⟩, by decide⟩

theorem takes_callback {last : Option Char} {s rest : Text} {kept : Kept}
    (h : callback.Takes last s rest kept) :
    ∃ x, s = x ++ ['\x7b'] ∧ x.all isCallbackChar = true := by
  obtain ⟨x, rfl, h₁⟩ := takes_append_one.1 h
  refine ⟨x, rfl, h₁.all ?_⟩
  simp only [within_append, within_orElse, within_word]
  have hword : (many (char isWord)).Within isCallbackChar := fun _ => isCallbackChar_of_isWord
  have hb := within_blanks_callback
  have hn := within_noParameters
  exact ⟨⟨⟨hb, within_maybeAsync⟩, ⟨⟨hn, hb⟩, by decide⟩,
    ⟨⟨⟨by decide, hb⟩, hword⟩, hb⟩, hn⟩, hb⟩

theorem takes_fixtures {last : Option Char} {s rest : Text} {kept : Kept}
    (h : (optional (one '\x7b' ++ many (noneOf ['\x7d']) ++ one '\x7d')).Takes last s rest kept) :
    s = [] ∨ ∃ z, s = '\x7b' :: (z ++ ['\x7d']) ∧ z.all (· ≠ '\x7d') = true := by
  rcases takes_optional.1 h with h₁ | ⟨rfl, -⟩
  · obtain ⟨s₁, rfl, h₂⟩ := takes_append_one.1 h₁
    obtain ⟨s₂, z, _, _, rfl, h₃, h₄, -⟩ := takes_append.1 h₂
    obtain ⟨rfl, -⟩ := takes_one.1 h₃
    obtain ⟨hz, -⟩ := takes_many_char.1 h₄
    exact .inr ⟨z, rfl, by simpa using hz⟩
  · exact .inl rfl

/-- A callback with fixtures: a parenthesis before them, an arrow behind them. -/
theorem takes_fixtureCallback {last : Option Char} {s rest : Text} {kept : Kept}
    (h : fixtureCallback.Takes last s rest kept) :
    ∃ x b fixtures y b', s = x ++ '(' :: b ++ (fixtures ++ (y ++ '>' :: b' ++ ['\x7b'])) ∧
      x.all isCallbackChar = true ∧ b.all isBlank = true ∧ y.all isCallbackChar = true ∧
      b'.all isBlank = true ∧
      (fixtures = [] ∨
        ∃ z, fixtures = '\x7b' :: (z ++ ['\x7d']) ∧ z.all (· ≠ '\x7d') = true) := by
  -- from the brace at the end back to the blanks at the beginning
  obtain ⟨_, rfl, h₁⟩ := takes_append_one.1 h
  obtain ⟨_, b', rfl, hb', h₂⟩ := takes_append_blanks.1 h₁
  obtain ⟨_, arrow, _, _, rfl, h₃, harrow, -⟩ := takes_append.1 h₂
  obtain ⟨rfl, -⟩ := takes_word.1 harrow
  obtain ⟨_, b₂, rfl, hb₂, h₄⟩ := takes_append_blanks.1 h₃
  obtain ⟨_, rfl, h₅⟩ := takes_append_one.1 h₄
  obtain ⟨_, b₁, rfl, hb₁, h₆⟩ := takes_append_blanks.1 h₅
  obtain ⟨_, fixtures, _, _, rfl, h₇, hf, -⟩ := takes_append.1 h₆
  obtain ⟨_, b, rfl, hb, h₈⟩ := takes_append_blanks.1 h₇
  obtain ⟨x, rfl, h₉⟩ := takes_append_one.1 h₈
  have hx := h₉.all (within_append.2 ⟨within_blanks_callback, within_maybeAsync⟩)
  refine ⟨x, b, fixtures, b₁ ++ ')' :: b₂ ++ ['='], b', by simp, hx, hb, ?_, hb',
    takes_fixtures hf⟩
  have hblank {t : Text} (ht : t.all isBlank = true) : t.all isCallbackChar = true :=
    Text.all_mono (fun _ => isCallbackChar_of_isBlank) ht
  simp [hblank hb₁, hblank hb₂, show isCallbackChar ')' = true by decide,
    show isCallbackChar '=' = true by decide]

theorem all_ne_brace {t : Text} (h : t.all isCallbackChar = true) :
    t.all (· ≠ '\x7b') = true :=
  Text.all_mono (Text.ne_of_holds (by decide)) h

theorem blanks_ne_brace {t : Text} (h : t.all isBlank = true) : t.all (· ≠ '\x7b') = true :=
  Text.all_mono (Text.ne_of_holds (by decide)) h

theorem callback_isUnambiguous : callback.IsUnambiguous := by
  intro last s s' rest rest' kept kept' ht h h'
  obtain ⟨x, rfl, hx⟩ := takes_callback h
  obtain ⟨x', rfl, hx'⟩ := takes_callback h'
  rw [List.append_assoc, List.append_assoc] at ht
  obtain ⟨rfl, -⟩ := Text.cut_unique ht (all_ne_brace hx) (all_ne_brace hx') (by decide) (by decide)
  rfl

section Fixtures

variable {x b y e x' b' y' e' : Text}

theorem beforeFixtures_ne_brace (hx : x.all isCallbackChar = true) (hb : b.all isBlank = true) :
    (x ++ '(' :: b).all (· ≠ '\x7b') = true := by
  rw [List.all_append, List.all_cons, all_ne_brace hx, blanks_ne_brace hb]
  rfl

theorem afterFixtures_ne_brace (hy : y.all isCallbackChar = true) (he : e.all isBlank = true) :
    (y ++ '>' :: e).all (· ≠ '\x7b') = true := by
  rw [List.all_append, List.all_cons, all_ne_brace hy, blanks_ne_brace he]
  rfl

theorem withoutFixtures_ne_brace (hx : x.all isCallbackChar = true) (hb : b.all isBlank = true)
    (hy : y.all isCallbackChar = true) (he : e.all isBlank = true) :
    ((x ++ '(' :: b) ++ (y ++ '>' :: e)).all (· ≠ '\x7b') = true := by
  rw [List.all_append, beforeFixtures_ne_brace hx hb, afterFixtures_ne_brace hy he]
  rfl

/-- With fixtures the first brace stands behind the parenthesis, without them behind the arrow. -/
theorem withoutFixtures_ne_with {r r' : Text} (hx : x.all isCallbackChar = true)
    (hb : b.all isBlank = true) (hy : y.all isCallbackChar = true) (he : e.all isBlank = true)
    (hx' : x'.all isCallbackChar = true) (hb' : b'.all isBlank = true) :
    ((x ++ '(' :: b) ++ (y ++ '>' :: e)) ++ '\x7b' :: r ≠ (x' ++ '(' :: b') ++ '\x7b' :: r' := by
  intro ht
  obtain ⟨h, -⟩ := Text.cut_unique ht (withoutFixtures_ne_brace hx hb hy he)
    (beforeFixtures_ne_brace hx' hb') (by decide) (by decide)
  have hlast : ((x ++ '(' :: b) ++ y) ++ '>' :: e = x' ++ '(' :: b' := by rw [← h]; simp
  exact absurd (Text.cut_last_unique hlast he hb' (by decide) (by decide)).2.1 (by decide)

end Fixtures

theorem fixtureCallback_isUnambiguous : fixtureCallback.IsUnambiguous := by
  intro last s s' rest rest' kept kept' ht h h'
  obtain ⟨x, b, f, y, e, rfl, hx, hb, hy, he, hf⟩ := takes_fixtureCallback h
  obtain ⟨x', b', f', y', e', rfl, hx', hb', hy', he', hf'⟩ := takes_fixtureCallback h'
  rcases hf with rfl | ⟨z, rfl, hz⟩ <;> rcases hf' with rfl | ⟨z', rfl, hz'⟩
  · have ht : ((x ++ '(' :: b) ++ (y ++ '>' :: e)) ++ '\x7b' :: rest =
        ((x' ++ '(' :: b') ++ (y' ++ '>' :: e')) ++ '\x7b' :: rest' := by simpa using ht
    -- without fixtures the first brace ends the callback
    obtain ⟨heq, -⟩ := Text.cut_unique ht (withoutFixtures_ne_brace hx hb hy he)
      (withoutFixtures_ne_brace hx' hb' hy' he') (by decide) (by decide)
    have heq := congrArg (· ++ ['\x7b']) heq
    simpa using heq
  · exact absurd (by simpa using ht) (withoutFixtures_ne_with hx hb hy he hx' hb')
  · exact absurd (by simpa using ht.symm) (withoutFixtures_ne_with hx' hb' hy' he' hx hb)
  · have ht : (x ++ '(' :: b) ++ '\x7b' :: (z ++ '\x7d' :: ((y ++ '>' :: e) ++ '\x7b' :: rest)) =
        (x' ++ '(' :: b') ++
          '\x7b' :: (z' ++ '\x7d' :: ((y' ++ '>' :: e') ++ '\x7b' :: rest')) := by
      simpa using ht
    -- with fixtures on both sides: up to their brace, between the braces, and behind them
    obtain ⟨h₁, -, ht₁⟩ := Text.cut_unique ht (beforeFixtures_ne_brace hx hb)
      (beforeFixtures_ne_brace hx' hb') (by decide) (by decide)
    obtain ⟨rfl, -, ht₂⟩ := Text.cut_unique ht₁ hz hz' (by decide) (by decide)
    obtain ⟨h₂, -⟩ := Text.cut_unique ht₂ (afterFixtures_ne_brace hy he)
      (afterFixtures_ne_brace hy' he') (by decide) (by decide)
    rw [h₁, h₂]

end Parlance.Slot
