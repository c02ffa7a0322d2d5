import Mathlib.Data.List.Infix
import Parlance.Proofs.Text
import Parlance.Toml.Writer

/-!
Strings of a TOML file. Whichever of the four forms a text is written in, it is read back, and
reading stops behind the closing quotes.
-/

namespace Parlance.Toml

/-! ## 1. Escapes -/

/-- The code of a control character names it. -/
theorem codePoint?_codeEscape {n : Nat} (h : n < 32 ∨ n = 127) :
    ∃ a b, codeEscape (Char.ofNat n) = ['\\', 'u', '0', '0', a, b] ∧
      codePoint? ['0', '0', a, b] = some (Char.ofNat n) := by
  have hall : ∀ n < 128, (n < 32 ∨ n = 127) →
      codePoint? ((codeEscape (Char.ofNat n)).drop 2) = some (Char.ofNat n) := by decide +kernel
  exact ⟨_, _, rfl, hall n (by omega) h⟩

/-- Between double quotes a character stands as itself, or for itself behind a backslash: by a letter
or by its code. -/
theorem escape_cases (keepBreaks : Bool) (c : Char) :
    (∃ d, escape keepBreaks c = ['\\', d] ∧ escaped? d = some c) ∨
    (∃ a b, escape keepBreaks c = ['\\', 'u', '0', '0', a, b] ∧
      codePoint? ['0', '0', a, b] = some c) ∨
    (escape keepBreaks c = [c] ∧ c ≠ '"' ∧ c ≠ '\\' ∧
      (isPlain c = true ∨ keepBreaks = true ∧ c = '\n')) := by
  unfold escape
  split_ifs with hb ht hn hkeep hf hr hq hs hcode
  · exact .inl ⟨'b', rfl, by rw [hb]; rfl⟩
  · exact .inl ⟨'t', rfl, by rw [ht]; rfl⟩
  · exact .inr (.inr ⟨by rw [hn], by rw [hn]; decide, by rw [hn]; decide, .inr ⟨hkeep, hn⟩⟩)
  · exact .inl ⟨'n', rfl, by rw [hn]; rfl⟩
  · exact .inl ⟨'f', rfl, by rw [hf]; rfl⟩
  · exact .inl ⟨'r', rfl, by rw [hr]; rfl⟩
  · exact .inl ⟨'"', rfl, by rw [hq]; rfl⟩
  · exact .inl ⟨'\\', rfl, by rw [hs]; rfl⟩
  · obtain ⟨a, b, hwritten, hpoint⟩ := codePoint?_codeEscape (n := c.toNat) (by simpa using hcode)
    rw [Char.ofNat_toNat] at hwritten hpoint
    exact .inr (.inl ⟨a, b, hwritten, hpoint⟩)
  · refine .inr (.inr ⟨rfl, hq, hs, .inl ?_⟩)
    simp only [Bool.or_eq_true, decide_eq_true_eq] at hcode
    simp only [isPlain, Bool.or_eq_true, Bool.and_eq_true, decide_eq_true_eq]
    omega

/-- The letters of escapes are none that begin a code and no blanks. -/
theorem letter_of_escaped? {c d : Char} (h : escaped? d = some c) :
    d ∈ ['b', 't', 'n', 'f', 'r', '"', '\\'] := by
  by_contra hd
  simp only [List.mem_cons, List.not_mem_nil, or_false, not_or] at hd
  simp [escaped?, List.lookup_cons, beq_false_of_ne, hd] at h

/-! ## 2. Strings between double quotes -/

theorem basicString_letter {d : Char} (h : d ∈ ['b', 't', 'n', 'f', 'r', '"', '\\']) (rest : Text) :
    basicString ('\\' :: d :: rest) = (do withChar (← escaped? d) (basicString rest)) := by
  simp only [List.mem_cons, List.not_mem_nil, or_false] at h
  rcases h with rfl | rfl | rfl | rfl | rfl | rfl | rfl <;> rfl

theorem basicString_escape (c : Char) (more : Text) :
    basicString (escape false c ++ more) = withChar c (basicString more) := by
  obtain ⟨d, he, hd⟩ | ⟨a, b, he, hpoint⟩ | ⟨he, hq, hs, hplain⟩ := escape_cases false c
  · rw [he]
    refine (basicString_letter (letter_of_escaped? hd) more).trans ?_
    rw [hd]
    rfl
  · rw [he]
    show (do withChar (← codePoint? ['0', '0', a, b]) (basicString more)) = _
    rw [hpoint]
    rfl
  · have hkept : isPlain c = true := hplain.resolve_right (by simp)
    rw [he, List.singleton_append, basicString]
    · simp [hkept, hs]
    -- neither a quote nor a backslash
    all_goals intros; contradiction

theorem basicString_flatMap_escape (t rest : Text) :
    basicString (t.flatMap (escape false) ++ '"' :: rest) = some (t, rest) := by
  induction t with
  | nil => rfl
  | cons c t ih =>
    rw [List.flatMap_cons, List.append_assoc, basicString_escape, ih]
    rfl

theorem basicLines_letter {d : Char} (h : d ∈ ['b', 't', 'n', 'f', 'r', '"', '\\']) (rest : Text) :
    basicLines .keep ('\\' :: d :: rest) =
      (do withChar (← escaped? d) (basicLines .keep rest)) := by
  simp only [List.mem_cons, List.not_mem_nil, or_false] at h
  rcases h with rfl | rfl | rfl | rfl | rfl | rfl | rfl <;> rfl

theorem basicLines_escape (c : Char) (more : Text) :
    basicLines .keep (escape true c ++ more) = withChar c (basicLines .keep more) := by
  obtain ⟨d, he, hd⟩ | ⟨a, b, he, hpoint⟩ | ⟨he, hq, hs, hplain⟩ := escape_cases true c
  · rw [he]
    refine (basicLines_letter (letter_of_escaped? hd) more).trans ?_
    rw [hd]
    rfl
  · rw [he]
    show (do withChar (← codePoint? ['0', '0', a, b]) (basicLines .keep more)) = _
    rw [hpoint]
    rfl
  · have hr : c ≠ '\r' := by
      rintro rfl
      exact absurd hplain (by decide)
    have hkept : isPlain c = true ∨ c = '\n' := hplain.imp_right And.right
    rw [he, List.singleton_append, basicLines]
    · simp [hkept, hs]
    -- neither a quote, a backslash nor the first half of a line break
    all_goals intros; contradiction

theorem basicLines_flatMap_escape (t rest : Text) :
    basicLines .keep (t.flatMap (escape true) ++ '"' :: '"' :: '"' :: '\n' :: rest) =
      some (t, '\n' :: rest) := by
  induction t with
  | nil => rfl
  | cons c t ih =>
    rw [List.flatMap_cons, List.append_assoc, basicLines_escape, ih]
    rfl

/-! ## 3. Strings between single quotes -/

theorem literalString_append {t : Text} (hplain : t.all isPlain = true) (hquote : '\x27' ∉ t)
    (rest : Text) : literalString (t ++ '\x27' :: rest) = some (t, rest) := by
  induction t with
  | nil => rfl
  | cons c t ih =>
    rw [List.all_cons, Bool.and_eq_true] at hplain
    rw [List.mem_cons, not_or] at hquote
    have hc : c ≠ '\x27' := Ne.symm hquote.1
    simp [literalString, hplain.1, ih hplain.2 hquote.2, withChar]

/-- Where no three quotes stand, a character is read as itself. -/
theorem literalLines_cons {c : Char} {more : Text} (hplain : isPlain c = true ∨ c = '\n')
    (hquotes : ¬['\x27', '\x27', '\x27'] <+: c :: more) :
    literalLines (c :: more) = withChar c (literalLines more) := by
  rw [literalLines, if_pos (by simpa using hplain)]
  · rintro rest rfl rfl
    exact hquotes ⟨_, rfl⟩
  · rintro rest rfl rfl
    exact hquotes ⟨_, rfl⟩
  · rintro rest rfl rfl
    exact hquotes ⟨_, rfl⟩
  · rintro rest rfl rfl
    exact absurd hplain (by decide)

/-- A text without three quotes in a row that does not end with one has no three quotes across its
end either. -/
theorem not_quotes_prefix {t : Text} (ht : t ≠ []) (hquotes : ¬['\x27', '\x27', '\x27'] <:+: t)
    (hlast : t.getLast? ≠ some '\x27') (rest : Text) :
    ¬['\x27', '\x27', '\x27'] <+: t ++ rest := by
  intro h
  -- the three quotes begin in the text, and end behind it or in it
  match t with
  | [] => exact ht rfl
  | [c] =>
    rw [List.singleton_append, List.cons_prefix_cons] at h
    exact hlast (by rw [← h.1]; rfl)
  | [c, d] =>
    rw [List.cons_append, List.singleton_append, List.cons_prefix_cons, List.cons_prefix_cons] at h
    exact hlast (by rw [← h.2.1]; rfl)
  | c :: d :: e :: t =>
    simp only [List.cons_append, List.cons_prefix_cons] at h
    obtain ⟨rfl, rfl, rfl, -⟩ := h
    exact hquotes ⟨[], t, rfl⟩

theorem literalLines_append {t : Text} (hplain : ∀ c ∈ t, isPlain c = true ∨ c = '\n')
    (hquotes : ¬['\x27', '\x27', '\x27'] <:+: t) (hlast : t.getLast? ≠ some '\x27')
    (rest : Text) :
    literalLines (t ++ '\x27' :: '\x27' :: '\x27' :: '\n' :: rest) = some (t, '\n' :: rest) := by
  induction t with
  | nil => rfl
  | cons c t ih =>
    have hquotes' : ¬['\x27', '\x27', '\x27'] <:+: t := fun h => hquotes (List.infix_cons h)
    have hlast' : t.getLast? ≠ some '\x27' := by
      intro h
      rw [List.getLast?_cons, h] at hlast
      exact hlast rfl
    -- the closing quotes do not begin earlier, at the end of the text
    have hcons (more : Text) : ¬['\x27', '\x27', '\x27'] <+: c :: (t ++ more) :=
      not_quotes_prefix (List.cons_ne_nil c t) hquotes hlast more
    rw [List.cons_append, literalLines_cons (hplain c List.mem_cons_self) (hcons _), ih (fun d hd =>
      hplain d (List.mem_cons_of_mem c hd)) hquotes' hlast']
    rfl

/-! ## 4. Strings in any form -/

theorem hasQuotes_eq_true {n : Nat} {t : Text} :
    hasQuotes n t = true ↔ List.replicate n '\x27' <:+: t :=
  Text.holds_iff_infix

/-- What a literal form can stand for. -/
theorem isLiteralForm_facts {t : Text} (h : isLiteralForm t = true) :
    t ≠ [] ∧ (∀ c ∈ t, isPlain c = true ∨ c = '\n') ∧ ¬['\x27', '\x27', '\x27'] <:+: t ∧
      t.getLast? ≠ some '\x27' := by
  unfold isLiteralForm at h
  simp only [Bool.and_eq_true, Bool.not_eq_true', decide_eq_true_eq] at h
  obtain ⟨⟨⟨hany, hall⟩, hquotes⟩, hlast⟩ := h
  refine ⟨?_, ?_, ?_, hlast⟩
  · rintro rfl
    exact absurd hany (by decide)
  · intro c hc
    simpa using List.all_eq_true.1 hall c hc
  · rw [Bool.eq_false_iff, Ne, hasQuotes_eq_true] at hquotes
    exact hquotes

/-- Three quotes are taken before one. -/
theorem string?_single {t : Text} (h : ¬['\x27', '\x27'] <+: t) :
    string? ('\x27' :: t) = literalString t := by
  rw [string?]
  rintro rest rfl
  exact h ⟨rest, rfl⟩

theorem string?_double {t : Text} (h : ¬['"', '"'] <+: t) :
    string? ('"' :: t) = basicString t := by
  rw [string?]
  rintro rest rfl
  exact h ⟨rest, rfl⟩

/-- An escaped text does not begin with a quote, and so what stands before its closing quote is taken
for the opening one. -/
theorem not_quotes_prefix_escape (t rest : Text) :
    ¬['"', '"'] <+: t.flatMap (escape false) ++ '"' :: '\n' :: rest := by
  cases t with
  | nil => simp [List.cons_prefix_cons]
  | cons c t =>
    rw [List.flatMap_cons, List.append_assoc]
    obtain ⟨d, he, -⟩ | ⟨a, b, he, -⟩ | ⟨he, hq, -⟩ := escape_cases false c
    · simp [he, List.cons_prefix_cons]
    · simp [he, List.cons_prefix_cons]
    · simp [he, List.cons_prefix_cons, hq.symm]

theorem afterBreak_append {t : Text} (hne : t ≠ []) (hplain : ∀ c ∈ t, isPlain c = true ∨ c = '\n')
    (hbreak : '\n' ∉ t) (rest : Text) : afterBreak (t ++ rest) = t ++ rest := by
  cases t with
  | nil => exact absurd rfl hne
  | cons c t =>
    rw [List.cons_append, afterBreak]
    · intro more h
      exact hbreak ((List.cons.inj h).1 ▸ List.mem_cons_self)
    · intro more h
      exact absurd (hplain '\r' ((List.cons.inj h).1 ▸ List.mem_cons_self)) (by decide)

theorem string?_quoted_literal {t : Text} (h : isLiteralForm t = true) (rest : Text) :
    string? (quoted t ++ '\n' :: rest) = some (t, '\n' :: rest) := by
  obtain ⟨hne, hplain, hquotes, hlast⟩ := isLiteralForm_facts h
  have hlines := literalLines_append hplain hquotes hlast rest
  unfold quoted
  dsimp only
  rw [if_pos h]
  by_cases hbreaks : t.contains '\n' = true
  · rw [if_pos hbreaks, List.append_assoc, List.append_assoc]
    exact hlines
  · rw [if_neg hbreaks]
    have hbreak : '\n' ∉ t := by simpa using hbreaks
    by_cases hquote : hasQuotes 1 t = true
    · rw [if_pos hquote, List.append_assoc, List.append_assoc]
      change literalLines (afterBreak (t ++ '\x27' :: '\x27' :: '\x27' :: '\n' :: rest)) = _
      rw [afterBreak_append hne hplain hbreak]
      exact hlines
    · rw [if_neg hquote, List.append_assoc, List.append_assoc]
      have hnone : '\x27' ∉ t := by
        intro hmem
        obtain ⟨before, after, rfl⟩ := List.append_of_mem hmem
        exact hquote (hasQuotes_eq_true.2 ⟨before, after, by simp⟩)
      have hall : t.all isPlain = true := by
        rw [List.all_eq_true]
        exact fun c hc => (hplain c hc).resolve_right fun hn => hbreak (hn ▸ hc)
      change string? ('\x27' :: (t ++ '\x27' :: '\n' :: rest)) = _
      rw [string?_single, literalString_append hall hnone]
      cases t with
      | nil => exact absurd rfl hne
      | cons c t =>
        rw [List.cons_append, List.cons_prefix_cons]
        exact fun hquote => hnone (hquote.1 ▸ List.mem_cons_self)

/-- Whatever a text holds, it is read back from its string, up to the end of the line. -/
theorem string?_quoted (t rest : Text) :
    string? (quoted t ++ '\n' :: rest) = some (t, '\n' :: rest) := by
  by_cases h : isLiteralForm t = true
  · exact string?_quoted_literal h rest
  · unfold quoted
    dsimp only
    rw [if_neg h]
    by_cases hbreaks : t.contains '\n' = true
    · rw [if_pos hbreaks, List.append_assoc, List.append_assoc]
      exact basicLines_flatMap_escape t rest
    · rw [if_neg hbreaks, List.append_assoc, List.append_assoc]
      exact (string?_double (not_quotes_prefix_escape t rest)).trans
        (basicString_flatMap_escape t ('\n' :: rest))

end Parlance.Toml
