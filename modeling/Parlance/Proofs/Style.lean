import Parlance.Proofs.DeclarationParts
import Parlance.Proofs.Nesting
import Parlance.Draft.Basic

/-!
What a style writes: the escapes of its literals are undone by reading, whatever the text, a literal
is a title of every vocabulary, and indentation is blank.
-/

namespace Parlance

open Source

namespace Quote

/-! ## 1. Escapes -/

theorem isQuote_char (q : Quote) : isQuote q.char = true := by cases q <;> rfl

/-- Escaping writes a character that needs it as a backslash with another one. -/
theorem escape_cases (q : Quote) (c : Char) :
    (∃ d, q.escape c = ['\\', d] ∧ d ≠ '\n' ∧
      (if d = 'n' then '\n' else if d = 't' then '\t' else d) = c) ∨
    (q.escape c = [c] ∧ c ≠ '\\' ∧ c ≠ q.char) := by
  unfold escape
  by_cases hb : c = '\\'
  · exact .inl ⟨'\\', by simp [hb], by decide, by simp [hb]⟩
  by_cases hn : c = '\n'
  · exact .inl ⟨'n', by simp [hn], by decide, by simp [hn]⟩
  by_cases ht : c = '\t'
  · exact .inl ⟨'t', by simp [ht], by decide, by simp [ht]⟩
  by_cases hq : c = q.char
  · refine .inl ⟨c, by rw [if_neg hb, if_neg hn, if_neg ht, if_pos hq], hn, ?_⟩
    rw [hq]
    cases q <;> rfl
  · exact .inr ⟨by simp [hb, hn, ht, hq], hb, hq⟩

theorem escapes (q : Quote) : Escapes q.char q.escape := by
  intro c
  rcases q.escape_cases c with ⟨d, he, -, hd⟩ | hplain
  · exact .inl ⟨d, he, hd⟩
  · exact .inr hplain

/-- Undoing the escapes of a text gives the text back. -/
theorem unescape_flatMap_escape (q : Quote) (t : Text) : unescape (t.flatMap q.escape) = t :=
  q.escapes.unescape_flatMap t

theorem isTitleBody_escape (q : Quote) (t : Text) :
    Slot.isTitleBody q.char (t.flatMap q.escape) = true := by
  induction t with
  | nil => rfl
  | cons c t ih =>
    rw [List.flatMap_cons]
    rcases q.escape_cases c with ⟨d, he, hd, -⟩ | ⟨he, hb, hq⟩
    · rw [he]
      simp only [List.cons_append, List.nil_append, Slot.isTitleBody, ih]
      simpa using hd
    · rw [he, List.singleton_append, Slot.isTitleBody]
      · simp [hb, hq, ih]
      · intro d r h
        exact absurd h hb

theorem isLiteralBody_escape (q : Quote) (t : Text) :
    isLiteralBody q.char (t.flatMap q.escape) = true :=
  Slot.isLiteralBody_of_isTitleBody (q.isTitleBody_escape t)

end Quote

/-! ## 2. Literals -/

namespace Style

theorem selfContained_literal (s : Style) (t : Text) : SelfContained (s.literal t) :=
  Source.selfContained_literal s.quote.isQuote_char (s.quote.isLiteralBody_escape t)

theorem getLast?_literal (s : Style) (t : Text) : (s.literal t).getLast? = some s.quote.char :=
  List.getLast?_concat

theorem literal_noSlash (s : Style) (t : Text) : (s.literal t).getLast? ≠ some '/' := by
  rw [getLast?_literal]
  cases s.quote <;> decide

/-! ## 3. Indentation -/

/-- Indentation is made of spaces or of tabs. -/
theorem all_indentation (s : Style) {p : Char → Bool} (hspace : p ' ' = true)
    (htab : p '\t' = true) (level : Nat) : (s.indentation level).all p = true := by
  have hunit : s.indent.unit.all p = true := by
    cases s.indent with
    | spaces width => simp [Indent.unit, hspace]
    | tabs => simp [Indent.unit, htab]
  unfold indentation
  induction level with
  | zero => rfl
  | succ level ih =>
    rw [List.replicate_succ, List.flatten_cons, List.all_append, hunit, ih]
    rfl

theorem isBlank_indentation (s : Style) (level : Nat) :
    (s.indentation level).all isBlank = true :=
  s.all_indentation (by decide) (by decide) level

end Style

/-! ## 4. Drafts -/

namespace Draft

@[simp] theorem text_append (a b : Draft) : (a ++ b).text = a.text ++ b.text := rfl

theorem concat_cons (a : Draft) (rest : List Draft) : concat (a :: rest) = a ++ concat rest := rfl

end Draft

end Parlance
