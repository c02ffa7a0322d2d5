import Parlance.Proofs.CheckTitles

/-!
Literals and their values. What a style quotes is read as the text it was, whatever its quotes,
backslashes and line feeds. An expression that has been put into one style and then into another
looks as if only the second had been asked for, and says what it said before.
-/

namespace Parlance

open Source (unquote)

namespace Style

/-- A style rewrites an expression that is a single- or double-quoted literal, and trims any other
one. -/
theorem requote_eq (s : Style) (e : Text) :
    s.requote e = (plainLiteral? (Text.trim e)).elim (Text.trim e) s.literal := by
  simp only [requote, plainLiteral?]
  split <;> rfl

variable (s₁ s₂ : Style)

/-- The last style wins. -/
theorem requote_requote (e : Text) : s₂.requote (s₁.requote e) = s₂.requote e := by
  rw [s₁.requote_eq, s₂.requote_eq e]
  cases hplain : plainLiteral? (Text.trim e) with
  | none =>
    -- what is only trimmed has no blanks to lose
    change s₂.requote (Text.trim e) = Text.trim e
    rw [s₂.requote_eq, (Text.isTrimmed_trim e).trim_eq, hplain]
    rfl
  | some t =>
    change s₂.requote (s₁.literal t) = s₂.literal t
    rw [s₂.requote_eq, (s₁.isValueText_literal t).isTrimmed.trim_eq, s₁.plainLiteral?_literal]
    rfl

/-- An expression in a style has the value it had. -/
theorem unquote_requote (s : Style) (e : Text) : unquote (s.requote e) = unquote e := by
  rw [s.requote_eq]
  cases hplain : plainLiteral? (Text.trim e) with
  | none => exact unquote_trim e
  | some t =>
    change unquote (s.literal t) = unquote e
    rw [s.unquote_literal, unquote_of_plainLiteral? hplain]

/-- Quoting a text and taking the quotes away gives the text back, in any style and in the plain single
quotes of a title. Of two styles the last one wins, no style changes the value of an
expression, and a style that has been applied changes nothing more. -/
theorem quoting_laws :
    (∀ (s : Style) (t : Text),
      unquote (s.literal t) = some t ∧ unquote (Source.literal t) = some t) ∧
    ∀ (s₁ s₂ : Style) (e : Text),
      s₂.requote (s₁.requote e) = s₂.requote e ∧ unquote (s₁.requote e) = unquote e ∧
        s₁.requote (s₁.requote e) = s₁.requote e := by
  refine ⟨fun s t => ⟨s.unquote_literal t, unquote_singleQuoted t⟩, fun s₁ s₂ e => ?_⟩
  exact ⟨requote_requote s₁ s₂ e, s₁.unquote_requote e, requote_requote s₁ s₁ e⟩

end Style

end Parlance
