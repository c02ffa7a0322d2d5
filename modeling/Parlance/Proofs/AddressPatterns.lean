import Parlance.Draft.Check
import Parlance.Proofs.Pattern
import Parlance.Proofs.Text

/-!
Regular expression literals of addresses. A text is written between two slashes with a backslash
before each of its operators. Such a literal is recognized as one, nothing in it but the backslashes
has a meaning of its own, and read as a regular expression it occurs in exactly the texts that hold
the one it was written for.
-/

namespace Parlance

/-! ## 1. Bodies without operators -/

/-- The characters with a meaning of their own in a regular expression literal: the operators, and the
slash that ends it. -/
def operators : Text :=
  ['^', '$', '\\', '.', '*', '+', '?', '(', ')', '[', ']', '\x7b', '\x7d', '|', '/']

/-- Whether a character has a meaning of its own in a regular expression literal. -/
def isOperator (c : Char) : Bool := operators.contains c

/-- The characters of a body that no backslash stands before, without the backslashes that stand
before others. -/
def bare : Text → Text
  | [] => []
  | '\\' :: _ :: rest => bare rest
  | c :: rest => c :: bare rest

/-- A body without the backslashes that stand before other characters. -/
def withoutEscapes : Text → Text
  | [] => []
  | '\\' :: c :: rest => c :: withoutEscapes rest
  | c :: rest => c :: withoutEscapes rest

/-- The characters that a body stands for, if each of them stands for itself, an operator with a
backslash before it. A bare operator does not, and neither does any other character with a backslash,
which can stand for a class of characters. -/
def plainCharacters? : Text → Option Text
  | [] => some []
  | '\\' :: c :: rest => if isOperator c then (plainCharacters? rest).map (c :: ·) else none
  | c :: rest => if isOperator c then none else (plainCharacters? rest).map (c :: ·)

/-- The pattern of a body in which every character stands for itself. -/
def Pattern.ofBody? (body : Text) : Option Pattern := (plainCharacters? body).map Pattern.word

/-- Where every character stands for itself no operator is bare, and only backslashes are added. -/
theorem of_plainCharacters? {body t : Text} (h : plainCharacters? body = some t) :
    (∀ c ∈ bare body, isOperator c = false) ∧ withoutEscapes body = t := by
  fun_induction plainCharacters? body generalizing t with
  | case1 => exact ⟨by simp [bare], Option.some.inj h⟩
  | case2 c rest hc ih =>
    obtain ⟨u, hu, rfl⟩ := Option.map_eq_some_iff.1 h
    obtain ⟨hbare, rfl⟩ := ih hu
    exact ⟨hbare, rfl⟩
  | case3 => exact absurd h (by simp)
  | case4 => exact absurd h (by simp)
  | case5 c rest hescape hc ih =>
    obtain ⟨u, hu, rfl⟩ := Option.map_eq_some_iff.1 h
    obtain ⟨hbare, rfl⟩ := ih hu
    rw [bare, withoutEscapes]
    · exact ⟨List.forall_mem_cons.2 ⟨by simpa using hc, hbare⟩, rfl⟩
    · exact hescape
    · exact hescape

theorem Pattern.occursIn_word {w t : Text} : (Pattern.word w).occursIn t = true ↔ w <:+: t := by
  rw [occursIn_iff]
  constructor
  · rintro ⟨before, s, rest, kept, rfl, h⟩
    obtain ⟨rfl, -⟩ := takes_word.1 h
    exact ⟨before, rest, rfl⟩
  · rintro ⟨before, rest, rfl⟩
    exact ⟨before, w, rest, {}, rfl, takes_word.2 ⟨rfl, rfl⟩⟩

/-! ## 2. The body that is written -/

def escapeOperator (c : Char) : Text := if isOperator c then ['\\', c] else [c]

theorem isPatternSpecial_eq (c : Char) : isPatternSpecial c = isOperator c := by
  have hsub : "\\^$.|?*+()[]\x7b\x7d/".toList.all isOperator = true := by decide
  have hsup : operators.all isPatternSpecial = true := by decide
  rw [Bool.eq_iff_iff]
  exact ⟨fun h => List.all_eq_true.1 hsub c (List.contains_iff_mem.1 h),
    fun h => List.all_eq_true.1 hsup c (List.contains_iff_mem.1 h)⟩

theorem urlPattern_eq (t : Text) :
    urlPattern t = '/' :: (t.flatMap escapeOperator ++ ['/']) := by
  simp only [urlPattern, isPatternSpecial_eq, List.cons_append]
  rfl

theorem plainCharacters?_escaped (t : Text) :
    plainCharacters? (t.flatMap escapeOperator) = some t := by
  induction t with
  | nil => rfl
  | cons c t ih =>
    rw [List.flatMap_cons, escapeOperator]
    by_cases hc : isOperator c = true
    · rw [if_pos hc, List.cons_append, List.singleton_append, plainCharacters?, if_pos hc, ih]
      rfl
    · rw [if_neg hc, List.singleton_append, plainCharacters?, if_neg hc, ih]
      · rfl
      · -- a backslash would have been escaped itself
        rintro d rest rfl
        exact absurd (by decide) hc

theorem withoutEscapes_escaped (t : Text) : withoutEscapes (t.flatMap escapeOperator) = t :=
  (of_plainCharacters? (plainCharacters?_escaped t)).2

/-! ## 3. The literal -/

theorem trim_urlPattern (t : Text) : Text.trim (urlPattern t) = urlPattern t := by
  apply Text.IsTrimmed.trim_eq
  rw [urlPattern_eq]
  exact ⟨rfl, by rw [← List.cons_append, List.getLast?_concat]; rfl⟩

theorem escaped_eq_nil_iff {t : Text} : t.flatMap escapeOperator = [] ↔ t = [] := by
  constructor
  · intro h
    rw [← withoutEscapes_escaped t, h]
    rfl
  · rintro rfl
    rfl

theorem isPatternLiteral_urlPattern (t : Text) :
    isPatternLiteral (urlPattern t) = true ↔ t ≠ [] := by
  rw [ne_eq, ← escaped_eq_nil_iff, isPatternLiteral, trim_urlPattern, urlPattern_eq]
  generalize t.flatMap escapeOperator = body
  -- the last slash is the last character, so that no flags stand behind it
  have hflags : (body ++ ['/']).reverse.takeWhile (· ≠ '/') = [] := by simp
  simp only [hflags, List.all_nil, Bool.true_and, List.length_append, decide_eq_true_eq]
  rw [← List.length_eq_zero_iff, List.length_nil, List.length_singleton]
  omega

theorem urlPattern_injective : Function.Injective urlPattern := by
  intro s t h
  rw [urlPattern_eq, urlPattern_eq] at h
  have hbody := List.append_cancel_right (List.cons.inj h).2
  rw [← withoutEscapes_escaped s, hbody, withoutEscapes_escaped]

/-- An address becomes a literal that is recognized as one unless it is empty. In its body no operator
is bare, and without its backslashes it is the address; so as a regular expression it occurs in
exactly the texts that hold the address, and no other address becomes the same literal. -/
theorem urlPattern_exact (t : Text) :
    (isPatternLiteral (urlPattern t) = true ↔ t ≠ []) ∧
    (∃ body, urlPattern t = '/' :: (body ++ ['/']) ∧ (∀ c ∈ bare body, isOperator c = false) ∧
      withoutEscapes body = t ∧
      ∃ p, Pattern.ofBody? body = some p ∧ ∀ s, p.occursIn s = true ↔ t <:+: s) ∧
    ∀ u, urlPattern u = urlPattern t ↔ u = t := by
  have hplain := plainCharacters?_escaped t
  obtain ⟨hbare, hescapes⟩ := of_plainCharacters? hplain
  refine ⟨isPatternLiteral_urlPattern t, ⟨_, urlPattern_eq t, hbare, hescapes, .word t, ?_,
    fun s => Pattern.occursIn_word⟩, fun u => urlPattern_injective.eq_iff⟩
  rw [Pattern.ofBody?, hplain]
  rfl

example : urlPattern "/a.b\\" = "/\\/a\\.b\\\\/".toList := by decide

end Parlance
