import Parlance.Source.Block

/-!
Call chains such as `root.name(arguments).property`: names with or without an argument list, joined
by dots, with blanks around names, dots and parentheses.
-/

namespace Parlance.Source

/-- One link of a call chain: a name and, for a call, the text between its parentheses. -/
structure Link where
  name : Text
  args : Option Text
deriving DecidableEq, Repr

def isNameStart (c : Char) : Bool := c = '_' || c = '$' || c.isAlpha

def isNamePart (c : Char) : Bool := isNameStart c || c.isDigit

/-- The text without the blanks at its start that a chain allows. -/
def skipBlanks (t : Text) : Text := t.dropWhile isCodeBlank

theorem skipBlanks_length (t : Text) : (skipBlanks t).length ≤ t.length :=
  (List.dropWhile_suffix isCodeBlank).length_le

/-- The name a text begins with, and what follows the name and its blanks. -/
def splitName : Text → Option (Text × Text)
  | [] => none
  | c :: rest =>
    if isNameStart c then
      some (c :: rest.takeWhile isNamePart, skipBlanks (rest.dropWhile isNamePart))
    else
      none

theorem splitName_length {t name rest : Text} (h : splitName t = some (name, rest)) :
    rest.length < t.length := by
  unfold splitName at h
  split at h
  · simp at h
  · rename_i c tail
    split at h
    · obtain ⟨-, rfl⟩ := Prod.mk.inj (Option.some.inj h)
      have h₁ := skipBlanks_length (tail.dropWhile isNamePart)
      have h₂ : (tail.dropWhile isNamePart).length ≤ tail.length :=
        (List.dropWhile_suffix isNamePart).length_le
      simp only [List.length_cons]
      omega
    · simp at h

/-- The argument list a text begins with, if it begins with a parenthesis, and what follows the
list and its blanks. A parenthesis that nothing closes is no argument list. -/
def splitCall : Text → Option (Option Text × Text)
  | '(' :: rest => (enclosed? rest).map fun (inner, tail) => (some inner, skipBlanks tail)
  | t => some (none, t)

theorem splitCall_length {t rest : Text} {args : Option Text}
    (h : splitCall t = some (args, rest)) : rest.length ≤ t.length := by
  unfold splitCall at h
  split at h
  · rename_i tail
    obtain ⟨⟨inner, r⟩, hr, he⟩ := Option.map_eq_some_iff.1 h
    obtain ⟨-, rfl⟩ := Prod.mk.inj he
    have h₁ := enclosed?_length hr
    have h₂ := skipBlanks_length r
    simp only [List.length_cons]
    omega
  · obtain ⟨-, rfl⟩ := Prod.mk.inj (Option.some.inj h)
    exact Nat.le_refl _

/-- The links of a chain whose first name begins the text. -/
def readLinks (t : Text) : Option (List Link) :=
  match _hn : splitName t with
  | none => none
  | some (name, afterName) =>
    match _hc : splitCall afterName with
    | none => none
    | some (args, []) => some [⟨name, args⟩]
    | some (args, '.' :: rest) => (readLinks (skipBlanks rest)).map (⟨name, args⟩ :: ·)
    -- something follows that is no further link
    | some (_, _ :: _) => none
termination_by t.length
decreasing_by
  have h₁ := splitName_length _hn
  have h₂ := splitCall_length _hc
  have h₃ := skipBlanks_length rest
  simp only [List.length_cons] at h₂
  omega

def readChain (t : Text) : Option (List Link) := readLinks (skipBlanks t)

end Parlance.Source
