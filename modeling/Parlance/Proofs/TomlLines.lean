import Parlance.Proofs.TomlStrings
import Parlance.Toml.Reader

/-!
Lines of a TOML file with tables one level deep: the header of a table, a key with its value, and
lines between tables. Each line adds to what was read before it and leaves the rest of the file to be
read.
-/

namespace Parlance.Toml

open TomlValue (Fields)

/-! ## 1. Keys -/

/-- A name that stands in a file without quotes. -/
structure IsName (name : Text) : Prop where
  nonempty : name ≠ []
  all : ∀ c ∈ name, isKeyChar c = true

/-- A character of a name begins nothing else. -/
theorem isKeyChar_facts {c : Char} (h : isKeyChar c = true) :
    c ≠ ' ' ∧ c ≠ '\t' ∧ c ≠ '#' ∧ c ≠ '\n' ∧ c ≠ '\r' ∧ c ≠ '[' ∧ c ≠ '"' ∧ c ≠ '\x27' := by
  refine ⟨?_, ?_, ?_, ?_, ?_, ?_, ?_, ?_⟩ <;> rintro rfl <;> exact absurd h (by decide)

theorem IsName.exists_cons {name : Text} (h : IsName name) :
    ∃ c rest, name = c :: rest ∧ isKeyChar c = true := by
  cases name with
  | nil => exact absurd rfl h.nonempty
  | cons c rest => exact ⟨c, rest, rfl, h.all c List.mem_cons_self⟩

theorem keyPart?_name {name : Text} (hname : IsName name) {c : Char} (hc : isKeyChar c = false)
    (rest : Text) : keyPart? (name ++ c :: rest) = some (name, c :: rest) := by
  have hstop : ¬isKeyChar c = true := by rw [hc]; decide
  have htake : (name ++ c :: rest).takeWhile isKeyChar = name := by
    rw [List.takeWhile_append_of_pos hname.all, List.takeWhile_cons_of_neg hstop, List.append_nil]
  have hdrop : (name ++ c :: rest).dropWhile isKeyChar = c :: rest := by
    rw [List.dropWhile_append_of_pos hname.all, List.dropWhile_cons_of_neg hstop]
  obtain ⟨d, tail, rfl, hd⟩ := hname.exists_cons
  obtain ⟨-, -, -, -, -, -, hquote, hsingle⟩ := isKeyChar_facts hd
  -- a name begins with no quote
  rw [keyPart?, htake, hdrop]
  · rfl
  · exact fun more h => hquote (List.cons.inj h).1
  · exact fun more h => hsingle (List.cons.inj h).1

theorem skipBlanks_cons {c : Char} (hspace : c ≠ ' ') (htab : c ≠ '\t') (t : Text) :
    skipBlanks (c :: t) = c :: t := by
  unfold skipBlanks
  rw [List.dropWhile_cons_of_neg (by simp [hspace, htab])]

theorem key?_name {name : Text} (hname : IsName name) {c d : Char} {rest rest' : Text}
    (hc : isKeyChar c = false) (hskip : skipBlanks (c :: rest) = d :: rest') (hdot : d ≠ '.')
    (steps : Nat) : key? (steps + 1) (name ++ c :: rest) = some (([], name), d :: rest') := by
  have hpart := keyPart?_name hname hc rest
  obtain ⟨a, tail, rfl, ha⟩ := hname.exists_cons
  obtain ⟨hspace, htab, -⟩ := isKeyChar_facts ha
  rw [key?, List.cons_append, skipBlanks_cons hspace htab, ← List.cons_append, hpart]
  simp only [Option.bind_eq_bind, Option.bind_some, hskip]
  split
  next more heq => exact absurd (List.cons.inj heq).1 hdot
  next => rfl

/-! ## 2. Values -/

/-- A value that is a string or a truth value. -/
inductive Scalar where
  | string (t : Text)
  | boolean (b : Bool)

def Scalar.value : Scalar → TomlValue
  | .string t => .string t
  | .boolean b => .boolean b

def Scalar.written : Scalar → Text
  | .string t => quoted t
  | .boolean b => if b then "true" else "false"

theorem exists_quoted (t : Text) :
    ∃ c rest, quoted t = c :: rest ∧ (c = '"' ∨ c = '\x27') := by
  unfold quoted
  dsimp only
  split_ifs
  · exact ⟨_, _, rfl, .inr rfl⟩
  · exact ⟨_, _, rfl, .inr rfl⟩
  · exact ⟨_, _, rfl, .inr rfl⟩
  · exact ⟨_, _, rfl, .inl rfl⟩
  · exact ⟨_, _, rfl, .inl rfl⟩

theorem value?_written (v : Scalar) (steps : Nat) (rest : Text) :
    value? (steps + 1) (v.written ++ '\n' :: rest) = some (v.value, '\n' :: rest) := by
  cases v with
  | string t =>
    have hread := string?_quoted t rest
    obtain ⟨c, more, hwritten, hc⟩ := exists_quoted t
    rw [Scalar.written]
    rw [hwritten, List.cons_append] at hread ⊢
    obtain rfl | rfl := hc <;> rw [value?, hread] <;> rfl
  | boolean b => cases b <;> rfl

theorem skipBlanks_written (v : Scalar) (rest : Text) :
    skipBlanks (' ' :: v.written ++ rest) = v.written ++ rest := by
  cases v with
  | string t =>
    obtain ⟨c, more, hwritten, hc⟩ := exists_quoted t
    rw [Scalar.written, hwritten]
    obtain rfl | rfl := hc <;> rfl
  | boolean b => cases b <;> rfl

/-! ## 3. Tables -/

theorem lookup_append_self {done : Fields} {name : Text} (hdone : done.lookup name = none)
    (value : TomlValue) : (done ++ [(name, value)]).lookup name = some value := by
  rw [List.lookup_append, hdone, List.lookup_cons_self]
  rfl

theorem replace_append_self {done : Fields} {name : Text} (hdone : done.lookup name = none)
    (old value : TomlValue) :
    TomlValue.replace name value (done ++ [(name, old)]) = done ++ [(name, value)] := by
  have hkept : TomlValue.replace name value done = done := by
    refine (List.map_congr_left fun field hfield => ?_).trans (List.map_id done)
    have hne : field.1 ≠ name := by
      rintro rfl
      exact absurd (List.lookup_eq_none_iff.1 hdone field hfield) (by simp)
    exact if_neg hne
  have hlast : TomlValue.replace name value [(name, old)] = [(name, value)] := by
    simp [TomlValue.replace]
  unfold TomlValue.replace at *
  rw [List.map_append, hkept, hlast]

theorem openTable_new {fields : Fields} {name : Text} (hnew : fields.lookup name = none) :
    TomlValue.openTable [] name fields = some (fields ++ [(name, .table .header [])]) := by
  unfold TomlValue.openTable
  rw [TomlValue.change, hnew]

theorem assign_last {done inner : Fields} {group key : Text} (hdone : done.lookup group = none)
    (hkey : inner.lookup key = none) (value : TomlValue) :
    assign [group] [] key value (done ++ [(group, .table .header inner)]) =
      some (done ++ [(group, .table .header (inner ++ [(key, value)]))]) := by
  have hinsert : TomlValue.insertDotted [] key value inner = some (inner ++ [(key, value)]) := by
    unfold TomlValue.insertDotted
    rw [TomlValue.change, if_pos (by rfl), TomlValue.insert, hkey]
    rfl
  unfold assign
  rw [TomlValue.change, lookup_append_self hdone]
  simp only [Bool.false_and, Bool.or_false, reduceCtorEq, decide_false, Bool.false_eq_true, if_false]
  rw [TomlValue.change, hinsert, Option.map_some, replace_append_self hdone]

/-! ## 4. Lines -/

/-- The rest of a file is read, if there are enough steps for its characters. -/
def Reads (header : List Text) (fields : Fields) (t : Text) (result : Fields) : Prop :=
  ∀ steps, t.length < steps → readLines steps header fields t = some result

variable {header : List Text} {fields result : Fields} {t : Text}

theorem reads_end : Reads header fields [] fields := by
  intro steps hsteps
  obtain ⟨steps, rfl⟩ := Nat.exists_eq_succ_of_ne_zero (Nat.ne_of_gt hsteps)
  rfl

theorem skipLines_cons {c : Char} (hspace : c ≠ ' ') (htab : c ≠ '\t') (hcomment : c ≠ '#')
    (hbreak : c ≠ '\n') (hreturn : c ≠ '\r') (steps : Nat) (t : Text) :
    skipLines steps (c :: t) = c :: t := by
  cases steps with
  | zero => rfl
  | succ steps =>
    have hskip : skipComment (c :: t) = c :: t := by
      rw [skipComment]
      exact fun rest h => hcomment (List.cons.inj h).1
    rw [skipLines, skipBlanks_cons hspace htab, hskip]
    split
    next heq => exact absurd (List.cons.inj heq).1 hbreak
    next heq => exact absurd (List.cons.inj heq).1 hreturn
    next => rfl

theorem reads_blankLine (h : Reads header fields ('[' :: t) result) :
    Reads header fields ('\n' :: '[' :: t) result := by
  intro steps hsteps
  obtain ⟨steps, rfl⟩ := Nat.exists_eq_succ_of_ne_zero (Nat.ne_of_gt (Nat.zero_lt_of_lt hsteps))
  have hskip (n : Nat) : skipLines n ('[' :: t) = '[' :: t :=
    skipLines_cons (by decide) (by decide) (by decide) (by decide) (by decide) n t
  have hbreak : skipLines (steps + 1) ('\n' :: '[' :: t) = '[' :: t := hskip steps
  have hread := h (steps + 1) (by rw [List.length_cons] at hsteps; omega)
  rw [readLines, hskip] at hread
  rw [readLines, hbreak]
  exact hread

/-- A header opens its table. -/
theorem reads_header {name : Text} (hname : IsName name) (hnew : fields.lookup name = none)
    (h : Reads [name] (fields ++ [(name, .table .header [])]) t result) :
    Reads header fields ('[' :: (name ++ ']' :: '\n' :: t)) result := by
  intro steps hsteps
  obtain ⟨steps, rfl⟩ := Nat.exists_eq_succ_of_ne_zero (Nat.ne_of_gt (Nat.zero_lt_of_lt hsteps))
  have hkey : key? (steps + 1) (name ++ ']' :: '\n' :: t) = some (([], name), ']' :: '\n' :: t) :=
    key?_name hname (by decide) rfl (by decide) steps
  have hread := h steps (by
    rw [List.length_cons, List.length_append, List.length_cons, List.length_cons] at hsteps
    omega)
  obtain ⟨c, more, rfl, hc⟩ := hname.exists_cons
  obtain ⟨-, -, -, -, -, hbracket, -⟩ := isKeyChar_facts hc
  rw [readLines, skipLines_cons (by decide) (by decide) (by decide) (by decide) (by decide)]
  split
  next heq => exact absurd heq (by simp)
  next heq =>
    -- a second bracket would be the first character of the name
    exact absurd (List.cons.inj (List.cons.inj heq).2).1 hbracket
  next rest _ heq =>
    rw [← (List.cons.inj heq).2, hkey]
    simp only [Option.bind_eq_bind, Option.bind_some, openTable_new hnew, lineEnd?]
    exact hread
  next hnone => exact absurd rfl (hnone _)

/-- A key with its value goes to the table of the last header. -/
theorem reads_entry {done inner : Fields} {group key : Text} (hname : IsName key)
    (hdone : done.lookup group = none) (hkey : inner.lookup key = none) (v : Scalar)
    (h : Reads [group] (done ++ [(group, .table .header (inner ++ [(key, v.value)]))]) t result) :
    Reads [group] (done ++ [(group, .table .header inner)])
      (key ++ ' ' :: '=' :: ' ' :: (v.written ++ '\n' :: t)) result := by
  intro steps hsteps
  obtain ⟨steps, rfl⟩ := Nat.exists_eq_succ_of_ne_zero (Nat.ne_of_gt (Nat.zero_lt_of_lt hsteps))
  have hread := h steps (by
    simp only [List.length_append, List.length_cons] at hsteps
    omega)
  have hread? : key? (steps + 1) (key ++ ' ' :: '=' :: ' ' :: (v.written ++ '\n' :: t)) =
      some (([], key), '=' :: ' ' :: (v.written ++ '\n' :: t)) :=
    key?_name hname (by decide) rfl (by decide) steps
  obtain ⟨c, more, rfl, hc⟩ := hname.exists_cons
  obtain ⟨hspace, htab, hcomment, hbreak, hreturn, hbracket, -⟩ := isKeyChar_facts hc
  rw [readLines, List.cons_append, skipLines_cons hspace htab hcomment hbreak hreturn]
  split
  next heq => exact absurd heq (by simp)
  -- a bracket would be the first character of the key
  next heq => exact absurd (List.cons.inj heq).1 hbracket
  next heq => exact absurd (List.cons.inj heq).1 hbracket
  next =>
    rw [← List.cons_append, hread?]
    simp only [Option.bind_eq_bind, Option.bind_some]
    have hvalue : value? (steps + 1) (skipBlanks (' ' :: (v.written ++ '\n' :: t))) =
        some (v.value, '\n' :: t) :=
      (congrArg _ (skipBlanks_written v _)).trans (value?_written v steps t)
    rw [hvalue]
    simp only [Option.bind_some, assign_last hdone hkey, lineEnd?]
    exact hread

end Parlance.Toml
