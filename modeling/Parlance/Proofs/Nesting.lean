import Parlance.Proofs.Balance

/-!
Properly nested brackets. Among nested brackets the two ways to look for a closing bracket, the one
that counts braces and the one that counts brackets of all kinds together, find the one that
belongs to the opening one.
-/

namespace Parlance.Source

/-- The closing bracket that belongs to an opening one. -/
def closerOf (c : Char) : Char := if c = '(' then ')' else if c = '[' then ']' else '\x7d'

/-- Whether a marked character closes the bracket that another one opens. -/
def Mark.closesOf (m opener : Mark) : Bool := m.kind = .code && m.char = closerOf opener.char

/-- Marked characters whose brackets in code are properly nested, each closed by one of its own
kind. -/
inductive Nested : List Mark → Prop
  | nil : Nested []
  | plain {m : Mark} {rest : List Mark} (ho : m.opens = false) (hc : m.closes = false)
      (hrest : Nested rest) : Nested (m :: rest)
  | bracket {o c : Mark} {inner rest : List Mark} (ho : o.opens = true)
      (hc : c.closesOf o = true) (hinner : Nested inner) (hrest : Nested rest) :
      Nested (o :: (inner ++ c :: rest))

/-! ## 1. Opening and closing marks -/

theorem not_bracket_of_holds {p : Char → Bool}
    (hp : ['(', '[', '\x7b', ')', ']', '\x7d'].all (!p ·) = true) {c : Char} (h : p c = true) :
    isOpener c = false ∧ isCloser c = false := by
  -- a bracket is told from `c` by the class
  have hne : ∀ d ∈ ['(', '[', '\x7b', ')', ']', '\x7d'], c ≠ d := by
    intro d hd hc
    have hpd := List.all_eq_true.1 hp d hd
    rw [← hc, h] at hpd
    exact absurd hpd (by decide)
  simp only [List.mem_cons, List.not_mem_nil, or_false, forall_eq_or_imp, forall_eq] at hne
  simp [isOpener, isCloser, hne]

theorem Mark.closesOf_iff {m o : Mark} :
    m.closesOf o = true ↔ m.kind = .code ∧ m.char = closerOf o.char := by
  simp [Mark.closesOf]

theorem isCloser_closerOf (c : Char) : isCloser (closerOf c) = true := by
  unfold closerOf
  split
  · rfl
  · split <;> rfl

theorem Mark.closes_of_closesOf {m o : Mark} (h : m.closesOf o = true) : m.closes = true := by
  obtain ⟨hk, hc⟩ := Mark.closesOf_iff.1 h
  simp [Mark.closes, hk, hc, isCloser_closerOf]

theorem Mark.closes_eq_false_of_opens {m : Mark} (h : m.opens = true) : m.closes = false := by
  cases hc : m.closes with
  | false => rfl
  | true => rw [Mark.opens_eq_false_of_closes hc] at h; exact absurd h (by decide)

theorem Mark.kind_of_closes {m : Mark} (h : m.closes = true) : m.kind = .code := by
  simp only [Mark.closes, Bool.and_eq_true, decide_eq_true_eq] at h
  exact h.1

/-- A brace closes exactly the brackets that a brace opens. -/
theorem Mark.isCode_brace_of_closesOf {c o : Mark} (ho : o.opens = true)
    (hc : c.closesOf o = true) : c.isCode '\x7d' = o.isCode '\x7b' := by
  obtain ⟨hck, hcc⟩ := Mark.closesOf_iff.1 hc
  simp only [Mark.opens, isOpener, Bool.and_eq_true, Bool.or_eq_true, decide_eq_true_eq] at ho
  rcases ho with ⟨hk, (h | h) | h⟩ <;> simp [Mark.isCode, hck, hcc, h, hk, closerOf]

theorem Mark.closes_of_isCode_brace {m : Mark} (h : m.isCode '\x7d' = true) :
    m.closes = true := by
  simp only [Mark.isCode, Bool.and_eq_true, decide_eq_true_eq] at h
  simp [Mark.closes, isCloser, h]

theorem Mark.opens_of_isCode_brace {m : Mark} (h : m.isCode '\x7b' = true) : m.opens = true := by
  simp only [Mark.isCode, Bool.and_eq_true, decide_eq_true_eq] at h
  simp [Mark.opens, isOpener, h]

theorem Mark.isCode_closing_eq_false {m : Mark} (h : m.closes = false) :
    m.isCode '\x7d' = false := by
  cases hb : m.isCode '\x7d' with
  | false => rfl
  | true => rw [Mark.closes_of_isCode_brace hb] at h; exact absurd h (by decide)

theorem Mark.isCode_opening_eq_false {m : Mark} (h : m.opens = false) :
    m.isCode '\x7b' = false := by
  cases hb : m.isCode '\x7b' with
  | false => rfl
  | true => rw [Mark.opens_of_isCode_brace hb] at h; exact absurd h (by decide)

/-! ## 2. Nested text -/

theorem Nested.append {ms ns : List Mark} (h : Nested ms) (hn : Nested ns) :
    Nested (ms ++ ns) := by
  induction h with
  | nil => exact hn
  | plain ho hc _ ih => exact .plain ho hc ih
  | @bracket o c inner rest ho hc hinner _ _ ih =>
    have h := Nested.bracket ho hc hinner ih
    simpa using h

theorem nested_of_hidden {ms : List Mark} (h : ∀ m ∈ ms, m.kind ≠ .code) : Nested ms := by
  induction ms with
  | nil => exact .nil
  | cons m ms ih =>
    have hm := h m List.mem_cons_self
    exact .plain (by simp [Mark.opens, hm]) (by simp [Mark.closes, hm])
      (ih fun n hn => h n (List.mem_cons_of_mem m hn))

/-- A bracket that opens inside nested text is closed there. -/
theorem Nested.exists_closer {before after : List Mark} {o : Mark}
    (h : Nested (before ++ o :: after)) (ho : o.opens = true) :
    ∃ inner c rest, after = inner ++ c :: rest ∧ c.closesOf o = true ∧ Nested inner := by
  generalize hms : before ++ o :: after = ms at h
  -- along the nesting: the bracket is one of it, or stands in a part of it
  induction h generalizing before after with
  | nil => simp at hms
  | @plain m rest hmo hmc hrest ih =>
    cases before with
    | nil =>
      obtain ⟨rfl, rfl⟩ := List.cons.inj hms
      rw [ho] at hmo
      exact absurd hmo (by decide)
    | cons b before =>
      obtain ⟨-, he⟩ := List.cons.inj hms
      exact ih he
  | @bracket o' c inner rest ho' hc hinner hrest ihinner ihrest =>
    cases before with
    | nil =>
      obtain ⟨rfl, rfl⟩ := List.cons.inj hms
      exact ⟨inner, c, rest, rfl, hc, hinner⟩
    | cons b before =>
      obtain ⟨-, he⟩ := List.cons.inj hms
      have hcloser : ¬c.opens = true := by
        rw [Mark.opens_eq_false_of_closes (Mark.closes_of_closesOf hc)]
        exact Bool.false_ne_true
      -- the bracket stands in the inner part or behind its closer
      rcases List.append_eq_append_iff.1 he with ⟨mid, rfl, hm⟩ | ⟨mid, rfl, hm⟩
      · cases mid with
        | nil =>
          exact absurd ((List.cons.inj hm).1 ▸ ho) hcloser
        | cons m mid =>
          obtain ⟨rfl, rfl⟩ := List.cons.inj hm
          obtain ⟨i, d, r, rfl, hd, hi⟩ := ihinner rfl
          exact ⟨i, d, r ++ c :: rest, by simp, hd, hi⟩
      · cases mid with
        | nil =>
          exact absurd ((List.cons.inj hm).1 ▸ ho) hcloser
        | cons m mid =>
          obtain ⟨-, hm⟩ := List.cons.inj hm
          exact ihrest hm.symm

/-! ## 3. Looking for the closing bracket -/

theorem Nested.height?_allBrackets {ms : List Mark} (h : Nested ms) (height : Nat) :
    allBrackets.height? height ms = some height := by
  induction h generalizing height with
  | nil => rfl
  | plain ho hc _ ih => rw [allBrackets.height?_other hc ho, ih]
  | bracket ho hc _ _ ihinner ihrest =>
    rw [allBrackets.height?_opens ho, Brackets.height?_append, ihinner, Option.bind_some,
      allBrackets.height?_closes (Mark.closes_of_closesOf hc), ihrest]

/-- Nested text balances in its braces alone. -/
theorem Nested.height?_braces {ms : List Mark} (h : Nested ms) (height : Nat) :
    braces.height? height ms = some height := by
  induction h generalizing height with
  | nil => rfl
  | plain ho hc _ ih =>
    rw [braces.height?_other (Mark.isCode_closing_eq_false hc) (Mark.isCode_opening_eq_false ho),
      ih]
  | @bracket o c inner rest ho hc _ _ ihinner ihrest =>
    have hoc := Mark.isCode_closing_eq_false (Mark.closes_eq_false_of_opens ho)
    have hco := Mark.isCode_opening_eq_false
      (Mark.opens_eq_false_of_closes (Mark.closes_of_closesOf hc))
    have hpair := Mark.isCode_brace_of_closesOf ho hc
    -- other brackets than braces do not count
    cases hb : o.isCode '\x7b' with
    | true =>
      rw [braces.height?_opens hb, Brackets.height?_append, ihinner, Option.bind_some,
        braces.height?_closes (hpair.trans hb), ihrest]
    | false =>
      rw [braces.height?_other hoc hb, Brackets.height?_append, ihinner, Option.bind_some,
        braces.height?_other (hpair.trans hb) hco, ihrest]

theorem splitClose_nested {ms : List Mark} (h : Nested ms) (depth : Nat) (rest : List Mark) :
    splitClose (depth + 1) (ms ++ rest) =
      (splitClose (depth + 1) rest).map fun (inner, tail) => (ms ++ inner, tail) :=
  splitClose_append (h.height?_allBrackets depth) rest

/-- The closer of nested text is the bracket right behind it. -/
theorem splitClose_closer {ms : List Mark} (h : Nested ms) {c : Mark} (hc : c.closes = true)
    (rest : List Mark) : splitClose 1 (ms ++ c :: rest) = some (ms, rest) := by
  rw [splitClose_nested h 0]
  simp [splitClose, hc]

theorem splitBlock_nested {ms : List Mark} (h : Nested ms) (depth : Nat) (rest : List Mark) :
    splitBlock depth (ms ++ rest) =
      (splitBlock depth rest).map fun (body, tail) => (ms ++ body, tail) :=
  splitBlock_append (h.height?_braces depth) rest

theorem splitBlock_closer {ms : List Mark} (h : Nested ms) {c : Mark}
    (hc : c.isCode '\x7d' = true) (rest : List Mark) :
    splitBlock 0 (ms ++ c :: rest) = some (ms, rest) := by
  rw [splitBlock_nested h 0]
  simp [splitBlock, hc]

/-! ## 4. Depths -/

/-- The bracket depth after some marked characters. -/
def depthAfter (depth : Nat) (ms : List Mark) : Nat := ms.foldl (fun d m => m.depth d) depth

@[simp] theorem depthAfter_nil (depth : Nat) : depthAfter depth [] = depth := rfl

@[simp] theorem depthAfter_cons (depth : Nat) (m : Mark) (ms : List Mark) :
    depthAfter depth (m :: ms) = depthAfter (m.depth depth) ms := rfl

theorem depthAfter_append (depth : Nat) (ms ns : List Mark) :
    depthAfter depth (ms ++ ns) = depthAfter (depthAfter depth ms) ns :=
  List.foldl_append

theorem Mark.depth_of_closes {m : Mark} (h : m.closes = true) (depth : Nat) :
    m.depth depth = depth - 1 := by
  simp [Mark.depth, h, Mark.opens_eq_false_of_closes h]

theorem Mark.depth_of_opens {m : Mark} (h : m.opens = true) (depth : Nat) :
    m.depth depth = depth + 1 := by
  simp [Mark.depth, h]

theorem Nested.depthAfter {ms : List Mark} (h : Nested ms) (depth : Nat) :
    depthAfter depth ms = depth := by
  induction h generalizing depth with
  | nil => rfl
  | plain ho hc _ ih => simp [Mark.depth, ho, hc, ih]
  | bracket ho hc _ _ ihinner ihrest =>
    have hcc := Mark.closes_of_closesOf hc
    simp [depthAfter_append, Mark.depth_of_closes hcc, Mark.depth_of_opens ho, ihinner, ihrest]

/-- The end of nested text brings the depth back to zero even if the brackets that it closes were
opened before. -/
theorem Nested.depthAfter_suffix {before after : List Mark} (h : Nested (before ++ after)) :
    Source.depthAfter 0 after = 0 := by
  generalize hms : before ++ after = ms at h
  induction h generalizing before after with
  | nil =>
    obtain ⟨-, rfl⟩ := List.append_eq_nil_iff.1 hms
    rfl
  | @plain m rest ho hc hrest ih =>
    cases before with
    | nil =>
      have h : Nested after := by
        rw [List.nil_append] at hms
        exact hms ▸ Nested.plain ho hc hrest
      exact h.depthAfter 0
    | cons b before => exact ih (List.cons.inj hms).2
  | @bracket o c inner rest ho hc hinner hrest ihinner ihrest =>
    cases before with
    | nil =>
      have h : Nested after := by
        rw [List.nil_append] at hms
        exact hms ▸ Nested.bracket ho hc hinner hrest
      exact h.depthAfter 0
    | cons b before =>
      have hcc := Mark.closes_of_closesOf hc
      obtain ⟨-, he⟩ := List.cons.inj hms
      rcases List.append_eq_append_iff.1 he with ⟨mid, rfl, rfl⟩ | ⟨mid, rfl, hm⟩
      · rw [depthAfter_append, ihinner rfl, depthAfter_cons, Mark.depth_of_closes hcc]
        exact hrest.depthAfter 0
      · cases mid with
        | nil =>
          rw [List.nil_append] at hm
          rw [← hm, depthAfter_cons, Mark.depth_of_closes hcc]
          exact hrest.depthAfter 0
        | cons m mid => exact ihrest (List.cons.inj hm).2.symm

/-! ## 5. Deciding whether text is nested -/

/-- The closing brackets that are still to come after some marked characters, the next one first;
there are none if one was missing or of another kind. -/
def toClose : List Char → List Mark → Option (List Char)
  | stack, [] => some stack
  | stack, m :: rest =>
    if m.opens then toClose (closerOf m.char :: stack) rest
    else if m.closes then
      match stack with
      | [] => none
      | c :: stack => if c = m.char then toClose stack rest else none
    else toClose stack rest

/-- Marked characters that close the given brackets one after another, with nested text between. -/
inductive Closing : List Char → List Mark → Prop
  | done {ms : List Mark} (h : Nested ms) : Closing [] ms
  | close {m : Mark} {inner rest : List Mark} {stack : List Char} (hinner : Nested inner)
      (hm : m.closes = true) (hrest : Closing stack rest) :
      Closing (m.char :: stack) (inner ++ m :: rest)

theorem Closing.nested_append {stack : List Char} {ms ns : List Mark} (h : Closing stack ns)
    (hms : Nested ms) : Closing stack (ms ++ ns) := by
  cases h with
  | done h => exact .done (hms.append h)
  | close hinner hm hrest =>
    rw [← List.append_assoc]
    exact .close (hms.append hinner) hm hrest

theorem closing_of_toClose {stack : List Char} {ms : List Mark} (h : toClose stack ms = some []) :
    Closing stack ms := by
  fun_induction toClose stack ms with
  | case1 stack =>
    obtain rfl := Option.some.inj h
    exact .done .nil
  | case2 stack m rest ho ih =>
    generalize hs : closerOf m.char :: stack = s at h ih
    -- what closes the bracket is the first closer the stack asks for
    cases ih h with
    | done => simp at hs
    | @close c inner rest stack' hinner hc hrest =>
      obtain ⟨hcc, rfl⟩ := List.cons.inj hs
      have hof : c.closesOf m = true := Mark.closesOf_iff.2 ⟨Mark.kind_of_closes hc, hcc.symm⟩
      have hn := Nested.bracket ho hof hinner Nested.nil
      have h := hrest.nested_append hn
      simpa using h
  | case3 => simp at h
  | case4 m rest ho hc stack ih =>
    have h := Closing.close Nested.nil hc (ih h)
    simpa using h
  | case5 => simp at h
  | case6 stack m rest ho hc ih =>
    simp only [Bool.not_eq_true] at ho hc
    exact (ih h).nested_append (.plain ho hc .nil)

theorem toClose_nested {ms : List Mark} (h : Nested ms) (stack : List Char) (rest : List Mark) :
    toClose stack (ms ++ rest) = toClose stack rest := by
  induction h generalizing stack rest with
  | nil => rfl
  | plain ho hc _ ih => simp [toClose, ho, hc, ih]
  | bracket ho hc _ _ ihinner ihrest =>
    have hcc := Mark.closes_of_closesOf hc
    have hco := Mark.opens_eq_false_of_closes hcc
    simp [toClose, ho, hcc, hco, ihinner, ihrest, (Mark.closesOf_iff.1 hc).2]

theorem nested_iff_toClose {ms : List Mark} : Nested ms ↔ toClose [] ms = some [] := by
  constructor
  · intro h
    have h := toClose_nested h [] []
    rwa [List.append_nil] at h
  · intro h
    cases closing_of_toClose h with
    | done h => exact h

instance (ms : List Mark) : Decidable (Nested ms) := decidable_of_iff _ nested_iff_toClose.symm

/-! ## 6. Texts that stand on their own -/

/-- A text that neither leaves a literal, a comment or a bracket open nor closes a bracket that it
did not open. -/
structure SelfContained (t : Text) : Prop where
  mode : finalMode t = .code
  nested : Nested (marks t)

instance (t : Text) : Decidable (SelfContained t) :=
  decidable_of_iff (finalMode t = .code ∧ Nested (marks t))
    ⟨fun h => ⟨h.1, h.2⟩, fun h => ⟨h.mode, h.nested⟩⟩

theorem SelfContained.isArgumentList {t : Text} (h : SelfContained t) : IsArgumentList t :=
  ⟨h.mode, Brackets.balanced_iff_height?.2 (h.nested.height?_allBrackets 0)⟩

theorem SelfContained.append {a b : Text} (ha : SelfContained a) (hb : SelfContained b)
    (hmeet : MeetApart a b) : SelfContained (a ++ b) where
  mode := by rw [finalMode_append ha.mode hmeet]; exact hb.mode
  nested := by rw [marks_append ha.mode hmeet]; exact ha.nested.append hb.nested

theorem selfContained_literal {quote : Char} (hq : isQuote quote = true) {inner : Text}
    (h : isLiteralBody quote inner = true) : SelfContained (quote :: inner ++ [quote]) where
  mode := finalMode_literal hq h []
  nested := by
    rw [marks_literal hq h []]
    refine nested_of_hidden fun m hm => ?_
    simp only [List.cons_append, List.mem_cons, List.mem_append, List.mem_map] at hm
    rcases hm with rfl | ⟨c, -, rfl⟩ | rfl | hm
    · simp [literalMark]
    · simp [literalMark]
    · simp [literalMark]
    · exact absurd hm (by simp [marks, read])

theorem SelfContained.marks_append_cons {a : Text} (ha : SelfContained a) {c : Char}
    (hc : isPlain c = true) (hb : c ≠ '*') (t : Text) :
    marks (a ++ c :: t) = marks a ++ codeMark c :: marks t :=
  Source.marks_append_cons ha.mode hc hb t

theorem SelfContained.finalMode_append_cons {a : Text} (ha : SelfContained a) {c : Char}
    (hc : isPlain c = true) (hb : c ≠ '*') (t : Text) :
    finalMode (a ++ c :: t) = finalMode t :=
  Source.finalMode_append_cons ha.mode hc hb t

end Parlance.Source
