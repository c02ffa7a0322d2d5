import Parlance.Draft.Step
import Parlance.Proofs.Arguments
import Parlance.Step.Statement

/-!
What steps say, in whatever vocabulary and quotes: each command with the queries before it, and each
check with its subject. The tables of a code vocabulary read every name that they write as the
command or check it was written for.
-/

namespace Parlance

open Source (Link SelfContained isName splitArguments)

/-! ## 1. Items -/

/-- A query by what it says. -/
structure Reach where
  action : Action
  operands : List Operand
deriving DecidableEq, Repr

def Query.said (q : Query) : Reach := ⟨q.action, operands q.selector⟩

inductive Aim where
  | page
  | element (queries : List Reach)
  | value (expr : Text)
deriving DecidableEq, Repr

def Subject.said : Subject → Aim
  | .page => .page
  | .element queries => .element (queries.map Query.said)
  | .value expr => .value expr

/-- One thing that steps say. -/
inductive Item where
  /-- A command, with the queries before it unless it acts on the page. -/
  | act (queries : List Reach) (action : Lookup Action) (operands : List Operand)
  /-- Queries that nothing follows. -/
  | reach (queries : List Reach)
  | check (aim : Aim) (expectation : Lookup Expectation) (negated : Bool) (operands : List Operand)
  /-- A statement that is kept. -/
  | kept (code : Text)
deriving DecidableEq, Repr

def Command.isOnPage (c : Command) : Bool := c.action.value?.any fun a => a.kind = .page

def Command.item (queries : List Query) (c : Command) : Item :=
  .act (if c.isOnPage then [] else queries.map Query.said) c.action (operands (c.args.getD []))

/-- What the commands of a chain say; `queries` are those before them. -/
def Command.items (queries : List Query) : List Command → List Item
  | [] => []
  | c :: rest =>
    match c.query? with
    | some query => items (queries ++ [query]) rest
    | none => c.item queries :: items queries rest

def Assertion.item (a : Assertion) : Item :=
  .check a.subject.said a.expectation a.negated (operands (a.argument.getD []))

def Step.items : Step → List Item
  | .chain commands =>
    if commands.all fun c => c.query?.isSome then
      [.reach ((commands.filterMap Command.query?).map Query.said)]
    else
      Command.items [] commands
  | .verify a => [a.item]
  | .raw code => [.kept code]

/-! ## 2. Steps that a code vocabulary can say -/

def hasValues (args : Text) : Bool := (splitArguments args).all isValue

/-- Whether a query looks for a selector or a text that is one literal in straight quotes. -/
def Query.isSayable (q : Query) : Bool :=
  (q.action = .locate || q.action = .locateText) && (plainLiteral? (Text.trim q.selector)).isSome

/-- Whether a command that is no query can be said; one that acts on an element must have
reached it. -/
def Command.isSayable (f : Framework) (reached : Bool) (c : Command) : Bool :=
  hasValues (c.args.getD []) &&
    match c.action with
    | .known a => (a.name? f).isSome && (a.kind ≠ .element || reached)
    | .unrecognized _ => false

/-- Whether the commands of a chain can be said; `reached` tells whether queries stand before
them. -/
def Command.areSayable (f : Framework) (reached : Bool) : List Command → Bool
  | [] => true
  | c :: rest =>
    match c.query? with
    | some query => query.isSayable && areSayable f true rest
    | none => c.isSayable f reached && areSayable f reached rest

/-- Whether a check can be said: of the page its address, in a vocabulary of chained commands, and
its title, of an element all else. -/
def Assertion.isSayable (f : Framework) (a : Assertion) : Bool :=
  hasValues (a.argument.getD []) &&
    match a.subject, a.expectation with
    | .page, .known e =>
      a.argument.isSome && (e = .haveTitle || (e = .haveUrl && f = .cypress))
    | .element queries, .known e =>
      !queries.isEmpty && queries.all Query.isSayable && !e.isAboutPage
    | _, _ => false

/-- Whether a step can be said: a chain that does more than reach an element, or a check. -/
def Step.isSayable (f : Framework) : Step → Bool
  | .chain commands =>
    commands.any (fun c => c.query?.isNone) && Command.areSayable f false commands
  | .verify a => a.isSayable f
  | .raw _ => false

/-! ## 3. Names -/

def codeFrameworks : List Framework := [.cypress, .playwright]

theorem Action.mem_all (a : Action) : a ∈ Action.all := by cases a <;> decide

theorem Expectation.mem_all (e : Expectation) : e ∈ Expectation.all := by cases e <;> decide

/-- The name that is written for a command is read as the command. -/
theorem Action.lookup_name {f : Framework} (hf : f ∈ codeFrameworks) {a : Action} {name : Text}
    (h : a.name? f = some name) : Action.lookup f name = .known a ∧ isName name = true := by
  -- the tables are finite, so each name can be looked up
  have hall : ∀ f ∈ codeFrameworks, ∀ a ∈ Action.all, (a.name? f).all (fun name =>
      Action.lookup f name = .known a && isName name) = true := by decide +kernel
  have ha := hall f hf a a.mem_all
  rw [h] at ha
  simpa using ha

/-- The name that is written for a check is read as the check, unless it is one of the page in a
vocabulary that tells these by their subject. -/
theorem Expectation.lookup_name {f : Framework} (hf : f ∈ codeFrameworks) {e : Expectation}
    (h : f = .cypress → e.isAboutPage = false) :
    ∃ name, e.name? f = some name ∧ Expectation.lookup f name = .known e := by
  have hall : ∀ f ∈ codeFrameworks, ∀ e ∈ Expectation.all,
      (f = .cypress → e.isAboutPage = false) →
        (e.name? f).any (fun name => Expectation.lookup f name = .known e) = true := by
    decide +kernel
  have he := hall f hf e e.mem_all h
  simp only [Option.any_eq_true, decide_eq_true_eq] at he
  exact he

/-! ## 4. Links that are read as commands -/

def linkCommand (f : Framework) (l : Link) : Command :=
  .call (Action.lookup f l.name) l.name (l.args.getD [])

def linkQuery (f : Framework) (l : Link) : Query :=
  ⟨(Action.lookup f l.name).value?.getD .locate, Text.trim (l.args.getD [])⟩

/-- A call of a chain that is a command, and can be read as it is written. -/
structure IsCall (f : Framework) (a : Action) (l : Link) : Prop where
  sound : l.IsSound
  isCall : l.args.isSome = true
  lookup : Action.lookup f l.name = .known a

def IsQueryCall (f : Framework) (l : Link) : Prop := ∃ a, IsCall f a l ∧ a.isQuery = true

theorem IsQueryCall.sound {f : Framework} {l : Link} (h : IsQueryCall f l) : l.IsSound := by
  obtain ⟨a, hcall, -⟩ := h
  exact hcall.sound

theorem isSound_concat {f : Framework} {links : List Link} (hlinks : ∀ l ∈ links, IsQueryCall f l)
    {last : Link} (hlast : last.IsSound) : ∀ l ∈ links ++ [last], l.IsSound :=
  List.forall_mem_append.2 ⟨fun l hl => (hlinks l hl).sound, List.forall_mem_singleton.2 hlast⟩

theorem query?_linkCommand {f : Framework} {l : Link} (h : IsQueryCall f l) :
    (linkCommand f l).query? = some (linkQuery f l) := by
  obtain ⟨a, hcall, ha⟩ := h
  simp [linkCommand, linkQuery, Command.call, Command.query?, hcall.lookup, Lookup.value?, ha]

theorem query?_linkCommand_act {f : Framework} {a : Action} {l : Link} (h : IsCall f a l)
    (ha : a.isQuery = false) : (linkCommand f l).query? = none := by
  simp [linkCommand, Command.call, Command.query?, h.lookup, Lookup.value?, ha]

theorem items_linkCommands {f : Framework} {a : Action} {act : Link} (hact : IsCall f a act)
    (ha : a.isQuery = false) {links : List Link} (hlinks : ∀ l ∈ links, IsQueryCall f l)
    (queries : List Query) :
    Command.items queries ((links ++ [act]).map (linkCommand f)) =
      [(linkCommand f act).item (queries ++ links.map (linkQuery f))] := by
  -- the queries before the command grow along the chain
  induction links generalizing queries with
  | nil => simp [Command.items, query?_linkCommand_act hact ha]
  | cons l links ih =>
    rw [List.cons_append, List.map_cons, Command.items,
      query?_linkCommand (hlinks l List.mem_cons_self)]
    show Command.items (queries ++ [linkQuery f l]) _ = _
    rw [ih fun k hk => hlinks k (List.mem_cons_of_mem l hk)]
    simp

theorem items_chain {f : Framework} {a : Action} {act : Link} (hact : IsCall f a act)
    (ha : a.isQuery = false) {links : List Link} (hlinks : ∀ l ∈ links, IsQueryCall f l) :
    (Step.chain ((links ++ [act]).map (linkCommand f))).items =
      [.act (if a.kind = .page then [] else links.map fun l => (linkQuery f l).said) (.known a)
        (operands (Text.trim (act.args.getD [])))] := by
  have hall : ((links ++ [act]).map (linkCommand f)).all (fun c => c.query?.isSome) = false := by
    simp [query?_linkCommand_act hact ha]
  unfold Step.items
  simp only [hall, Bool.false_eq_true, if_false]
  rw [items_linkCommands hact ha hlinks]
  simp [Command.item, Command.isOnPage, linkCommand, Command.call, hact.lookup, Lookup.value?,
    Function.comp_def]

/-- What a command says is what the links that stand for its queries say. -/
theorem Command.item_eq {f : Framework} {c : Command} {a : Action} (hc : c.action = .known a)
    {queries : List Query} {links : List Link}
    (hsaid : a.kind ≠ .page → links.map (fun l => (linkQuery f l).said) = queries.map Query.said) :
    c.item queries = .act (if a.kind = .page then [] else links.map fun l => (linkQuery f l).said)
      (.known a) (operands (c.args.getD [])) := by
  unfold Command.item Command.isOnPage
  rw [hc]
  by_cases hp : a.kind = .page
  · simp [hp, Lookup.value?]
  · simp [hp, Lookup.value?, hsaid hp]

theorem said_element {f : Framework} {queries : List Query} {links : List Link}
    (hsaid : links.map (fun l => (linkQuery f l).said) = queries.map Query.said) :
    (Subject.element (links.map (linkQuery f))).said = (Subject.element queries).said := by
  show Aim.element _ = Aim.element _
  rw [List.map_map, ← hsaid]
  rfl

theorem hasUnknownCallback_linkCommand {f : Framework} {a : Action} {l : Link}
    (h : IsCall f a l) : (linkCommand f l).hasUnknownCallback = false := by
  simp [Command.hasUnknownCallback, linkCommand, Command.call, h.lookup, Lookup.value?]

/-! ## 5. Written calls -/

theorem Command.isSayable_cases {f : Framework} {reached : Bool} {c : Command}
    (h : c.isSayable f reached = true) (hquery : c.query? = none) :
    hasValues (c.args.getD []) = true ∧ ∃ a name, c.action = .known a ∧ a.name? f = some name ∧
      a.isQuery = false ∧ (a.kind ≠ .page → reached = true) := by
  simp only [Command.isSayable, Bool.and_eq_true] at h
  obtain ⟨hargs, haction⟩ := h
  refine ⟨hargs, ?_⟩
  cases hc : c.action with
  | unrecognized name =>
    rw [hc] at haction
    exact absurd haction Bool.false_ne_true
  | known a =>
    rw [hc] at haction
    simp only [Bool.and_eq_true, Bool.or_eq_true, ne_eq, decide_eq_true_eq] at haction
    obtain ⟨hname, hreached⟩ := haction
    obtain ⟨name, hname⟩ := Option.isSome_iff_exists.1 hname
    have ha : a.isQuery = false := by
      unfold Command.query? at hquery
      simpa [hc, Lookup.value?] using hquery
    refine ⟨a, name, rfl, hname, ha, ?_⟩
    intro hkind
    rcases hreached with hne | hr
    · -- what is neither a query nor on the page acts on an element
      cases hk : a.kind with
      | query => exact absurd ha (by simp [Action.isQuery, hk])
      | element => exact absurd hk hne
      | page => exact absurd hk hkind
    · exact hr

theorem Assertion.isSayable_cases {f : Framework} {a : Assertion} (h : a.isSayable f = true) :
    hasValues (a.argument.getD []) = true ∧ ∃ e, a.expectation = .known e ∧
      ((a.subject = .page ∧ a.argument.isSome = true ∧
          (e = .haveTitle ∨ (e = .haveUrl ∧ f = .cypress))) ∨
        ∃ queries, a.subject = .element queries ∧ queries ≠ [] ∧
          (∀ q ∈ queries, q.isSayable = true) ∧ e.isAboutPage = false) := by
  simp only [Assertion.isSayable, Bool.and_eq_true] at h
  obtain ⟨hargs, h⟩ := h
  refine ⟨hargs, ?_⟩
  cases he : a.expectation with
  | unrecognized name =>
    cases hs : a.subject <;> simp [hs, he] at h
  | known e =>
    refine ⟨e, rfl, ?_⟩
    cases hs : a.subject with
    | page =>
      simp only [hs, he, Bool.and_eq_true, Bool.or_eq_true, decide_eq_true_eq] at h
      exact .inl ⟨rfl, h⟩
    | element queries =>
      simp only [hs, he, Bool.and_eq_true, Bool.not_eq_true', List.isEmpty_eq_false_iff,
        List.all_eq_true] at h
      exact .inr ⟨queries, rfl, h.1.1, h.1.2, h.2⟩
    | value expr => simp [hs, he] at h

theorem Query.isSayable_cases {q : Query} (h : q.isSayable = true) :
    (q.action = .locate ∨ q.action = .locateText) ∧ q.action.isQuery = true ∧
      hasValues q.selector = true ∧ splitArguments q.selector = [Text.trim q.selector] := by
  simp only [Query.isSayable, Bool.and_eq_true, Bool.or_eq_true, decide_eq_true_eq] at h
  obtain ⟨haction, hsel⟩ := h
  have hquery : q.action.isQuery = true := by
    rcases haction with ha | ha <;> rw [ha] <;> rfl
  obtain ⟨value, hvalue⟩ : ∃ value, Source.unquote (Text.trim q.selector) = some value := by
    unfold plainLiteral? at hsel
    split at hsel
    · exact absurd hsel (by decide)
    · exact Option.isSome_iff_exists.1 hsel
  have htrim : Text.trim (Text.trim q.selector) = Text.trim q.selector :=
    (Text.isTrimmed_trim q.selector).trim_eq
  have hself : Source.unquote q.selector = some value := by
    unfold Source.unquote at hvalue ⊢
    rw [htrim] at hvalue
    exact hvalue
  -- a single literal is a single argument
  have hsplit := splitArguments_of_unquote hself
  refine ⟨haction, hquery, ?_, hsplit⟩
  simp [hasValues, hsplit, isValue, hvalue]

namespace Route

variable (r : Route)

/-- A call with arguments of the source, written in the style of the route. -/
def call (name args : Text) : Link := ⟨name, some (r.arguments args)⟩

theorem isSound_call {name args : Text} (hname : isName name = true)
    (hargs : hasValues args = true) : (r.call name args).IsSound :=
  .call hname (r.selfContained_arguments hargs)

theorem operands_call {name args : Text} (hargs : hasValues args = true) :
    operands (Text.trim ((r.call name args).args.getD [])) = operands args := by
  show operands (Text.trim (r.arguments args)) = _
  rw [r.trim_arguments hargs, r.operands_arguments hargs]

theorem operands_argument {argument : Option Text} (h : hasValues (argument.getD []) = true) :
    operands ((argument.map r.arguments).getD []) = operands (argument.getD []) := by
  cases argument with
  | none => rfl
  | some args => exact r.operands_arguments h

theorem selfContained_argument {argument : Option Text}
    (h : hasValues (argument.getD []) = true) :
    SelfContained ((argument.map r.arguments).getD []) := by
  cases argument with
  | none => exact ⟨rfl, .nil⟩
  | some args => exact r.selfContained_arguments h

theorem arguments_selector {q : Query} (hq : q.isSayable = true) :
    r.arguments q.selector = r.style.requote q.selector := by
  have htrim : Text.trim (Text.trim q.selector) = Text.trim q.selector :=
    (Text.isTrimmed_trim q.selector).trim_eq
  unfold arguments
  rw [(Query.isSayable_cases hq).2.2.2]
  show List.intercalate _ [r.style.requote (Text.trim q.selector)] = _
  rw [List.intercalate_singleton]
  simp only [Style.requote, htrim]

theorem said_call {f : Framework} {name : Text} {q : Query} (hq : q.isSayable = true)
    (hname : isName name = true) (hlookup : Action.lookup f name = .known q.action) :
    IsQueryCall f (r.call name q.selector) ∧
      (linkQuery f (r.call name q.selector)).said = q.said := by
  obtain ⟨-, hquery, hargs, -⟩ := Query.isSayable_cases hq
  refine ⟨⟨q.action, ⟨r.isSound_call hname hargs, rfl, hlookup⟩, hquery⟩, ?_⟩
  have hsaid := @operands_call r name _ hargs
  unfold Query.said
  rw [← hsaid]
  show Reach.mk ((Action.lookup f name).value?.getD .locate) _ = _
  rw [hlookup]
  rfl

end Route

/-! ## 6. Lines -/

/-- A text that says some items in a vocabulary, whatever follows it. -/
def Says (f : Framework) (t : Text) (items : List Item) : Prop :=
  ∀ rest, (Step.ofBody f (t ++ rest)).flatMap Step.items =
    items ++ (Step.ofBody f rest).flatMap Step.items

namespace Says

variable {f : Framework}

theorem nil : Says f [] [] := fun _ => rfl

theorem append {t u : Text} {items more : List Item} (ht : Says f t items) (hu : Says f u more) :
    Says f (t ++ u) (items ++ more) := by
  intro rest
  rw [List.append_assoc, ht, hu, List.append_assoc]

theorem items_eq {t : Text} {items : List Item} (h : Says f t items) :
    (Step.ofBody f t).flatMap Step.items = items := by
  have hall := h []
  rw [List.append_nil] at hall
  rw [hall]
  show items ++ [] = items
  exact List.append_nil items

end Says

/-- A text that is a statement of its own. -/
structure IsStatement (t : Text) : Prop where
  undivided : Source.Undivided t
  trimmed : Text.IsTrimmed t
  nonempty : t ≠ []
  code : isComment t = false

/-- A statement on a line of its own, with its semicolon, is cut off as it is. -/
theorem IsStatement.splitStatements_line {t : Text} (h : IsStatement t) (s : Style) (level : Nat)
    (rest : Text) :
    Source.splitStatements (s.indentation level ++ (t ++ [';']) ++ ['\n'] ++ rest) =
      t :: Source.splitStatements rest := by
  have htext : s.indentation level ++ (t ++ [';']) ++ ['\n'] ++ rest =
      s.indentation level ++ (t ++ ';' :: '\n' :: rest) := by simp
  -- the semicolon ends the statement, and the line break behind it begins nothing
  have hmarks : Source.marks (t ++ ';' :: '\n' :: rest) =
      Source.marks t ++ Source.codeMark ';' :: Source.codeMark '\n' :: Source.marks rest := by
    rw [Source.marks_append_cons h.undivided.mode (by decide) (by decide),
      Source.marks_plain_cons (by decide)]
  have hstatement : Source.statement t = [t] := by
    unfold Source.statement
    rw [h.trimmed.trim_eq]
    simp [h.nonempty]
  rw [htext, Source.splitStatements_blanks_append (s.isBlank_indentation level)]
  unfold Source.splitStatements
  rw [hmarks, Source.splitMarks_unbroken h.undivided.marks (by decide), Source.unmark_marks,
    Source.splitMarks_lineBreak]
  show Source.statement t ++ _ = _
  rw [hstatement]
  rfl

/-- Code of one line that is read again as steps which say some items. -/
def Rereads (f : Framework) (code : Text) (items : List Item) : Prop :=
  ∃ t steps, code = t ++ [';'] ∧ IsStatement t ∧ readShape f t = some steps ∧
    steps.any Step.hasUnknownCallback = false ∧ steps.flatMap Step.items = items

theorem Rereads.says {f : Framework} {code : Text} {items : List Item} (h : Rereads f code items)
    (r : Route) (level : Nat) : Says f (r.line level code).text items := by
  obtain ⟨t, steps, rfl, ht, hread, hknown, rfl⟩ := h
  have hsteps : Step.ofStatement f t = steps := by
    unfold Step.ofStatement
    simp only [ht.trimmed.trim_eq, ht.code, hread, Bool.false_eq_true, if_false]
    rw [Option.filter, hknown]
    rfl
  -- what follows the line is cut off before the line is read
  intro rest
  unfold Step.ofBody Route.line
  rw [ht.splitStatements_line, List.flatMap_cons, List.flatMap_append, hsteps]

/-- A statement that is read as the commands of its links says what they say. -/
theorem rereads_call {f : Framework} {t : Text} (ht : IsStatement t) {links : List Link}
    (hlinks : ∀ l ∈ links, IsQueryCall f l) {act : Link} {a : Action} (hact : IsCall f a act)
    (ha : a.isQuery = false)
    (hread : readShape f t = some [.chain ((links ++ [act]).map (linkCommand f))]) :
    Rereads f (t ++ [';'])
      [.act (if a.kind = .page then [] else links.map fun l => (linkQuery f l).said) (.known a)
        (operands (Text.trim (act.args.getD [])))] := by
  refine ⟨t, _, rfl, ht, hread, ?_, ?_⟩
  · have hknown : ∀ l ∈ links, (linkCommand f l).hasUnknownCallback = false := by
      intro l hl
      obtain ⟨b, hb, -⟩ := hlinks l hl
      exact hasUnknownCallback_linkCommand hb
    have hlast := hasUnknownCallback_linkCommand hact
    simpa [Step.hasUnknownCallback, List.any_eq_false, hlast] using hknown
  · rw [List.flatMap_singleton, items_chain hact ha hlinks]

/-- A statement that is read as a check says the check. -/
theorem rereads_check {f : Framework} {t : Text} (ht : IsStatement t) {a : Assertion}
    (hread : readShape f t = some [.verify a]) :
    Rereads f (t ++ [';']) [a.item] :=
  ⟨t, _, rfl, ht, hread, rfl, rfl⟩

theorem isComment_cons {c : Char} (hc : c ≠ '/') (t : Text) : isComment (c :: t) = false := by
  have hslash : ¬('/' = c) := fun h => hc h.symm
  simp [isComment, Text.startsWith, List.isPrefixOf, hslash]

theorem isStatement_chainText {root : Link} {links : List Link} (hroot : root.IsSound)
    (hlinks : ∀ l ∈ links, l.IsSound) : IsStatement (Source.chainText root links) := by
  obtain ⟨c, rest, ht, hc⟩ := hroot.isReadable.head_text (links.flatMap fun l => '.' :: l.text)
  have htext : Source.chainText root links = c :: rest := ht
  have htrimmed := Source.isTrimmed_chainText hroot.isReadable fun l hl => (hlinks l hl).isReadable
  refine ⟨Source.undivided_chainText hroot hlinks, htrimmed, ?_, ?_⟩
  · rw [htext]
    simp
  · rw [htext]
    -- a chain begins with a name, and a comment with a slash
    apply isComment_cons
    intro hs
    subst hs
    exact absurd hc (by decide)

end Parlance
