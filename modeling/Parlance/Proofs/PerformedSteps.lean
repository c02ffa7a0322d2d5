import Parlance.Proofs.BalancedCalls
import Parlance.Proofs.BlockBounds
import Parlance.Proofs.Items
import Parlance.Proofs.StatementCuts

/-!
What is wrapped in a step without a title of its own comes back. An unknown command travels in a
comment and a kept statement as the body of a callback; in both cases the body is one line, which
stands on its own between the lines of the step.
-/

namespace Parlance

open Source

/-! ## 1. Lines of a body -/

/-- A line that is read on its own up to its end. -/
def IsLine (code : Text) : Prop :=
  ∀ t, read .code (code ++ '\n' :: t) = (marks code ++ codeMark '\n' :: marks t, finalMode t)

theorem isLine_of_finalMode {code : Text} (h : finalMode code = .code) : IsLine code := by
  intro t
  have hmeet : MeetApart code ('\n' :: t) := .of_head (by decide) (by decide)
  rw [@read_append .code _ _ trivial h hmeet, marks_plain_cons (by decide),
    finalMode_plain_cons (by decide)]
  rfl

/-- A comment up to the end of its line. -/
def lineComment (text : Text) : Text := '/' :: '/' :: ' ' :: text

section Comment

variable {x : Text} (hx : x.all (· ≠ '\n') = true)

include hx

theorem marks_lineComment : marks (lineComment x) = (lineComment x).map commentMark := by
  have hspace : (' ' :: x).all (· ≠ '\n') = true := by simpa using hx
  rw [marks, lineComment, Source.read, read_lineComment_end hspace]
  rfl

theorem balanced_lineComment {b : Brackets}
    (hb : ∀ c, b.closes (commentMark c) = false ∧ b.opens (commentMark c) = false) :
    b.Balanced (marks (lineComment x)) := by
  apply Brackets.balanced_of_other
  intro m hm
  rw [marks_lineComment hx] at hm
  obtain ⟨c, -, rfl⟩ := List.mem_map.1 hm
  exact hb c

theorem isLine_lineComment : IsLine (lineComment x) := by
  intro t
  have hspace : (' ' :: x).all (· ≠ '\n') = true := by simpa using hx
  have htext : lineComment x ++ '\n' :: t = '/' :: '/' :: (' ' :: x ++ '\n' :: t) := rfl
  rw [htext, Source.read, read_lineComment hspace, marks_lineComment hx]
  rfl

end Comment

/-- A line inside a block, between the line breaks around it. -/
def Style.bodyLine (s : Style) (level : Nat) (code : Text) : Text :=
  '\n' :: (s.indentation (level + 1) ++ (code ++ '\n' :: s.indentation level))

section BodyLine

variable {code : Text} (s : Style) (level : Nat)

theorem read_bodyLine (h : IsLine code) :
    read .code (s.bodyLine level code) =
      (('\n' :: s.indentation (level + 1)).map codeMark ++
        (marks code ++ ('\n' :: s.indentation level).map codeMark), .code) := by
  have hplain (level : Nat) : (s.indentation level).all isPlain = true :=
    Text.all_mono isPlain_of_isBlank (s.isBlank_indentation level)
  unfold Style.bodyLine
  rw [read_plain_cons (by decide), marks, finalMode, read_plain (hplain _), marks, finalMode, h,
    marks_plain (hplain _), finalMode_plain (hplain _)]
  rfl

/-- Around a line no bracket is opened or closed. -/
theorem balanced_bodyLine {b : Brackets}
    (hb : ∀ c, isBlank c = true → b.closes (codeMark c) = false ∧ b.opens (codeMark c) = false)
    (h : IsLine code) (hcode : b.Balanced (marks code)) :
    b.Balanced (marks (s.bodyLine level code)) := by
  have hblanks (level : Nat) : b.Balanced (('\n' :: s.indentation level).map codeMark) := by
    apply Brackets.balanced_of_other
    intro m hm
    obtain ⟨c, hc, rfl⟩ := List.mem_map.1 hm
    have hall : ('\n' :: s.indentation level).all isBlank = true := s.isBlank_indentation level
    exact hb c (List.all_eq_true.1 hall c hc)
  rw [marks, read_bodyLine s level h]
  exact (hblanks _).append (hcode.append (hblanks _))

theorem isArgumentList_bodyLine (h : IsLine code) (hcode : allBrackets.Balanced (marks code)) :
    IsArgumentList (s.bodyLine level code) where
  mode := by rw [finalMode, read_bodyLine s level h]
  balanced := by
    refine balanced_bodyLine s level (fun c hc => ?_) h hcode
    have hbracket := not_bracket_of_holds (by decide) hc
    simp [allBrackets, Mark.opens, Mark.closes, codeMark, hbracket]

theorem isBlockBody_bodyLine (h : IsLine code) (hcode : braces.Balanced (marks code)) :
    IsBlockBody (s.bodyLine level code) where
  mode := by rw [finalMode, read_bodyLine s level h]
  balanced := by
    refine balanced_bodyLine s level (fun c hc => ?_) h hcode
    have hopen : c ≠ '\x7b' := of_decide_eq_true (Text.ne_of_holds (by decide) c hc)
    have hclose : c ≠ '\x7d' := of_decide_eq_true (Text.ne_of_holds (by decide) c hc)
    simp [braces, Mark.isCode, codeMark, hopen, hclose]

theorem splitStatements_bodyLine (code : Text) :
    splitStatements (s.bodyLine level code) =
      splitStatements (code ++ '\n' :: s.indentation level) := by
  have hbreak : isBlank '\n' = true := by decide
  unfold Style.bodyLine
  rw [splitStatements_blank_cons hbreak,
    splitStatements_blanks_append (s.isBlank_indentation (level + 1))]

theorem trim_bodyLine (h : Text.IsTrimmed code) : Text.trim (s.bodyLine level code) = code := by
  have hbefore : ('\n' :: s.indentation (level + 1)).all isBlank = true :=
    s.isBlank_indentation (level + 1)
  have hafter : ('\n' :: s.indentation level).all isBlank = true := s.isBlank_indentation level
  show Text.trim ('\n' :: s.indentation (level + 1) ++ (code ++ '\n' :: s.indentation level)) = _
  rw [Text.trim, Text.trimStart, List.dropWhile_append_of_pos (List.all_eq_true.1 hbefore)]
  exact h.trim_append_blanks hafter

end BodyLine

/-! ## 2. Reading the body back -/

/-- A function without parameters, as it is written. -/
def callback (body : Text) : Text := "() => ".toList ++ ('\x7b' :: body ++ ['\x7d'])

theorem dropWhile_callback (body : Text) :
    (callback body).dropWhile (· ≠ '\x7b') = '\x7b' :: (body ++ ['\x7d']) := rfl

theorem read_callback {body : Text} (h : IsBlockBody body) :
    Block.read (body ++ ['\x7d']) = ⟨body, true, []⟩ := Block.read_of_closes ⟨rfl, h⟩

/-- A call in a comment is read as a command that no table knows. -/
theorem readPerformed_lineComment (s : Style) (level : Nat) {x : Text} (htrim : Text.IsTrimmed x)
    (hx : x.all (· ≠ '\n') = true) {link : Link} (hlink : readChain x = some [link]) :
    readPerformed (callback (s.bodyLine level (lineComment x))) =
      some (.chain [⟨.unrecognized link.name, link.name, link.args.map Text.trim⟩]) := by
  have hbalanced : braces.Balanced (marks (lineComment x)) := balanced_lineComment hx fun c => by
    simp [braces, Mark.isCode, commentMark]
  have hbody := isBlockBody_bodyLine s level (isLine_lineComment hx) hbalanced
  have hspace : (' ' :: x).all (· ≠ '\n') = true := by simpa using hx
  -- without a name behind it, trimming would take the space of the comment away
  have hne : x ≠ [] := by
    rintro rfl
    obtain ⟨c, rest, hx, -⟩ := exists_head_of_readLinks hlink
    exact absurd hx (by simp [skipBlanks])
  have hcomment : Text.IsTrimmed (lineComment x) :=
    ⟨rfl, @Text.last_append _ ['/', '/', ' '] x hne htrim.last⟩
  have hstatement : statement (lineComment x) = [lineComment x] := by
    rw [statement, hcomment.trim_eq]
    rfl
  -- the line break behind the comment ends it, so that it is the one statement of the body
  have hstatements : splitStatements (s.bodyLine level (lineComment x)) = [lineComment x] := by
    have hcut := splitStatements_comment hspace (s.indentation level)
    rw [splitStatements_blanks (s.isBlank_indentation level), List.append_nil] at hcut
    exact (splitStatements_bodyLine s level _).trans (hcut.trans hstatement)
  have hafter : Text.after? "//" (lineComment x) = some (' ' :: x) := rfl
  have hchain : readChain (Text.trim (' ' :: x)) = some [link] := by
    rw [Text.trim_cons_blank (by decide), htrim.trim_eq, hlink]
  unfold readPerformed
  simp only [dropWhile_callback, read_callback hbody, hstatements, hafter, hchain]

/-- A line of code is read as a statement that was kept. -/
theorem readPerformed_line (s : Style) (level : Nat) {code : Text} (htrim : Text.IsTrimmed code)
    (hline : '\n' ∉ code) (hmode : finalMode code = .code) (hne : splitStatements code ≠ [])
    (hbraces : braces.Balanced (marks code)) :
    readPerformed (callback (s.bodyLine level code)) = some (.raw code) := by
  have hbody := isBlockBody_bodyLine s level (isLine_of_finalMode hmode) hbraces
  have hblanks : ('\n' :: s.indentation level).all isBlank = true := s.isBlank_indentation level
  -- what stands around the line is blank, so the body has the statements of the line
  have hstatements := splitStatements_bodyLine s level code
  rw [splitStatements_line hline hmode hblanks] at hstatements
  cases hcode : splitStatements code with
  | nil => exact absurd hcode hne
  | cons first more =>
    rw [hcode] at hstatements
    have hfirst : (splitStatements code).head? = some first := congrArg List.head? hcode
    -- and it is not taken for the comment that stands for an unknown call
    have hnone := after?_eq_none_of_line hline hmode hfirst
    unfold readPerformed
    simp only [dropWhile_callback, read_callback hbody, hstatements, hnone,
      trim_bodyLine s level htrim]

/-! ## 3. Reading the step back -/

/-- A step without a title of its own, as it is written. -/
def Style.performedStep (s : Style) (body : Text) : Text :=
  callText "step" (s.literal performAction ++ (", ".toList ++ callback body))

section Step

variable {body : Text} (s : Style) (h : IsArgumentList body)

include h

theorem isArgumentList_callback : IsArgumentList (callback body) := by
  have hempty : IsArgumentList "() => ".toList := by decide
  exact hempty.append h.braced (.of_head (by decide) (by decide))

theorem isArgumentList_performedStep :
    IsArgumentList (s.literal performAction ++ (", ".toList ++ callback body)) := by
  have hcomma : IsArgumentList ", ".toList := by decide
  have hrest := hcomma.append (isArgumentList_callback h) (.of_head (by decide) (by decide))
  exact (s.selfContained_literal performAction).isArgumentList.append hrest
    (.of_head (by decide) (by decide))

/-- The callback is one argument, whatever stands in its body. -/
theorem isArgument_callback : IsArgument (callback body) := by
  refine (isArgumentList_callback h).isArgument ?_
  have hfront : "() => \x7b".toList.all isPlain = true := by decide
  have htext : callback body = "() => \x7b".toList ++ (body ++ ['\x7d']) := rfl
  -- the brace of the callback is open up to the end of its body
  have hinside : hasComma (0 + 1) (marks body) = false := hasComma_height? (h.balanced.height? 0)
  have hopen : depthAfter 0 ("() => \x7b".toList.map codeMark) = 0 + 1 := rfl
  rw [htext, marks_plain_append hfront, marks_append_cons h.mode (by decide) (by decide),
    hasComma_append, hopen, hasComma_append, hinside,
    hasComma_of_isCode (by decide), hasComma_of_isCode (by decide)]
  rfl

theorem splitArguments_performedStep :
    splitArguments (s.literal performAction ++ (", ".toList ++ callback body)) =
      [s.literal performAction, callback body] := by
  have hvalue := s.isValueText_literal performAction
  have hcallback := isArgumentList_callback h
  have htrim : Text.IsTrimmed (callback body) :=
    ⟨rfl, @Text.last_append _ ("() => \x7b".toList ++ body) ['\x7d'] (by decide) rfl⟩
  have hjoin := (@splitArguments_join_iff [s.literal performAction, callback body] (by simp) (by
    simp [hvalue.isTrimmed, hvalue.isArgument.1, htrim, isArgument_callback h])).2 (by
      simp [hvalue.isArgument.2, hcallback.mode])
  have htext : Text.join ", " [s.literal performAction, callback body] =
      s.literal performAction ++ (", ".toList ++ callback body) := by
    rw [Text.join, List.intercalate_cons_cons, List.intercalate_singleton, List.append_assoc]
  rw [← htext]
  exact hjoin.2

/-- A step without a title of its own is what its callback says. -/
theorem readTestRail_performedStep {step : Step}
    (hstep : readPerformed (callback body) = some step) :
    readTestRail (s.performedStep body) = some [step] := by
  have hchain : readChain (s.performedStep body) = some [⟨"step", some _⟩] :=
    readChain_callText (by decide) (isArgumentList_performedStep s h)
  -- the title is that of no check
  have htitle (source : Text) : readVerifyTitle source performAction = none := rfl
  unfold readTestRail
  rw [hchain]
  simp only [bind, Option.bind_some, if_true, splitArguments_performedStep s h, s.unquote_literal,
    List.head?_cons, readStep, htitle, Option.filter_some, decide_true, hstep]

/-- A step on lines of its own does what its callback says. -/
theorem ofBody_performedStep {step : Step} (hstep : readPerformed (callback body) = some step)
    (hknown : step.hasUnknownCallback = false) (level : Nat) :
    Step.ofBody .testRail (s.indentation level ++ (s.performedStep body ++ ';' :: ['\n'])) =
      [step] := by
  have hname : isName "step".toList = true := by decide
  have hcut := splitStatements_callText hname (isArgumentList_performedStep s h) ['\n']
  have htrim : Text.trim (s.performedStep body) = s.performedStep body :=
    (isTrimmed_callText hname _).trim_eq
  have hcode : isComment (s.performedStep body) = false := rfl
  have hshape : readShape .testRail (s.performedStep body) = some [step] :=
    readTestRail_performedStep s h hstep
  have hstatement : Step.ofStatement .testRail (s.performedStep body) = [step] := by
    unfold Step.ofStatement
    simp only [htrim, hcode, hshape, Bool.false_eq_true, if_false]
    simp [Option.filter, hknown]
  unfold Step.ofBody
  rw [splitStatements_blanks_append (s.isBlank_indentation level)]
  show (splitStatements (callText "step" _ ++ ';' :: ['\n'])).flatMap _ = _
  rw [hcut, splitStatements_blanks (by decide), List.flatMap_singleton]
  exact hstatement

end Step

/-! ## 4. Steps that are written -/

theorem text_performedStep (r : Route) (level : Nat) (code : Text) :
    (r.openStep level performAction ++ r.line (level + 1) code ++ r.closeBlock level).text =
      r.style.indentation level ++
        (r.style.performedStep (r.style.bodyLine level code) ++ ';' :: ['\n']) := by
  have hopen : "step(".toList = "step".toList ++ ['('] := rfl
  have hfunction : ", () => \x7b".toList = ", ".toList ++ ("() => ".toList ++ ['\x7b']) := rfl
  have hclose : "\x7d);".toList = ['\x7d', ')', ';'] := rfl
  show r.style.indentation level ++ ("step(".toList ++ r.style.literal performAction ++
      ", () => \x7b".toList) ++ ['\n'] ++ (r.style.indentation (level + 1) ++ code ++ ['\n']) ++
      (r.style.indentation level ++ "\x7d);".toList ++ ['\n']) = _
  show _ = r.style.indentation level ++
    ("step".toList ++ ('(' :: (r.style.literal performAction ++ (", ".toList ++ ("() => ".toList ++
      ('\x7b' :: r.style.bodyLine level code ++ ['\x7d'])))) ++ [')']) ++ [';', '\n'])
  rw [hopen, hfunction, hclose]
  simp only [Style.bodyLine, List.append_assoc, List.cons_append, List.nil_append]

/-- A call that reads as itself begins with its name and ends with it or with a parenthesis. -/
theorem isTrimmed_text {c : Command} (hread : readChain c.text = some [⟨c.name, c.args⟩]) :
    Text.IsTrimmed c.text := by
  obtain ⟨l, after, rest, more, heq, hn, -⟩ := readLinks_cases hread
  obtain ⟨rfl, -⟩ := List.cons.inj heq
  have hname : isName c.name = true := isName_of_splitName hn
  unfold Command.text
  cases c.args with
  | none => exact isTrimmed_of_isName hname
  | some args =>
    have htext : c.name ++ "(".toList ++ args ++ ")".toList = callText c.name args := by
      simp [callText]
    show Text.IsTrimmed (c.name ++ "(".toList ++ args ++ ")".toList)
    rw [htext]
    exact isTrimmed_callText hname args

theorem text_step_unrecognized (r : Route) (hr : r.target = .testRail) (level : Nat) {c : Command}
    {label : Text} (hc : c.action = .unrecognized label) (hline : Text.oneLine c.text = c.text) :
    (r.step level (.chain [c])).text =
      (r.openStep level performAction ++ r.line (level + 1) (lineComment c.text) ++
        r.closeBlock level).text := by
  have hquery : c.query? = none := by simp [Command.query?, hc, Lookup.value?]
  have hcall : r.sourceCall [] (some c) = c.text := by simp [Route.sourceCall, Text.join]
  have hchain : r.step level (.chain [c]) = r.command level [] c ++ ({} : Draft) := by
    simp [Route.step, Route.chain, Route.commands, hquery]
  have hcommand : r.command level [] c =
      Route.unmapped "command" label ++ r.commentStep level performAction c.text := by
    simp only [Route.command, hcall, hc, Route.fallback, hr]
  rw [hchain, hcommand, Route.commentStep, hline]
  simp only [Draft.text_append, List.append_nil]
  rfl

/-- An unknown command with the spaces of one line and no callback comes back as it was. -/
theorem ofBody_chain (r : Route) (hr : r.target = .testRail) (level : Nat) {c : Command}
    {label : Text} (hc : c.action = .unrecognized label) (hspaced : Text.IsSpaced c.text)
    (hread : readChain c.text = some [⟨c.name, c.args⟩])
    (htrim : ∀ args ∈ c.args, Text.trim args = args)
    (hcallback : c.args.any takesCallback = false) :
    Step.ofBody .testRail (r.step level (.chain [c])).text =
      [.chain [⟨.unrecognized c.name, c.name, c.args⟩]] := by
  have htrimmed := isTrimmed_text hread
  -- a line break would be a blank other than a space
  have hline : c.text.all (· ≠ '\n') = true := by
    rw [List.all_eq_true]
    intro d hd
    have hne : d ≠ '\n' := by
      rintro rfl
      exact absurd (hspaced.blanks _ hd (by decide)) (by decide)
    simpa using hne
  have hbalanced : allBrackets.Balanced (marks (lineComment c.text)) :=
    balanced_lineComment hline fun d => by
      simp [allBrackets, Mark.opens, Mark.closes, commentMark]
  have hargs : c.args.map Text.trim = c.args := by
    cases h : c.args with
    | none => rfl
    | some args => exact congrArg some (htrim args h)
  have hstep := readPerformed_lineComment r.style level htrimmed hline hread
  rw [hargs] at hstep
  rw [text_step_unrecognized r hr level hc (Text.oneLine_of_isSpaced hspaced htrimmed),
    text_performedStep]
  have hbody := isArgumentList_bodyLine r.style level (isLine_lineComment hline) hbalanced
  refine ofBody_performedStep r.style hbody hstep ?_ level
  simp [Step.hasUnknownCallback, Command.hasUnknownCallback, Lookup.value?, hcallback]

theorem linesFrom_of_line {t : Text} (ht : '\n' ∉ t) {line : Text} (hne : line ≠ [] ∨ t ≠ []) :
    Text.linesFrom line t = [line.reverse ++ t] := by
  induction t generalizing line with
  | nil =>
    have hline : line ≠ [] := hne.resolve_right fun h => h rfl
    simp [Text.linesFrom, hline]
  | cons c t ih =>
    simp only [List.mem_cons, not_or] at ht
    rw [Text.linesFrom, if_neg (Ne.symm ht.1), ih ht.2 (.inl (List.cons_ne_nil c line))]
    simp

theorem text_step_raw (r : Route) (hr : r.target = .testRail) (level : Nat) {code : Text}
    (hline : '\n' ∉ code) (hne : code ≠ []) (htrim : Text.trim code = code)
    (hcode : isComment code = false) :
    (r.step level (.raw code)).text =
      (r.openStep level performAction ++ r.line (level + 1) code ++ r.closeBlock level).text := by
  have hblock : r.block (level + 1) code = r.line (level + 1) code ++ ({} : Draft) := by
    unfold Route.block
    rw [Text.lines, linesFrom_of_line hline (.inr hne)]
    show r.line (level + 1) (Text.trim code) ++ Draft.concat [] = _
    rw [htrim]
    rfl
  -- the advisory that the statement was kept is no part of the code
  have hadvice (b : Bool) : (if b then Route.keptAdvice code else ({} : Draft)).text = [] := by
    cases b <;> rfl
  have hbased : r.target.isStepBased = true := by rw [hr]; rfl
  show (r.raw level code).text = _
  unfold Route.raw
  rw [hcode, if_neg Bool.false_ne_true, hbased, if_pos rfl, hblock]
  simp only [Draft.text_append, hadvice, List.nil_append, List.append_nil]

/-- A line of code that balances comes back as it was. -/
theorem ofBody_raw (r : Route) (hr : r.target = .testRail) (level : Nat) {code : Text}
    (hline : '\n' ∉ code) (htrim : Text.trim code = code) (hcode : isComment code = false)
    (hne : splitStatements code ≠ []) (hmode : finalMode code = .code)
    (hall : allBrackets.Balanced (marks code)) (hbraces : braces.Balanced (marks code)) :
    Step.ofBody .testRail (r.step level (.raw code)).text = [.raw code] := by
  have htrimmed : Text.IsTrimmed code := htrim ▸ Text.isTrimmed_trim code
  have hcons : code ≠ [] := by
    rintro rfl
    exact hne (splitStatements_blanks rfl)
  have hstep := readPerformed_line r.style level htrimmed hline hmode hne hbraces
  have hbody := isArgumentList_bodyLine r.style level (isLine_of_finalMode hmode) hall
  rw [text_step_raw r hr level hline hcons htrim hcode, text_performedStep]
  exact ofBody_performedStep r.style hbody hstep rfl level

/-- A step without a title of its own gives back what was wrapped in it: an unknown call with no
blanks but single spaces and no callback, and a line of code, of one statement or more, that is read
up to code and whose brackets balance, all together and the braces alone. -/
theorem Route.ofBody_performed (r : Route) (hr : r.target = .testRail) (level : Nat) :
    (∀ (c : Command) (label : Text), c.action = .unrecognized label → Text.IsSpaced c.text →
      readChain c.text = some [⟨c.name, c.args⟩] → (∀ args ∈ c.args, Text.trim args = args) →
      c.args.any takesCallback = false →
      Step.ofBody .testRail (r.step level (.chain [c])).text =
        [.chain [⟨.unrecognized c.name, c.name, c.args⟩]]) ∧
    ∀ code : Text, '\n' ∉ code → Text.trim code = code → isComment code = false →
      splitStatements code ≠ [] → finalMode code = .code → allBrackets.Balanced (marks code) →
      braces.Balanced (marks code) →
      Step.ofBody .testRail (r.step level (.raw code)).text = [.raw code] :=
  ⟨fun _ _ => ofBody_chain r hr level, fun _ => ofBody_raw r hr level⟩

/-- A call whose arguments hold commas, quotes, brackets and the marks of comments. -/
def trickyCommand : Command :=
  ⟨.unrecognized "drag", "drag", some "'a, (b', \"// c\", /* \x7d */ [1, 2]".toList⟩

/-- A statement with such a callback. -/
def trickyCode : Text :=
  "run(() => \x7b go('\x7d, \"x'); /* ) */ return \x7b a: [1, 2] \x7d; \x7d, 5)".toList

/-- A route to titled steps in tabs and double quotes. -/
def tabbedRoute : Route := ⟨.cypress, .testRail, ⟨.tabs, .double, true⟩⟩

theorem Route.ofBody_performed_tricky :
    tabbedRoute.target = .testRail ∧
      Step.ofBody .testRail (tabbedRoute.step 2 (.chain [trickyCommand])).text =
        [.chain [trickyCommand]] ∧
      Step.ofBody .testRail (tabbedRoute.step 2 (.raw trickyCode)).text = [.raw trickyCode] := by
  have hperformed := Route.ofBody_performed tabbedRoute rfl 2
  have hspaced : Text.IsSpaced trickyCommand.text := by decide +kernel
  have hread : readChain trickyCommand.text = some [⟨trickyCommand.name, trickyCommand.args⟩] := by
    decide +kernel
  have htrim : ∀ args ∈ trickyCommand.args, Text.trim args = args := by decide +kernel
  have hcallback : trickyCommand.args.any takesCallback = false := by decide +kernel
  have hline : '\n' ∉ trickyCode ∧ Text.trim trickyCode = trickyCode := by decide +kernel
  have hcode : isComment trickyCode = false ∧ splitStatements trickyCode ≠ [] := by decide +kernel
  have hmode : finalMode trickyCode = .code := by decide +kernel
  have hbalanced :
      allBrackets.Balanced (marks trickyCode) ∧ braces.Balanced (marks trickyCode) := by
    decide +kernel
  exact ⟨rfl, hperformed.1 trickyCommand "drag" rfl hspaced hread htrim hcallback,
    hperformed.2 trickyCode hline.1 hline.2 hcode.1 hcode.2 hmode hbalanced.1 hbalanced.2⟩

end Parlance
