import Parlance.Proofs.Bodies
import Parlance.Proofs.WrittenSteps

/-!
What is said of the things that the target has nothing for. The advisories that steps raise are
known one by one. They name every command and every check that is unknown, every command that the
target has nothing for, and the queries that it has nothing for where a chain holds nothing else.
-/

namespace Parlance.Route

variable (r : Route) (level : Nat)

/-! ## 1. Advisories -/

theorem mem_advisories_append {a b : Draft} {m : Text} :
    m ∈ (a ++ b).advisories ↔ m ∈ a.advisories ∨ m ∈ b.advisories :=
  Advisory.mem_merge

theorem mem_advisories_concat {drafts : List Draft} {m : Text} :
    m ∈ (Draft.concat drafts).advisories ↔ ∃ d ∈ drafts, m ∈ d.advisories := by
  induction drafts with
  | nil => simp [Draft.concat]
  | cons d drafts ih => rw [Draft.concat_cons, mem_advisories_append, ih, List.exists_mem_cons_iff]

theorem advisories_fallback (call : Text) : (r.fallback level call).advisories = [] := by
  unfold fallback
  split <;> rfl

/-- Whether the target has something for a command that stands behind some queries. -/
def canSay (queries : List Query) (a : Action) (c : Command) : Bool :=
  r.target.isStepBased || (r.codeAction queries a c).isSome

/-- What a command raises. -/
theorem mem_advisories_command {queries : List Query} {c : Command} {m : Text} :
    m ∈ (r.command level queries c).advisories ↔
      (∃ name, c.action = .unrecognized name ∧ m ∈ (unmapped "command" name).advisories) ∨
        ∃ a, c.action = .known a ∧ r.canSay queries a c = false ∧
          m ∈ (r.noEquivalent c.name).advisories := by
  have hfallback := r.advisories_fallback level (r.sourceCall queries (some c))
  unfold command canSay
  cases c.action with
  | unrecognized name =>
    dsimp only
    rw [mem_advisories_append, hfallback]
    simp
  -- a step on a page of titles can say every command, code only those with an equivalent
  | known a =>
    dsimp only
    cases hbased : r.target.isStepBased with
    | true => simp [commentStep, openStep, closeBlock, line, Advisory.merge]
    | false =>
      cases hcode : r.codeAction queries a c with
      | some code => simp [line, hcode]
      | none =>
        simp only [Bool.false_eq_true, if_false]
        rw [mem_advisories_append, hfallback]
        simp [hcode]

/-- A member of a list with what stands in front of it is the first one, or one of the rest. -/
theorem exists_cut_cons {α : Type} {P : List α → α → Prop} {d : α} {rest : List α} :
    (∃ before c after, d :: rest = before ++ c :: after ∧ P before c) ↔
      P [] d ∨ ∃ before c after, rest = before ++ c :: after ∧ P (d :: before) c := by
  constructor
  · rintro ⟨before, c, after, heq, h⟩
    cases before with
    | nil =>
      obtain ⟨rfl, -⟩ := List.cons.inj heq
      exact .inl h
    | cons e before =>
      obtain ⟨rfl, rfl⟩ := List.cons.inj heq
      exact .inr ⟨before, c, after, rfl, h⟩
  · rintro (h | ⟨before, c, after, rfl, h⟩)
    · exact ⟨[], d, rest, rfl, h⟩
    · exact ⟨d :: before, c, after, rfl, h⟩

/-- What a chain raises is raised by a command that is no query, behind the queries before it. -/
theorem mem_advisories_commands {queries : List Query} {commands : List Command} {m : Text} :
    m ∈ (r.commands level queries commands).advisories ↔
      ∃ before c after, commands = before ++ c :: after ∧ c.query? = none ∧
        m ∈ (r.command level (queries ++ before.filterMap Command.query?) c).advisories := by
  induction commands generalizing queries with
  | nil => simp [Route.commands]
  | cons d rest ih =>
    rw [exists_cut_cons]
    unfold Route.commands
    cases hd : d.query? with
    | some query =>
      simp only [ih, List.filterMap_cons_some hd, reduceCtorEq, false_and, false_or,
        List.append_assoc, List.singleton_append]
    | none =>
      simp only [mem_advisories_append, ih, List.filterMap_nil, List.append_nil, true_and,
        List.filterMap_cons_none hd]

theorem mem_advisories_locate {queries : List Query} {m : Text} :
    m ∈ (r.locate level queries).advisories ↔
      r.target = .cypress ∧ r.cypressLocator queries = none ∧
        m ∈ (r.noEquivalent (r.sourceCall queries none)).advisories := by
  have hfallback := r.advisories_fallback level (r.sourceCall queries none)
  unfold locate
  cases r.target with
  | playwright => simp [line]
  | testRail => simp [commentStep, openStep, closeBlock, line, Advisory.merge]
  | cypress =>
    dsimp only
    cases r.cypressLocator queries with
    | some locator => simp [line]
    | none =>
      dsimp only
      rw [mem_advisories_append, hfallback]
      simp

/-- What a step raises, and for which of its parts. -/
inductive Raises (r : Route) : Step → Text → Prop
  | unknown {commands : List Command} {c : Command} {name m : Text} (hc : c ∈ commands)
      (hname : c.action = .unrecognized name) (hm : m ∈ (unmapped "command" name).advisories) :
      Raises r (.chain commands) m
  | unsaid {before after : List Command} {c : Command} {a : Action} {m : Text}
      (haction : c.action = .known a) (hquery : c.query? = none)
      (hsay : r.canSay (before.filterMap Command.query?) a c = false)
      (hm : m ∈ (r.noEquivalent c.name).advisories) : Raises r (.chain (before ++ c :: after)) m
  | unreached {commands : List Command} {m : Text} (honly : Command.onlyReach commands = true)
      (htarget : r.target = .cypress)
      (hlocator : r.cypressLocator (commands.filterMap Command.query?) = none)
      (hm : m ∈ (r.noEquivalent
        (r.sourceCall (commands.filterMap Command.query?) none)).advisories) :
      Raises r (.chain commands) m
  | unknownCheck {a : Assertion} {verb m : Text} (hverb : a.expectation = .unrecognized verb)
      (hm : m ∈ (unmapped "assertion" verb).advisories) : Raises r (.verify a) m
  | unsaidCheck {a : Assertion} {e : Expectation} {m : Text} (he : a.expectation = .known e)
      (hcheck : r.check a e = none) (hm : m ∈ (r.noEquivalent (e.phrase a.negated)).advisories) :
      Raises r (.verify a) m
  | kept {code m : Text} (hcode : isComment code = false)
      (hcommand : Slot.command.occursIn r.source code = true)
      (hm : m ∈ (keptAdvice code).advisories) : Raises r (.raw code) m

theorem mem_advisories_chain {commands : List Command} {m : Text} :
    m ∈ (r.chain level commands).advisories ↔ r.Raises (.chain commands) m := by
  rw [r.chain_eq]
  constructor
  · intro hm
    split at hm
    · rename_i honly
      obtain ⟨htarget, hlocator, hm⟩ := (r.mem_advisories_locate level).1 hm
      exact .unreached honly htarget hlocator hm
    · obtain ⟨before, c, after, rfl, hquery, hm⟩ := (r.mem_advisories_commands level).1 hm
      rcases (r.mem_advisories_command level).1 hm with ⟨name, hname, hm⟩ | ⟨a, ha, hsay, hm⟩
      · exact .unknown (List.mem_append_right _ List.mem_cons_self) hname hm
      · exact .unsaid ha hquery hsay hm
  · -- a command that is no query keeps the chain from being only queries
    have hnot {c : Command} (hc : c ∈ commands) (hquery : c.query? = none) :
        Command.onlyReach commands = false := by
      cases honly : Command.onlyReach commands with
      | false => rfl
      | true =>
        simp only [Command.onlyReach, Bool.and_eq_true, List.all_eq_true] at honly
        have hsome := honly.1 c hc
        rw [hquery] at hsome
        exact absurd hsome (by simp)
    intro h
    cases h with
    | @unknown _ c name _ hc hname hm =>
      have hquery : c.query? = none := by simp [Command.query?, hname, Lookup.value?]
      rw [hnot hc hquery, if_neg Bool.false_ne_true]
      obtain ⟨before, after, rfl⟩ := List.append_of_mem hc
      exact (r.mem_advisories_commands level).2 ⟨before, c, after, rfl, hquery,
        (r.mem_advisories_command level).2 (.inl ⟨name, hname, hm⟩)⟩
    | @unsaid before after c a _ ha hquery hsay hm =>
      rw [hnot (List.mem_append_right _ List.mem_cons_self) hquery, if_neg Bool.false_ne_true]
      exact (r.mem_advisories_commands level).2 ⟨before, c, after, rfl, hquery,
        (r.mem_advisories_command level).2 (.inr ⟨a, ha, hsay, hm⟩)⟩
    | unreached honly htarget hlocator hm =>
      rw [if_pos honly]
      exact (r.mem_advisories_locate level).2 ⟨htarget, hlocator, hm⟩

theorem mem_advisories_verify {a : Assertion} {m : Text} :
    m ∈ (r.verify level a).advisories ↔ r.Raises (.verify a) m := by
  have hfallback := r.advisories_fallback level a.source
  unfold verify
  -- a check raises what stands for it, and the line that is written instead raises nothing
  constructor
  · intro hm
    split at hm
    · rename_i verb hverb
      rw [mem_advisories_append, hfallback, or_iff_left List.not_mem_nil] at hm
      exact .unknownCheck hverb hm
    · rename_i e he
      split at hm
      · exact absurd hm List.not_mem_nil
      · rename_i hcheck
        rw [mem_advisories_append, hfallback, or_iff_left List.not_mem_nil] at hm
        exact .unsaidCheck he hcheck hm
  · intro h
    cases h with
    | unknownCheck hverb hm =>
      simp only [hverb]
      exact mem_advisories_append.2 (.inl hm)
    | unsaidCheck he hcheck hm =>
      simp only [he, hcheck]
      exact mem_advisories_append.2 (.inl hm)

theorem mem_advisories_raw {code m : Text} :
    m ∈ (r.raw level code).advisories ↔ r.Raises (.raw code) m := by
  have hverbatim : (r.verbatim level code).advisories = [] := r.advisories_block level _
  have hwritten : (if r.target.isStepBased then
      r.openStep level performAction ++ r.block (level + 1) code ++ r.closeBlock level
      else r.verbatim level code).advisories = [] := by
    split
    · rw [Draft.advisories_append, Draft.advisories_append, r.advisories_block]
      rfl
    · exact hverbatim
  unfold raw
  constructor
  · intro hm
    split at hm
    · rw [hverbatim] at hm
      exact absurd hm List.not_mem_nil
    · rename_i hcode
      rw [mem_advisories_append, hwritten, or_iff_left List.not_mem_nil] at hm
      split at hm
      · rename_i hcommand
        exact .kept (Bool.eq_false_iff.2 hcode) hcommand hm
      · exact absurd hm List.not_mem_nil
  · intro h
    cases h with
    | kept hcode hcommand hm =>
      rw [if_neg (by rw [hcode]; exact Bool.false_ne_true), if_pos hcommand]
      exact mem_advisories_append.2 (.inl hm)

/-- The advisories of some steps are those that each of them raises. -/
theorem mem_advisories_steps {steps : List Step} {m : Text} :
    m ∈ (r.steps level steps).advisories ↔ ∃ step ∈ steps, r.Raises step m := by
  have hstep (step : Step) : m ∈ (r.step level step).advisories ↔ r.Raises step m := by
    cases step with
    | chain commands => exact r.mem_advisories_chain level
    | verify a => exact r.mem_advisories_verify level
    | raw code => exact r.mem_advisories_raw level
  unfold Route.steps
  rw [mem_advisories_concat]
  constructor
  · rintro ⟨d, hd, hm⟩
    obtain ⟨step, hmem, rfl⟩ := List.mem_map.1 hd
    exact ⟨step, hmem, (hstep step).1 hm⟩
  · rintro ⟨step, hmem, hm⟩
    exact ⟨_, List.mem_map_of_mem hmem, (hstep step).2 hm⟩

/-! ## 2. Names -/

/-- Whether the target has nothing for a query. -/
def isUnreached (q : Query) : Bool := r.target = .cypress && (r.cypressQuery true q).isNone

/-- The name of a query in the source vocabulary. -/
def sourceName (q : Query) : Text := (q.action.name? r.source).getD q.action.label

/-- A name in a step that the target has nothing for. A query is only asked for where the chain
holds no other command: before and behind other commands it is not told of. -/
inductive Lacks (r : Route) : Step → Text → Prop
  | unknown {commands : List Command} {c : Command} {name : Text} (hc : c ∈ commands)
      (hname : c.action = .unrecognized name) : Lacks r (.chain commands) name
  | unsaid {before after : List Command} {c : Command} {a : Action}
      (haction : c.action = .known a) (hquery : c.query? = none)
      (hsay : r.canSay (before.filterMap Command.query?) a c = false) :
      Lacks r (.chain (before ++ c :: after)) c.name
  | unreached {commands : List Command} {q : Query} (honly : Command.onlyReach commands = true)
      (hq : q ∈ commands.filterMap Command.query?) (hreach : r.isUnreached q = true) :
      Lacks r (.chain commands) (r.sourceName q)
  | unknownCheck {a : Assertion} {verb : Text} (hverb : a.expectation = .unrecognized verb) :
      Lacks r (.verify a) verb

theorem infix_join {sep x : Text} {parts : List Text} (h : x ∈ parts) :
    x <:+: Text.join sep parts := by
  unfold Text.join
  induction parts with
  | nil => exact absurd h List.not_mem_nil
  | cons part rest ih =>
    cases rest with
    | nil =>
      obtain rfl := List.mem_singleton.1 h
      exact ⟨[], [], by rw [List.intercalate_singleton, List.nil_append, List.append_nil]⟩
    | cons next rest =>
      rw [List.intercalate_cons_cons]
      rcases List.mem_cons.1 h with rfl | h
      · exact (List.prefix_append _ _).isInfix.trans (List.prefix_append _ _).isInfix
      · exact (ih h).trans (List.suffix_append _ _).isInfix

/-- A query that can be said at the start of a chain can be said anywhere in it. -/
theorem isSome_cypressQuery_first (isFirst : Bool) (q : Query) :
    (r.cypressQuery isFirst q).isSome = (r.cypressQuery true q).isSome := by
  unfold cypressQuery
  cases q.action with
  | locateTestId => cases Source.unquote q.selector <;> rfl
  | _ => rfl

theorem mapM_eq_none {α β : Type} {f : α → Option β} {l : List α} {x : α} (hx : x ∈ l)
    (h : f x = none) : l.mapM f = none := by
  induction l with
  | nil => exact absurd hx List.not_mem_nil
  | cons y l ih =>
    rw [List.mapM_cons]
    rcases List.mem_cons.1 hx with rfl | hx
    · rw [h]
      rfl
    · rw [ih hx]
      cases f y <;> rfl

theorem cypressLocator_eq_none {queries : List Query} {q : Query} (hq : q ∈ queries)
    (h : r.cypressQuery true q = none) : r.cypressLocator queries = none := by
  cases queries with
  | nil => exact absurd hq List.not_mem_nil
  | cons first rest =>
    rcases List.mem_cons.1 hq with rfl | hq
    · rw [cypressLocator, h]
      rfl
    · have hquery : r.cypressQuery false q = none := by
        rw [← Option.isNone_iff_eq_none, ← Option.not_isSome, isSome_cypressQuery_first, h]
        rfl
      rw [cypressLocator, mapM_eq_none hq hquery]
      cases r.cypressQuery true first <;> rfl

theorem exists_unmapped (thing name : Text) :
    ∃ m ∈ (unmapped thing name).advisories, name <:+: m := by
  refine ⟨_, List.mem_cons_self, "Unmapped ".toList ++ thing ++ " '".toList,
    "' was emitted as a '".toList ++ performAction ++ "' comment".toList, ?_⟩
  simp only [List.append_assoc]

theorem exists_noEquivalent (name : Text) :
    ∃ m ∈ (r.noEquivalent name).advisories, name <:+: m := by
  refine ⟨_, List.mem_cons_self, "No ".toList ++ r.target.name ++ " equivalent for '".toList,
    "'; emitted as a '".toList ++ performAction ++ "' comment".toList, ?_⟩
  simp only [List.append_assoc]

/-- What the target has nothing for is named by an advisory. -/
theorem exists_raised {step : Step} {name : Text} (h : r.Lacks step name) :
    ∃ m, r.Raises step m ∧ Text.holds name m = true := by
  simp only [Text.holds_iff_infix]
  cases h with
  | unknown hc hname =>
    obtain ⟨m, hm, hin⟩ := exists_unmapped "command" name
    exact ⟨m, .unknown hc hname hm, hin⟩
  | @unsaid before after c a haction hquery hsay =>
    obtain ⟨m, hm, hin⟩ := r.exists_noEquivalent c.name
    exact ⟨m, .unsaid haction hquery hsay hm, hin⟩
  | @unreached commands q honly hq hreach =>
    simp only [isUnreached, Bool.and_eq_true, decide_eq_true_eq, Option.isNone_iff_eq_none] at hreach
    obtain ⟨m, hm, hin⟩ := r.exists_noEquivalent
      (r.sourceCall (commands.filterMap Command.query?) none)
    refine ⟨m, .unreached honly hreach.1 (r.cypressLocator_eq_none hq hreach.2) hm, ?_⟩
    -- the name stands in the call, which stands in the message
    have hname : r.sourceName q <:+: r.sourceQuery q := by
      unfold sourceName sourceQuery
      rw [List.append_assoc, List.append_assoc]
      exact (List.prefix_append _ _).isInfix
    have hquery : r.sourceQuery q ∈ (commands.filterMap Command.query?).map r.sourceQuery :=
      List.mem_map_of_mem hq
    exact hname.trans ((infix_join (List.mem_append_left _ hquery)).trans hin)
  | unknownCheck hverb =>
    obtain ⟨m, hm, hin⟩ := exists_unmapped "assertion" name
    exact ⟨m, .unknownCheck hverb hm, hin⟩

/-- A statement is written as at least one line, unless it is the bare root object. What its steps
raise is known one by one, and the advisories name what the target has nothing for. -/
theorem ofStatement_written {t : Text} (ht : Text.IsTrimmed t) (hroot : ¬IsBareRoot r.source t)
    (d : Draft) :
    let steps := Step.ofStatement r.source t
    let done := Emission.after (steps.forM (r.emitStep level)) d
    (∃ lines, done.text = d.text ++ lines ++ ['\n']) ∧
      (∀ m, m ∈ done.advisories ↔ m ∈ d.advisories ∨ ∃ step ∈ steps, r.Raises step m) ∧
      ∀ step ∈ steps, ∀ name, r.Lacks step name →
        ∃ m ∈ done.advisories, Text.holds name m = true := by
  intro steps done
  have hdone : done = d ++ r.steps level steps := r.steps_appends level steps d
  have hraised (m : Text) :
      m ∈ done.advisories ↔ m ∈ d.advisories ∨ ∃ step ∈ steps, r.Raises step m := by
    rw [hdone, mem_advisories_append, r.mem_advisories_steps]
  refine ⟨?_, hraised, ?_⟩
  -- something is said, and whatever is said ends its line
  · obtain ⟨lines, hlines⟩ := r.exists_lines level (ofStatement_saysSomething ht hroot)
    refine ⟨lines, ?_⟩
    rw [hdone, Draft.text_append, hlines, List.append_assoc]
  · intro step hstep name hname
    obtain ⟨m, hm, hholds⟩ := r.exists_raised hname
    exact ⟨m, (hraised m).2 (.inr ⟨step, hstep, hm⟩), hholds⟩

/-- A conversion that writes double quotes. -/
def chainedToAwaited : Route := ⟨.cypress, .playwright, { quote := .double }⟩

/-- A command that no vocabulary has, and one that the target does not have. -/
def unsaidStatement : Text := "cy.get('.a').frobnicate(1).rightclick()"

theorem ofStatement_written_unsaidStatement :
    let d : Draft := ⟨"// before\n", []⟩
    let steps := Step.ofStatement .cypress unsaidStatement
    let done := Emission.after (steps.forM (chainedToAwaited.emitStep 2)) d
    (∃ lines, done.text = d.text ++ lines ++ ['\n']) ∧
      (∃ m ∈ done.advisories, Text.holds "frobnicate" m = true) ∧
      ∃ m ∈ done.advisories, Text.holds "rightclick" m = true := by
  intro d steps done
  have hsteps : steps = [.chain ([.call (.known .locate) "get" "'.a'",
      .call (.unrecognized "frobnicate") "frobnicate" "1"] ++
        .call (.known .rightClick) "rightclick" "" :: [])] := by
    decide +kernel
  obtain ⟨hlines, -, hnames⟩ := @ofStatement_written chainedToAwaited 2 unsaidStatement
    ⟨by decide +kernel, by decide +kernel⟩ (show unsaidStatement ≠ "cy".toList by decide) d
  have hmem := List.mem_singleton_self (Step.chain ([.call (.known .locate) "get" "'.a'",
    .call (.unrecognized "frobnicate") "frobnicate" "1"] ++
      .call (.known .rightClick) "rightclick" "" :: []))
  rw [← hsteps] at hmem
  refine ⟨hlines, ?_, ?_⟩
  · exact hnames _ hmem _ (.unknown (List.mem_cons_of_mem _ List.mem_cons_self) rfl)
  · exact hnames _ hmem _ (.unsaid rfl (by decide) (by decide +kernel))

/-- A query that the target has nothing for is not named before a command, and behind the last
command it is dropped. -/
theorem unsaidQuery_unnamed :
    let r : Route := ⟨.playwright, .cypress, {}⟩
    let before := Step.ofStatement .playwright "await page.getByRole('b').click()"
    let behind := Step.ofStatement .playwright "await page.locator('#a').click().getByRole('b')"
    r.isUnreached ⟨.locateRole, "'b'"⟩ = true ∧
      before = [.chain [.call (.known .locateRole) "getByRole" "'b'",
        .call (.known .click) "click" ""]] ∧
      (∀ m ∈ (Emission.after (before.forM (r.emitStep 0)) {}).advisories,
        Text.holds "getByRole" m = false) ∧
      behind = [.chain [.call (.known .locate) "locator" "'#a'", .call (.known .click) "click" "",
        .call (.known .locateRole) "getByRole" "'b'"]] ∧
      Emission.after (behind.forM (r.emitStep 0)) {} = ⟨"cy.get('#a').click();\n", []⟩ := by
  decide +kernel

end Parlance.Route
