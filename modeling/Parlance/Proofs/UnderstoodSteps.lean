import Parlance.Draft.Document
import Parlance.Proofs.Emission
import Parlance.Proofs.Rereading

/-!
Steps that are written without an advisory, and what the reader of the target makes of their lines.
It knows all of them but for two things: a locator that is only waited for, and the check of an
address that is not that of the page.
-/

namespace Parlance

open Source (SelfContained)

/-! ## 1. Lines without an advisory -/

namespace Draft

/-- Whether a draft raises nothing. -/
def IsQuiet (d : Draft) : Prop := d.advisories = []

theorem IsQuiet.parts {a b : Draft} (h : (a ++ b).IsQuiet) : a.IsQuiet ∧ b.IsQuiet :=
  Advisory.eq_nil_of_merge_eq_nil h

theorem not_isQuiet_advice (message : Text) (d : Draft) : ¬(advice message ++ d).IsQuiet :=
  fun h => absurd h.parts.1 (List.cons_ne_nil message [])

end Draft

theorem Command.query?_cases {c : Command} {q : Query} (h : c.query? = some q) :
    q.action.isQuery = true ∧ q.selector = c.args.getD [] := by
  obtain ⟨a, ha, rfl⟩ := Option.map_eq_some_iff.1 h
  exact ⟨(Option.filter_eq_some_iff.1 ha).2, rfl⟩

/-- Whether the reader of a vocabulary knows what is written for a check: the address of anything
but the page is checked under a name that it does not have. -/
def Assertion.isReadable (f : Framework) (a : Assertion) : Bool :=
  match f, a.subject with
  | .cypress, .element queries => decide (queries ≠ []) && decide (a.expectation ≠ .known .haveUrl)
  | .cypress, .value _ => decide (a.expectation ≠ .known .haveUrl)
  | _, _ => true

/-- Whether a chain is nothing but queries. -/
def Command.onlyReach (commands : List Command) : Bool :=
  commands.all (fun c => c.query?.isSome) && !commands.isEmpty

theorem Command.filterMap_query?_ne_nil {commands : List Command}
    (h : Command.onlyReach commands = true) : commands.filterMap Command.query? ≠ [] := by
  simp only [Command.onlyReach, Bool.and_eq_true, List.all_eq_true, Bool.not_eq_true',
    List.isEmpty_eq_false_iff] at h
  obtain ⟨hall, hne⟩ := h
  cases commands with
  | nil => exact absurd rfl hne
  | cons c rest =>
    obtain ⟨q, hq⟩ := Option.isSome_iff_exists.1 (hall c List.mem_cons_self)
    rw [List.filterMap_cons_some hq]
    exact List.cons_ne_nil _ _

/-- A chain of nothing but queries is written by its queries. -/
theorem Route.chain_eq (r : Route) (level : Nat) (commands : List Command) :
    r.chain level commands =
      if Command.onlyReach commands then r.locate level (commands.filterMap Command.query?)
      else r.commands level [] commands := by
  have honly : (commands.all (fun c => c.query?.isSome) &&
      !(commands.filterMap Command.query?).isEmpty) = Command.onlyReach commands := by
    unfold Command.onlyReach
    cases commands with
    | nil => rfl
    | cons c rest => cases hc : c.query? <;> simp [hc]
  simp only [Route.chain, honly]

/-- Whether the reader of a vocabulary knows what is written for a step: an awaited locator is
waited for, and waiting is no command of the table. -/
def Step.isReadable (f : Framework) : Step → Bool
  | .chain commands => f ≠ .playwright || !Command.onlyReach commands
  | .verify a => a.isReadable f
  | .raw _ => false

namespace Route

/-- Whether what a check is written with stands on its own; an address may be written as a
pattern. -/
def writesIntactCheck (r : Route) (a : Assertion) : Bool :=
  a.subject.isIntact && isIntact (a.argument.getD []) &&
    (r.target ≠ .playwright || a.expectation ≠ .known .haveUrl ||
      decide (SelfContained (r.matcherArguments a .haveUrl)))

/-- Whether what a step is written with stands on its own. -/
def writesIntact (r : Route) : Step → Bool
  | .chain commands => commands.all fun c => isIntact (c.args.getD [])
  | .verify a => r.writesIntactCheck a
  | .raw _ => true

variable {r : Route} (hr : r.target ∈ codeFrameworks) (level : Nat)

include hr

theorem target_cases : r.target = .cypress ∨ r.target = .playwright := by
  simpa [codeFrameworks] using hr

theorem isStepBased_target : r.target.isStepBased = false := by
  rcases target_cases hr with h | h <;> rw [h] <;> rfl

section

variable {queries : List Query} (hactions : ∀ q ∈ queries, q.action.isQuery = true)
  (hqueries : ∀ q ∈ queries, isIntact q.selector = true)

include hactions hqueries

/-- A command that raises nothing is written as a known one. -/
theorem yields_command {c : Command} (hquery : c.query? = none)
    (hargs : isIntact (c.args.getD []) = true) (hquiet : (r.command level queries c).IsQuiet) :
    Yields r.target (r.command level queries c).text true := by
  unfold command at hquiet ⊢
  cases haction : c.action with
  | unrecognized name =>
    simp only [haction] at hquiet
    exact absurd hquiet (Draft.not_isQuiet_advice _ _)
  | known a =>
    have ha : a.isQuery = false := by
      unfold Command.query? at hquery
      simpa [haction, Lookup.value?] using hquery
    simp only [haction, isStepBased_target hr, Bool.false_eq_true, if_false] at hquiet ⊢
    cases hcode : r.codeAction queries a c with
    | none =>
      simp only [hcode] at hquiet
      exact absurd hquiet (Draft.not_isQuiet_advice _ _)
    | some code =>
      have hback : ReadsBack r.target code true := by
        rcases target_cases hr with ht | ht
        · rw [ht]
          exact r.readsBack_cypressCommand ht hqueries ha hargs hcode
        · rw [ht]
          exact r.readsBack_playwrightCommand hactions hqueries ht hargs hcode
      exact hback.yields r level

/-- Queries that are written for themselves are understood but where they are waited for. -/
theorem yields_locate (hne : queries ≠ []) (hquiet : (r.locate level queries).IsQuiet) :
    Yields r.target (r.locate level queries).text (decide (r.target ≠ .playwright)) := by
  unfold locate at hquiet ⊢
  rcases target_cases hr with ht | ht
  · simp only [ht] at hquiet ⊢
    cases hlocator : r.cypressLocator queries with
    | none =>
      simp only [hlocator] at hquiet
      exact absurd hquiet (Draft.not_isQuiet_advice _ _)
    | some locator => exact (r.readsBack_cypressLocator hne hlocator hqueries).yields r level
  · simp only [ht]
    exact (r.readsBack_waitFor hactions hqueries hne).yields r level

end

/-- The lines of a chain are understood command by command; the queries read so far stay before
every command that follows. -/
theorem yields_commands {commands : List Command} {queries : List Query}
    (hactions : ∀ q ∈ queries, q.action.isQuery = true)
    (hqueries : ∀ q ∈ queries, isIntact q.selector = true)
    (hintact : ∀ c ∈ commands, isIntact (c.args.getD []) = true)
    (hquiet : (r.commands level queries commands).IsQuiet) :
    Yields r.target (r.commands level queries commands).text true := by
  induction commands generalizing queries with
  | nil => exact Yields.nil
  | cons c rest ih =>
    have hc := hintact c List.mem_cons_self
    have hrest (d : Command) (hd : d ∈ rest) := hintact d (List.mem_cons_of_mem c hd)
    unfold Route.commands at hquiet ⊢
    cases hquery : c.query? with
    | some q =>
      obtain ⟨haction, hselector⟩ := Command.query?_cases hquery
      rw [← hselector] at hc
      -- a query writes nothing; it stands before what the rest writes
      simp only [hquery] at hquiet
      exact ih (List.forall_mem_append.2 ⟨hactions, List.forall_mem_singleton.2 haction⟩)
        (List.forall_mem_append.2 ⟨hqueries, List.forall_mem_singleton.2 hc⟩) hrest hquiet
    | none =>
      simp only [hquery] at hquiet
      have hline := yields_command hr level hactions hqueries hquery hc hquiet.parts.1
      exact hline.append (ih hactions hqueries hrest hquiet.parts.2)

theorem yields_chain {commands : List Command}
    (hintact : ∀ c ∈ commands, isIntact (c.args.getD []) = true)
    (hquiet : (r.chain level commands).IsQuiet) :
    Yields r.target (r.chain level commands).text (Step.isReadable r.target (.chain commands)) := by
  have hmem {q : Query} (hq : q ∈ commands.filterMap Command.query?) :
      q.action.isQuery = true ∧ isIntact q.selector = true := by
    obtain ⟨c, hc, hquery⟩ := List.mem_filterMap.1 hq
    obtain ⟨haction, hselector⟩ := Command.query?_cases hquery
    exact ⟨haction, by rw [hselector]; exact hintact c hc⟩
  rw [Route.chain_eq] at hquiet ⊢
  unfold Step.isReadable
  cases hreach : Command.onlyReach commands with
  | true =>
    simp only [hreach, if_true] at hquiet ⊢
    have hne := Command.filterMap_query?_ne_nil hreach
    have hline := yields_locate hr level (fun q hq => (hmem hq).1) (fun q hq => (hmem hq).2) hne
      hquiet
    simpa using hline
  | false =>
    simp only [hreach, Bool.false_eq_true, if_false] at hquiet ⊢
    have hlines := yields_commands hr level (fun q hq => absurd hq List.not_mem_nil)
      (fun q hq => absurd hq List.not_mem_nil) hintact hquiet
    simpa using hlines

/-- The line for a check is read as a check that is known, but for an address. -/
theorem readsBack_check {a : Assertion} (hintact : r.writesIntactCheck a = true)
    {e : Expectation} (he : a.expectation = .known e) {code : Text}
    (hcode : r.check a e = some code) : ReadsBack r.target code (a.isReadable r.target) := by
  simp only [writesIntactCheck, Bool.and_eq_true, Bool.or_eq_true, decide_eq_true_eq] at hintact
  obtain ⟨⟨hsubject, hargs⟩, hpattern⟩ := hintact
  unfold check at hcode
  unfold Assertion.isReadable
  rcases target_cases hr with ht | ht
  · simp only [ht] at hcode ⊢
    cases hs : a.subject with
    | page => exact r.readsBack_pageCheck hs hargs hcode
    | element queries =>
      rw [hs] at hsubject
      have hback := r.readsBack_elementCheck hs (List.all_eq_true.1 hsubject) hargs hcode
      simpa [he] using hback
    | value expr =>
      rw [hs] at hsubject
      have hback := r.readsBack_valueCheck hs (of_decide_eq_true hsubject) hargs hcode
      simpa [he] using hback
  · simp only [ht] at hcode ⊢
    -- only the address may be written as a pattern instead of a value
    have hself : SelfContained (r.matcherArguments a e) := by
      by_cases hurl : e = .haveUrl
      · subst hurl
        simpa [ht, he] using hpattern
      · unfold matcherArguments
        rw [if_neg hurl]
        exact r.selfContained_argument_of_isIntact hargs
    exact r.readsBack_playwrightCheck (r.selfContained_checkedText hsubject) hself hcode

theorem yields_verify {a : Assertion} (hintact : r.writesIntactCheck a = true)
    (hquiet : (r.verify level a).IsQuiet) :
    Yields r.target (r.verify level a).text (a.isReadable r.target) := by
  unfold verify at hquiet ⊢
  cases he : a.expectation with
  | unrecognized verb =>
    simp only [he] at hquiet
    exact absurd hquiet (Draft.not_isQuiet_advice _ _)
  | known e =>
    simp only [he] at hquiet ⊢
    cases hcode : r.check a e with
    | none =>
      simp only [hcode] at hquiet
      exact absurd hquiet (Draft.not_isQuiet_advice _ _)
    | some code => exact (readsBack_check hr hintact he hcode).yields r level

/-- Steps that are written without an advisory and without anything that runs into what follows are
understood by the reader of the target, but for two things: a locator that is only waited for, and
the check of an address that is not that of the page. -/
theorem all_isUnderstood_ofBody_steps {steps : List Step}
    (hkept : ∀ step ∈ steps, rawCode? step = none)
    (hquiet : (r.steps level steps).advisories = [])
    (hintact : ∀ step ∈ steps, r.writesIntact step = true) :
    (Step.ofBody r.target (r.steps level steps).text).all Step.isUnderstood =
      steps.all (Step.isReadable r.target) := by
  have hyields : Yields r.target (r.steps level steps).text
      (steps.all (Step.isReadable r.target)) := by
    unfold Route.steps at hquiet ⊢
    induction steps with
    | nil => exact Yields.nil
    | cons step rest ih =>
      -- a list raises nothing only if no step of it does
      rw [List.map_cons, Draft.concat_cons] at hquiet
      have hparts := Draft.IsQuiet.parts hquiet
      have hstep : Yields r.target (r.step level step).text (step.isReadable r.target) := by
        have hone := hintact step List.mem_cons_self
        cases step with
        | chain commands => exact yields_chain hr level (List.all_eq_true.1 hone) hparts.1
        | verify a => exact yields_verify hr level hone hparts.1
        | raw code => exact absurd (hkept _ List.mem_cons_self) (by simp [rawCode?])
      rw [List.map_cons, Draft.concat_cons, Draft.text_append, List.all_cons]
      exact hstep.append (ih (fun s hs => hkept s (List.mem_cons_of_mem step hs)) hparts.2
        fun s hs => hintact s (List.mem_cons_of_mem step hs))
  exact hyields.all_eq

omit hr

/-- From chained commands to awaited calls. -/
def awaiting : Route := ⟨.cypress, .playwright, {}⟩

/-- Commands of the page and of an element, and checks of the page, of an element and of a value, as
they are read. -/
def login : List Step :=
  ["cy.visit('/login')", "cy.get('#user').type(\"a, 'b'\").blur()",
    "cy.url().should('match', /in$/)", "cy.url().should('include', '/home')",
    "cy.contains('p').find('b').should('not.have.text', 'x')",
    "expect(n + 1).to.eq(2)"].flatMap fun statement => Step.ofStatement .cypress statement.toList

theorem all_isUnderstood_login :
    (awaiting.target ∈ codeFrameworks ∧ (∀ step ∈ login, rawCode? step = none) ∧
        (awaiting.steps 1 login).advisories = [] ∧
          ∀ step ∈ login, awaiting.writesIntact step = true) ∧
      (Step.ofBody awaiting.target (awaiting.steps 1 login).text).all Step.isUnderstood = true := by
  have hkept : ∀ step ∈ login, rawCode? step = none := by decide +kernel
  have hquiet : (awaiting.steps 1 login).advisories = [] := by decide +kernel
  have hintact : ∀ step ∈ login, awaiting.writesIntact step = true := by decide +kernel
  have hreadable : login.all (Step.isReadable awaiting.target) = true := by decide +kernel
  refine ⟨⟨by decide, hkept, hquiet, hintact⟩, ?_⟩
  rw [all_isUnderstood_ofBody_steps (by decide) 1 hkept hquiet hintact]
  exact hreadable

/-- A chain of nothing but a query raises no advisory, and what is written for it is not understood:
the awaited locator is waited for, which the tables have no name for. -/
theorem not_understood_waited :
    (∀ step ∈ Step.ofStatement .cypress "cy.get('.a')", rawCode? step = none) ∧
      (awaiting.steps 0 (Step.ofStatement .cypress "cy.get('.a')")).advisories = [] ∧
        (Step.ofBody .playwright
          (awaiting.steps 0 (Step.ofStatement .cypress "cy.get('.a')")).text).all
            Step.isUnderstood = false := by
  decide +kernel

-- the pattern of an address that ends with a slash ends with two, which begin a comment
example :
    (Step.ofBody .playwright (awaiting.steps 0
      (Step.ofStatement .cypress "cy.url().should('include', '/home/')")).text).all
        Step.isUnderstood = false := by
  decide +kernel

end Route

end Parlance
