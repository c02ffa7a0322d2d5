import Parlance.Proofs.CypressSteps
import Parlance.Proofs.PlaywrightSteps

/-!
Writing steps in a code vocabulary and reading the code again keeps what they say: each command with
the queries before it and each check, in the same order and with the same values.
-/

namespace Parlance

namespace Route

variable (r : Route)

/-! ## 1. Commands -/

/-- A line for a command says what the command says. -/
theorem says_command (hr : r.target ∈ codeFrameworks) {queries : List Query}
    (hqueries : ∀ q ∈ queries, q.isSayable = true) {c : Command} (hquery : c.query? = none)
    (hc : c.isSayable r.target (!queries.isEmpty) = true) (level : Nat) :
    Says r.target (r.command level queries c).text [c.item queries] := by
  obtain ⟨hargs, a, name, haction, hname, ha, hkind⟩ := Command.isSayable_cases hc hquery
  have hreached : a.kind ≠ .page → queries ≠ [] := by
    intro hp
    have h := hkind hp
    simpa using h
  obtain ⟨code, hcode, hsays⟩ : ∃ code, r.codeAction queries a c = some code ∧
      Rereads r.target code [c.item queries] := by
    simp only [codeFrameworks, List.mem_cons, List.not_mem_nil, or_false] at hr
    rcases hr with hr | hr
    · rw [hr] at hname ⊢
      exact r.rereads_cypressCommand hr hqueries haction hname ha hargs
    · rw [hr] at hname ⊢
      exact r.rereads_playwrightCommand hr hqueries haction hname ha hargs hreached
  have hstep : r.target.isStepBased = false := by
    have hall : ∀ f ∈ codeFrameworks, f.isStepBased = false := by decide
    exact hall _ hr
  have htext : r.command level queries c = r.line level code := by
    unfold command
    simp [haction, hstep, hcode]
  rw [htext]
  exact hsays.says r level

/-- The lines for the commands of a chain say what the chain says: the queries read so far stay
before every command that follows. -/
theorem says_commands (hr : r.target ∈ codeFrameworks) (level : Nat) {commands : List Command}
    {queries : List Query} (hqueries : ∀ q ∈ queries, q.isSayable = true)
    (h : Command.areSayable r.target (!queries.isEmpty) commands = true) :
    Says r.target (r.commands level queries commands).text (Command.items queries commands) := by
  induction commands generalizing queries with
  | nil => exact Says.nil
  | cons c rest ih =>
    unfold Command.areSayable at h
    unfold Route.commands Command.items
    cases hc : c.query? with
    | some query =>
      simp only [hc, Bool.and_eq_true] at h
      have hmore : ∀ q ∈ queries ++ [query], q.isSayable = true :=
        List.forall_mem_append.2 ⟨hqueries, List.forall_mem_singleton.2 h.1⟩
      apply ih hmore
      have hfull : (!(queries ++ [query]).isEmpty) = true := by simp
      rw [hfull]
      exact h.2
    | none =>
      simp only [hc, Bool.and_eq_true] at h
      exact (r.says_command hr hqueries hc h.1 level).append (ih hqueries h.2)

/-! ## 2. Steps -/

/-- The lines for a step say what the step says. -/
theorem says_step (hr : r.target ∈ codeFrameworks) (level : Nat) {step : Step}
    (h : step.isSayable r.target = true) :
    Says r.target (r.step level step).text step.items := by
  cases step with
  | chain commands =>
    simp only [Step.isSayable, Bool.and_eq_true] at h
    -- a chain that does more than reach an element is written command by command
    have hall : commands.all (fun c => c.query?.isSome) = false := by
      obtain ⟨c, hc, hnone⟩ := List.any_eq_true.1 h.1
      apply List.all_eq_false.2
      refine ⟨c, hc, ?_⟩
      rw [Option.isNone_iff_eq_none.1 hnone]
      exact Bool.false_ne_true
    have hsays := @says_commands r hr level commands [] (fun q hq => absurd hq List.not_mem_nil) h.2
    unfold Step.items Route.step Route.chain
    simp only [hall, Bool.false_and, Bool.false_eq_true, if_false]
    exact hsays
  | verify a =>
    have hcheck : ∃ e code, a.expectation = .known e ∧ r.check a e = some code ∧
        Rereads r.target code [a.item] := by
      simp only [codeFrameworks, List.mem_cons, List.not_mem_nil, or_false] at hr
      rcases hr with hr | hr
      · rw [Step.isSayable, hr] at h
        rw [hr]
        exact r.rereads_cypressCheck hr h
      · rw [Step.isSayable, hr] at h
        rw [hr]
        exact r.rereads_playwrightCheck hr h
    obtain ⟨e, code, he, hcode, hsays⟩ := hcheck
    have htext : r.step level (.verify a) = r.line level code := by
      unfold Route.step verify
      simp [he, hcode]
    rw [htext]
    exact hsays.says r level
  | raw code => exact absurd h Bool.false_ne_true

/-- Steps that a code vocabulary can say are read from their lines with the same items, in the same
order. -/
theorem items_ofBody_steps (hr : r.target ∈ codeFrameworks) (level : Nat) {steps : List Step}
    (h : ∀ step ∈ steps, step.isSayable r.target = true) :
    (Step.ofBody r.target (r.steps level steps).text).flatMap Step.items =
      steps.flatMap Step.items := by
  have hsays : Says r.target (r.steps level steps).text (steps.flatMap Step.items) := by
    unfold Route.steps
    induction steps with
    | nil => exact Says.nil
    | cons step rest ih =>
      rw [List.map_cons, Draft.concat_cons, Draft.text_append, List.flatMap_cons]
      exact (r.says_step hr level (h step List.mem_cons_self)).append
        (ih fun s hs => h s (List.mem_cons_of_mem step hs))
  exact hsays.items_eq

/-- Steps with quotes, backslashes and what looks like code in their values: two commands behind one
another, a command of the page between them, and checks of the page and of an element. -/
def errand : List Step :=
  [.chain
    [⟨.known .locate, "get", some "'ul[data-x=\"1\"]'"⟩,
      ⟨.known .fill, "type", some "\"it's; cy.get()\", 'a\\\\b', 2.5"⟩,
      ⟨.known .wait, "wait", some "+1e3"⟩,
      ⟨.known .locateText, "contains", some " \"// done\" "⟩,
      ⟨.known .click, "click", none⟩],
    .verify ⟨.page, .known .haveTitle, true, some "\x60a\n;b\x60", "x"⟩,
    .verify ⟨.element [⟨.locate, "'#a'"⟩, ⟨.locate, "'li'"⟩], .known .equal, false, some "'),', 1",
      "x"⟩]

/-- To chained commands in double quotes. -/
def doubleQuoted : Route := ⟨.testRail, .cypress, { quote := .double }⟩

theorem items_errand :
    (doubleQuoted.target ∈ codeFrameworks ∧
        ∀ step ∈ errand, step.isSayable doubleQuoted.target = true) ∧
      (Step.ofBody doubleQuoted.target (doubleQuoted.steps 1 errand).text).flatMap Step.items =
        errand.flatMap Step.items :=
  ⟨by decide +kernel, items_ofBody_steps doubleQuoted (by decide) 1 (by decide +kernel)⟩

end Route

end Parlance
