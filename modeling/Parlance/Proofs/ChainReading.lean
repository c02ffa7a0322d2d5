import Parlance.Step.Statement

/-!
How statements of the code vocabularies are read. A chain of commands is read call by call: a check
completes the step before it, and any other call belongs to the step being read. What each call
keeps, the whole chain keeps.
-/

namespace Parlance

open Source (Link readChain)

/-- The names of the commands that make a check. -/
def isChainer (name : Text) : Bool := name = "should".toList || name = "and".toList

/-- The names of checks are no commands. -/
theorem isChainer_of_lookup {name : Text} {a : Action}
    (h : Action.lookup .cypress name = .known a) : isChainer name = false := by
  cases hname : isChainer name with
  | false => rfl
  | true =>
    simp only [isChainer, Bool.or_eq_true, decide_eq_true_eq] at hname
    have hnone : ∃ word, Action.lookup .cypress name = .unrecognized word := by
      rcases hname with rfl | rfl <;> exact ⟨_, rfl⟩
    obtain ⟨word, hword⟩ := hnone
    rw [hword] at h
    exact absurd h (by simp)

namespace ChainReading

variable {source name args : Text} {r r' : ChainReading}

/-! ## 1. One call -/

theorem next_check (r : ChainReading) (source args : Text) (hname : isChainer name = true) :
    r.next source name args = (r.should source args).map fun a =>
      { r.close with steps := r.close.steps ++ [.verify a] } :=
  if_pos hname

/-- A call that is no check is taken up as a command, and as a query if it is one. -/
theorem next_command (r : ChainReading) (source : Text) {c : Command}
    (hname : isChainer name = false) (hc : c = .call (Action.lookup .cypress name) name args) :
    r.next source name args =
      some { r with
        queries := r.queries ++ c.query?.toList
        chain := r.resumed ++ [c]
        acts := r.acts || c.query?.isNone
        page := none } := by
  have hquery : c.query? = ((Action.lookup .cypress name).value?.filter Action.isQuery).map
      fun a => ⟨a, Text.trim args⟩ := by
    rw [hc]
    rfl
  unfold next
  rw [show (name = "should".toList || name = "and".toList : Bool) = false from hname,
    if_neg Bool.false_ne_true, hquery, hc]
  cases hfound : (Action.lookup .cypress name).value?.filter Action.isQuery with
  | none => simp [hfound]
  | some a => simp [hfound]

/-- A call is a check of what has been reached, or a command of the step being read. -/
theorem next_cases (h : r.next source name args = some r') :
    (isChainer name = true ∧ ∃ a, r.should source args = some a ∧
      r' = { r.close with steps := r.close.steps ++ [.verify a] }) ∨
    (isChainer name = false ∧ ∃ c : Command,
      r' = { r with
        queries := r.queries ++ c.query?.toList
        chain := r.resumed ++ [c]
        acts := r.acts || c.query?.isNone
        page := none }) := by
  cases hname : isChainer name with
  | true =>
    rw [r.next_check source args hname] at h
    obtain ⟨a, ha, rfl⟩ := Option.map_eq_some_iff.1 h
    exact .inl ⟨rfl, a, ha, rfl⟩
  | false =>
    rw [r.next_command source hname rfl] at h
    exact .inr ⟨rfl, _, (Option.some.inj h).symm⟩

theorem first_cases (h : first source name args = some r) :
    (∃ check, pageCheck? name = some check ∧
      r = { chain := [.call (Action.lookup .cypress name) name args], page := some check }) ∨
    (pageCheck? name = none ∧ next {} source name args = some r) := by
  unfold first at h
  cases hpage : pageCheck? name with
  | some check =>
    rw [hpage] at h
    exact .inl ⟨check, rfl, (Option.some.inj h).symm⟩
  | none =>
    rw [hpage] at h
    exact .inr ⟨rfl, h⟩

/-- A step that is closed is kept if it does something. -/
theorem mem_steps_close {step : Step} :
    step ∈ r.close.steps ↔ step ∈ r.steps ∨ r.acts = true ∧ step = .chain r.chain := by
  cases hacts : r.acts <;> simp [close, hacts]

/-- At the end the step being read is kept if it does something, or if it is all there is. -/
theorem mem_finish {step : Step} :
    step ∈ r.finish ↔ step ∈ r.steps ∨
      (r.acts = true ∨ r.steps = [] ∧ r.chain ≠ []) ∧ step = .chain r.chain := by
  unfold finish
  by_cases h : (r.acts || (r.steps.isEmpty && !r.chain.isEmpty)) = true
  · rw [if_pos h, List.mem_append, List.mem_singleton]
    have hkept : r.acts = true ∨ r.steps = [] ∧ r.chain ≠ [] := by simpa using h
    simp [hkept]
  · rw [if_neg h]
    have hdropped : ¬(r.acts = true ∨ r.steps = [] ∧ r.chain ≠ []) := by simpa using h
    simp [hdropped]

/-! ## 2. Whole chains -/

theorem links_cons {l : Link} {rest : List Link} (h : r.links source (l :: rest) = some r') :
    ∃ args mid, l.args = some args ∧ r.next source l.name args = some mid ∧
      mid.links source rest = some r' := by
  obtain ⟨args, hargs, h⟩ := Option.bind_eq_some_iff.1 h
  obtain ⟨mid, hmid, h⟩ := Option.bind_eq_some_iff.1 h
  exact ⟨args, mid, hargs, hmid, h⟩

/-- What each call keeps, the whole chain keeps. -/
theorem links_induction {P : ChainReading → Prop} {links : List Link}
    (hnext : ∀ l ∈ links, ∀ args r r', l.args = some args →
      r.next source l.name args = some r' → P r → P r')
    (h : r.links source links = some r') (hr : P r) : P r' := by
  induction links generalizing r with
  | nil =>
    obtain rfl := Option.some.inj h
    exact hr
  | cons l rest ih =>
    obtain ⟨args, mid, hargs, hmid, h⟩ := links_cons h
    exact ih (fun k hk => hnext k (List.mem_cons_of_mem l hk)) h
      (hnext l List.mem_cons_self args r mid hargs hmid hr)

end ChainReading

/-- A chain of commands is read from its first call to its end. -/
theorem readCommands_cons {source : Text} {root : Link} {rest : List Link} {steps : List Step}
    (h : readCommands source (root :: rest) = some steps) :
    ∃ args first last, root.args = some args ∧
      ChainReading.first source root.name args = some first ∧
      first.links source rest = some last ∧ steps = last.finish := by
  obtain ⟨args, hargs, h⟩ := Option.bind_eq_some_iff.1 h
  obtain ⟨first, hfirst, h⟩ := Option.bind_eq_some_iff.1 h
  obtain ⟨last, hlast, h⟩ := Option.bind_eq_some_iff.1 h
  exact ⟨args, first, last, hargs, hfirst, hlast, (Option.some.inj h).symm⟩

/-! ## 3. Statements -/

/-- A statement of chained commands begins with the root of all commands or with a plain
expression. -/
theorem readCypress_cases {s : Text} {steps : List Step} (h : readCypress s = some steps) :
    (∃ links, readChain s = some (⟨"cy", none⟩ :: links) ∧ readCommands s links = some steps) ∨
      ∃ subject links a, readChain s = some (⟨"expect", some subject⟩ :: links) ∧
        readExpectation s subject links = some a ∧ steps = [.verify a] := by
  obtain ⟨links, hchain, h⟩ := Option.bind_eq_some_iff.1 h
  cases links with
  | nil => exact absurd h (by simp)
  | cons root links =>
    obtain ⟨name, args⟩ := root
    cases args with
    | none =>
      dsimp only at h
      by_cases hname : name = "cy".toList
      · rw [if_pos hname] at h
        subst hname
        exact .inl ⟨links, hchain, h⟩
      · rw [if_neg hname] at h
        exact absurd h (by simp)
    | some subject =>
      dsimp only at h
      by_cases hname : name = "expect".toList
      · rw [if_pos hname] at h
        subst hname
        obtain ⟨a, ha, rfl⟩ := Option.map_eq_some_iff.1 h
        exact .inr ⟨subject, links, a, hchain, ha, rfl⟩
      · rw [if_neg hname] at h
        exact absurd h (by simp)

/-- A statement of awaited calls is a chain of them on the page, or one check. -/
theorem readPlaywright_cases {s : Text} {steps : List Step} (h : readPlaywright s = some steps) :
    (∃ links commands, readChain (unawaited s) = some (⟨"page", none⟩ :: links) ∧
        readPage links = some commands ∧ steps = [.chain commands]) ∨
      ∃ subject links a, readChain (unawaited s) = some (⟨"expect", some subject⟩ :: links) ∧
        readMatcher s subject links = some a ∧ steps = [.verify a] := by
  obtain ⟨links, hchain, h⟩ := Option.bind_eq_some_iff.1 h
  cases links with
  | nil => exact absurd h (by simp)
  | cons root links =>
    obtain ⟨name, args⟩ := root
    cases args with
    | none =>
      dsimp only at h
      by_cases hname : name = "page".toList
      · rw [if_pos hname] at h
        subst hname
        obtain ⟨commands, hcommands, rfl⟩ := Option.map_eq_some_iff.1 h
        exact .inl ⟨links, commands, hchain, hcommands, rfl⟩
      · rw [if_neg hname] at h
        exact absurd h (by simp)
    | some subject =>
      dsimp only at h
      by_cases hname : name = "expect".toList
      · rw [if_pos hname] at h
        subst hname
        obtain ⟨a, ha, rfl⟩ := Option.map_eq_some_iff.1 h
        exact .inr ⟨subject, links, a, hchain, ha, rfl⟩
      · rw [if_neg hname] at h
        exact absurd h (by simp)

end Parlance
