import Mathlib.Data.List.Flatten
import Parlance.Draft.Document
import Parlance.Proofs.Announcement
import Parlance.Proofs.StatementCuts

/-!
The checks recorded for a test and the checks its steps make. Every check that is read names the
statement it was read from and is about less than all of that statement, so the records of
statements that were not read can be told apart.
-/

namespace Parlance

open Source (Link)

/-- A record that is about the whole of its own statement, which was not read. -/
def Assertion.isOpaque (a : Assertion) : Bool := a.subject = .value a.source

/-- The records of statements that were read. -/
def Assertion.understood (records : List Assertion) : List Assertion :=
  records.filter fun a => !a.isOpaque

/-! ## 1. Where a check comes from -/

/-- A step that was read from a statement: a check names the statement and is about less than all of
it, and nothing is kept as it is. -/
def Step.IsFrom (source : Text) : Step → Prop
  | .chain _ => True
  | .verify a => a.source = source ∧ a.subject ≠ .value source
  | .raw _ => False

theorem Step.IsFrom.of_assertion? {source : Text} {step : Step} (h : step.IsFrom source)
    {a : Assertion} (ha : step.assertion? = some a) : a.source = source ∧ a.isOpaque = false := by
  cases step with
  | chain commands => exact absurd ha (by simp [assertion?])
  | raw code => exact absurd h id
  | verify b =>
    obtain rfl := Option.some.inj ha
    refine ⟨h.1, ?_⟩
    unfold Assertion.isOpaque
    rw [h.1]
    exact decide_eq_false h.2

namespace ChainReading

theorem should_facts {r : ChainReading} {source args : Text} {a : Assertion}
    (h : r.should source args = some a) : (Step.verify a).IsFrom source := by
  unfold should at h
  split at h
  · exact absurd h (by simp)
  · rename_i first rest _
    obtain ⟨chainer, -, h⟩ := Option.bind_eq_some_iff.1 h
    obtain ⟨⟨subject, expectation⟩, hchecked, h⟩ := Option.bind_eq_some_iff.1 h
    obtain rfl := Option.some.inj h
    refine ⟨rfl, ?_⟩
    show subject ≠ _
    unfold checked at hchecked
    split at hchecked
    · obtain ⟨rfl, -⟩ := Prod.mk.inj (Option.some.inj hchecked)
      simp
    · split at hchecked
      · exact absurd hchecked (by simp)
      · obtain ⟨rfl, -⟩ := Prod.mk.inj (Option.some.inj hchecked)
        simp

/-- A reading all of whose steps come from a statement. -/
def IsFrom (source : Text) (r : ChainReading) : Prop := ∀ step ∈ r.steps, step.IsFrom source

theorem IsFrom.close {source : Text} {r : ChainReading} (h : r.IsFrom source) :
    r.close.IsFrom source := by
  intro step hstep
  rcases mem_steps_close.1 hstep with hstep | ⟨-, rfl⟩
  · exact h step hstep
  · trivial

/-- One more call keeps the steps that are complete, but for a check that comes from the statement
and a chain before it. -/
theorem IsFrom.next {source name args : Text} {r r' : ChainReading} (h : r.IsFrom source)
    (hnext : r.next source name args = some r') : r'.IsFrom source := by
  rcases next_cases hnext with ⟨-, a, ha, rfl⟩ | ⟨-, c, rfl⟩
  · exact List.forall_mem_append.2 ⟨h.close, List.forall_mem_singleton.2 (should_facts ha)⟩
  · exact h

theorem IsFrom.first {source name args : Text} {r : ChainReading}
    (h : first source name args = some r) : r.IsFrom source := by
  rcases first_cases h with ⟨check, -, rfl⟩ | ⟨-, h⟩
  · exact fun step hstep => absurd hstep List.not_mem_nil
  · exact IsFrom.next (fun step hstep => absurd hstep List.not_mem_nil) h

theorem IsFrom.finish {source : Text} {r : ChainReading} (h : r.IsFrom source) :
    ∀ step ∈ r.finish, step.IsFrom source := by
  intro step hstep
  rcases mem_finish.1 hstep with hstep | ⟨-, rfl⟩
  · exact h step hstep
  · trivial

end ChainReading

theorem isFrom_readCommands {source : Text} {links : List Link} {steps : List Step}
    (h : readCommands source links = some steps) : ∀ step ∈ steps, step.IsFrom source := by
  cases links with
  | nil =>
    obtain rfl := Option.some.inj h
    exact fun step hstep => absurd hstep List.not_mem_nil
  | cons root rest =>
    obtain ⟨args, first, last, -, hfirst, hlast, rfl⟩ := readCommands_cons h
    have hread : last.IsFrom source :=
      ChainReading.links_induction (fun _ _ _ _ _ _ hnext hr => hr.next hnext) hlast
        (ChainReading.IsFrom.first hfirst)
    exact hread.finish

/-- What stands between the parentheses of a statement is not all of the statement. -/
theorem value_ne_of_length {args source : Text} (h : args.length < source.length) :
    Subject.value (Text.trim args) ≠ .value source := by
  intro he
  obtain ⟨before, after, -, -, hargs⟩ := Text.exists_trim args
  have hlength := congrArg List.length hargs
  rw [Subject.value.inj he] at hlength
  simp only [List.length_append] at hlength
  omega

theorem readExpectation_cases {source subject : Text} {links : List Link} {a : Assertion}
    (h : readExpectation source subject links = some a) :
    a.source = source ∧ a.subject = .value (Text.trim subject) := by
  obtain ⟨last, -, h⟩ := Option.bind_eq_some_iff.1 h
  split at h
  · exact absurd h (by simp)
  · obtain rfl := Option.some.inj h
    exact ⟨rfl, rfl⟩

theorem isFrom_readCypress {s : Text} {steps : List Step} (h : readCypress s = some steps) :
    ∀ step ∈ steps, step.IsFrom s := by
  rcases readCypress_cases h with ⟨links, -, hcommands⟩ | ⟨subject, links, a, hchain, ha, rfl⟩
  · exact isFrom_readCommands hcommands
  · intro step hstep
    rw [List.mem_singleton.1 hstep]
    obtain ⟨hsource, hsubject⟩ := readExpectation_cases ha
    have hlength := Source.args_length_of_readLinks hchain rfl
    have hskip := Source.skipBlanks_length s
    refine ⟨hsource, ?_⟩
    rw [hsubject]
    exact value_ne_of_length (by omega)

/-- A plain value under check is all that stands between the parentheses. -/
theorem readCheckedSubject_value {expr e : Text} (h : readCheckedSubject expr = .value e) :
    e = Text.trim expr := by
  unfold readCheckedSubject at h
  dsimp only at h
  split at h
  · rename_i root rest _
    split at h
    · split at h
      · exact absurd h (by simp)
      · cases hq : rest.mapM readQuery with
        | none =>
          rw [hq] at h
          exact (Subject.value.inj h).symm
        | some queries =>
          rw [hq] at h
          exact absurd h (by simp)
    · exact (Subject.value.inj h).symm
  · exact (Subject.value.inj h).symm

theorem isFrom_readPlaywright {s : Text} {steps : List Step} (h : readPlaywright s = some steps) :
    ∀ step ∈ steps, step.IsFrom s := by
  intro step hstep
  rcases readPlaywright_cases h with ⟨-, commands, -, -, rfl⟩ | ⟨subject, links, a, hchain, ha, rfl⟩
  · rw [List.mem_singleton.1 hstep]
    trivial
  · rw [List.mem_singleton.1 hstep]
    obtain ⟨matcher, -, -, -, hsource, hsubject⟩ := readMatcher_cases ha
    refine ⟨hsource, ?_⟩
    intro hvalue
    rw [hsubject] at hvalue
    have hlength := Source.args_length_of_readLinks hchain rfl
    have hskip := Source.skipBlanks_length (unawaited s)
    obtain ⟨lead, trail, hs, -⟩ := exists_unawaited s
    have hs := congrArg List.length hs
    simp only [List.length_append] at hs
    have hne : Subject.value (Text.trim subject) ≠ .value s := value_ne_of_length (by omega)
    rw [readCheckedSubject_value hvalue] at hne
    exact hne rfl

theorem isFrom_readShape {f : Framework} (hf : f ∈ codeFrameworks) {s : Text} {steps : List Step}
    (h : readShape f s = some steps) : ∀ step ∈ steps, step.IsFrom s := by
  simp only [codeFrameworks, List.mem_cons, List.not_mem_nil, or_false] at hf
  rcases hf with rfl | rfl
  · exact isFrom_readCypress h
  · exact isFrom_readPlaywright h

/-! ## 2. The checks of a statement -/

/-- A statement is kept as it is, or its shape has been read. -/
theorem Step.ofStatement_cases (f : Framework) (s : Text) :
    ofStatement f s = [.raw (Text.trim s)] ∨ readShape f (Text.trim s) = some (ofStatement f s) := by
  unfold ofStatement
  dsimp only
  split
  · exact .inl rfl
  · cases hread : readShape f (Text.trim s) with
    | none => exact .inl rfl
    | some steps =>
      by_cases hknown : (!steps.any hasUnknownCallback) = true
      · rw [Option.filter_some, if_pos hknown]
        exact .inr rfl
      · rw [Option.filter_some, if_neg hknown]
        exact .inl rfl

/-- Blanks around a statement make no difference. -/
theorem Assertion.ofStatement_trim (f : Framework) (s : Text) :
    ofStatement f (Text.trim s) = ofStatement f s := by
  unfold ofStatement Step.ofStatement
  rw [(Text.isTrimmed_trim s).trim_eq]

theorem Step.ofStatement_raw {f : Framework} (hf : f ∈ codeFrameworks) {s code : Text}
    (h : Step.raw code ∈ ofStatement f s) :
    code = Text.trim s ∧ Assertion.ofStatement f s = [] := by
  rcases Step.ofStatement_cases f s with hs | hs
  · rw [hs, List.mem_singleton] at h
    refine ⟨Step.raw.inj h, ?_⟩
    unfold Assertion.ofStatement
    rw [hs]
    rfl
  · exact absurd (isFrom_readShape hf hs _ h) id

namespace Assertion

variable {f : Framework} {s : Text} {a : Assertion}

theorem ofStatement_facts (hf : f ∈ codeFrameworks) (h : a ∈ ofStatement f s) :
    a.source = Text.trim s ∧ a.isOpaque = false := by
  obtain ⟨step, hstep, ha⟩ := List.mem_filterMap.1 h
  rcases Step.ofStatement_cases f s with hs | hs
  · rw [hs] at hstep
    rw [List.mem_singleton.1 hstep] at ha
    exact absurd ha (by simp [Step.assertion?])
  · exact (isFrom_readShape hf hs step hstep).of_assertion? ha

theorem announcesCheck_of_ofStatement (hf : f ∈ codeFrameworks) (htrim : Text.IsTrimmed s)
    (htidy : isTidy f s = true) (h : ofStatement f s ≠ []) : AnnouncesCheck f s := by
  rcases Step.ofStatement_cases f s with hs | hs
  · refine absurd ?_ h
    unfold ofStatement
    rw [hs]
    rfl
  · rw [htrim.trim_eq] at hs
    exact announcesCheck_of_isTidy hf htrim htidy hs h

theorem isOpaque_unread (f : Framework) (s : Text) : (unread f s).isOpaque = true := by
  simp [isOpaque, unread]

/-- What is recorded for a statement in which an assertion occurs. -/
def record (f : Framework) (s : Text) : List Assertion :=
  match ofStatement f s with
  | [] => [unread f s]
  | found => found

theorem ofBody_eq (f : Framework) (body : Text) :
    ofBody f body =
      ((Source.splitStatements body).filter (Slot.assertion.occursIn f)).flatMap (record f) := rfl

theorem record_cases (f : Framework) (s : Text) :
    (ofStatement f s = [] ∧ record f s = [unread f s]) ∨
      (ofStatement f s ≠ [] ∧ record f s = ofStatement f s) := by
  unfold record
  cases h : ofStatement f s with
  | nil => exact .inl ⟨rfl, rfl⟩
  | cons a rest => exact .inr ⟨by simp, rfl⟩

/-- The checks of a statement are what is recorded of it, but for the record of a statement that was
not read. -/
theorem understood_record (hf : f ∈ codeFrameworks) (s : Text) :
    understood (record f s) = ofStatement f s := by
  rcases record_cases f s with ⟨hnone, hrecord⟩ | ⟨-, hrecord⟩
  · rw [hrecord, hnone]
    simp [understood, isOpaque_unread]
  · rw [hrecord, understood, List.filter_eq_self]
    intro a ha
    rw [(ofStatement_facts hf ha).2]
    rfl

/-- The opaque records are those of statements without a check. -/
theorem isOpaque_record (hf : f ∈ codeFrameworks) (h : a ∈ record f s) :
    a.isOpaque = true ↔ ofStatement f a.source = [] := by
  rcases record_cases f s with ⟨hnone, hrecord⟩ | ⟨hsome, hrecord⟩
  · rw [hrecord, List.mem_singleton] at h
    rw [h]
    exact iff_of_true (isOpaque_unread f s) hnone
  · rw [hrecord] at h
    obtain ⟨hsource, hwhole⟩ := ofStatement_facts hf h
    rw [hwhole, hsource, ofStatement_trim]
    exact iff_of_false Bool.false_ne_true hsome

end Assertion

/-! ## 3. The checks of a body -/

/-- Leaving members out of a list leaves out nothing of what they stand for exactly if these stand
for nothing. -/
theorem flatMap_filter_eq_iff {α β : Type} {p : α → Bool} {g : α → List β} {l : List α} :
    (l.filter p).flatMap g = l.flatMap g ↔ ∀ x ∈ l, g x ≠ [] → p x = true := by
  induction l with
  | nil => simp
  | cons x l ih =>
    by_cases hp : p x = true
    · rw [List.filter_cons_of_pos hp, List.flatMap_cons, List.flatMap_cons,
        List.append_cancel_left_eq, ih]
      simp [hp]
    · rw [List.filter_cons_of_neg hp, List.flatMap_cons]
      constructor
      · intro h
        -- the parts that are left cannot be longer than all of them
        have hle : ((l.filter p).flatMap g).length ≤ (l.flatMap g).length :=
          (List.filter_sublist.flatMap g).length_le
        have hlength := congrArg List.length h
        rw [List.length_append] at hlength
        have hnil : g x = [] := List.length_eq_zero_iff.1 (by omega)
        rw [hnil, List.nil_append] at h
        intro y hy hne
        rcases List.mem_cons.1 hy with rfl | hy
        · exact absurd hnil hne
        · exact ih.1 h y hy hne
      · intro h
        have hnil : g x = [] := by
          cases hg : g x with
          | nil => rfl
          | cons b rest => exact absurd (h x List.mem_cons_self (by simp [hg])) hp
        rw [hnil, List.nil_append]
        exact ih.2 fun y hy => h y (List.mem_cons_of_mem x hy)

namespace Assertion

variable {f : Framework}

/-- What is recorded of the statements that were read are the checks of the statements in which an
assertion occurs. -/
theorem understood_ofBody (hf : f ∈ codeFrameworks) (body : Text) :
    understood (ofBody f body) =
      ((Source.splitStatements body).filter (Slot.assertion.occursIn f)).flatMap
        (ofStatement f) := by
  rw [ofBody_eq, understood, List.filter_flatMap]
  exact congrArg (List.flatMap · _) (funext (understood_record hf))

theorem filterMap_ofBody (f : Framework) (body : Text) :
    (Step.ofBody f body).filterMap Step.assertion? =
      (Source.splitStatements body).flatMap (ofStatement f) := by
  unfold Step.ofBody
  rw [List.filterMap_flatMap]
  rfl

/-- All checks are recorded exactly if every statement with a check announces it. -/
theorem understood_ofBody_eq_iff (hf : f ∈ codeFrameworks) (body : Text) :
    understood (ofBody f body) = (Step.ofBody f body).filterMap Step.assertion? ↔
      ∀ s ∈ Source.splitStatements body, ofStatement f s ≠ [] → AnnouncesCheck f s := by
  rw [understood_ofBody hf, filterMap_ofBody, flatMap_filter_eq_iff]
  simp only [occursIn_assertion hf]

end Assertion

/-! ## 4. The checks of a test with titled steps -/

namespace Route

variable {f : Framework}

/-- A statement that is kept as it is makes no check. -/
theorem ofStatement_rawCode (hf : f ∈ codeFrameworks) {body code : Text} {steps : List Step}
    (hsteps : ∀ step ∈ steps, step ∈ Step.ofBody f body) (h : code ∈ steps.filterMap rawCode?) :
    Assertion.ofStatement f code = [] := by
  obtain ⟨step, hstep, hcode⟩ := List.mem_filterMap.1 h
  obtain ⟨s, -, hs⟩ := List.mem_flatMap.1 (hsteps step hstep)
  cases step with
  | chain commands => exact absurd hcode (by simp [rawCode?])
  | verify a => exact absurd hcode (by simp [rawCode?])
  | raw c =>
    obtain rfl := Option.some.inj hcode
    obtain ⟨rfl, hnone⟩ := Step.ofStatement_raw hf hs
    rw [Assertion.ofStatement_trim, hnone]

/-- The steps of a test are those of its actions and of its records; no record of a check that was
read is left out. -/
theorem exists_titledBody (r : Route) (hr : r.source ∈ codeFrameworks) (level : Nat)
    (title body : Text) :
    ∃ checks : List Assertion,
      r.titledBody level ⟨title, body, Assertion.ofBody r.source body⟩ =
        r.steps level ((Step.ofBody r.source body).filter fun s => s.assertion?.isNone) ++
          .concat (checks.map (r.verify level)) ∧
      checks.Sublist (Assertion.ofBody r.source body) ∧
      Assertion.understood checks = Assertion.understood (Assertion.ofBody r.source body) := by
  refine ⟨_, rfl, List.filter_sublist, ?_⟩
  unfold Assertion.understood
  rw [List.filter_filter]
  apply List.filter_congr
  intro a ha
  obtain ⟨s, -, hs⟩ := List.mem_flatMap.1 ha
  by_cases hwhole : a.isOpaque = true
  · rw [hwhole]
    rfl
  · have hread : Assertion.ofStatement r.source a.source ≠ [] := by
      rwa [Assertion.isOpaque_record hr hs] at hwhole
    rw [Bool.not_eq_true] at hwhole
    rw [hwhole]
    simp only [Bool.not_false, Bool.true_and, Bool.not_eq_true', Bool.eq_false_iff]
    intro hkept
    have hactions : ∀ step ∈ (Step.ofBody r.source body).filter fun s => s.assertion?.isNone,
        step ∈ Step.ofBody r.source body := fun step hstep => (List.mem_filter.1 hstep).1
    exact hread (ofStatement_rawCode hr hactions (List.contains_iff_mem.1 hkept))

/-- The records of a test that were read are the checks that its steps make exactly if every
statement with a check announces it, as all that are written in the usual way do. With titled steps
a test is its actions, and then its records: every one that was read once, and in order. -/
theorem recorded_checks_iff_announced (r : Route) (hr : r.source ∈ codeFrameworks) (body : Text) :
    (Assertion.understood (Assertion.ofBody r.source body) =
        (Step.ofBody r.source body).filterMap Step.assertion? ↔
      ∀ s ∈ Source.splitStatements body, Assertion.ofStatement r.source s ≠ [] →
        AnnouncesCheck r.source s) ∧
    ((∀ s ∈ Source.splitStatements body, Assertion.ofStatement r.source s ≠ [] →
        isTidy r.source s = true) →
      Assertion.understood (Assertion.ofBody r.source body) =
        (Step.ofBody r.source body).filterMap Step.assertion?) ∧
    (∀ a ∈ Assertion.ofBody r.source body,
      a.isOpaque = true ↔ Assertion.ofStatement r.source a.source = []) ∧
    ∀ level title, r.target.isStepBased = true → ∃ checks : List Assertion,
      r.test level ⟨title, body, Assertion.ofBody r.source body⟩ =
        r.line level
            (testHead r.target ++ r.style.literal title ++ ", " ++ testCallback r.target) ++
          (r.steps (level + 1)
              ((Step.ofBody r.source body).filter fun s => s.assertion?.isNone) ++
            .concat (checks.map (r.verify (level + 1)))) ++
          r.closeBlock level ∧
      checks.Sublist (Assertion.ofBody r.source body) ∧
      Assertion.understood checks = Assertion.understood (Assertion.ofBody r.source body) := by
  have hiff := Assertion.understood_ofBody_eq_iff hr body
  refine ⟨hiff, ?_, ?_, ?_⟩
  · intro htidy
    apply hiff.2
    intro s hs hcheck
    obtain ⟨-, htrim, -⟩ := Source.isWhole_of_mem_splitStatements hs
    exact Assertion.announcesCheck_of_ofStatement hr htrim (htidy s hs hcheck) hcheck
  · intro a ha
    obtain ⟨s, -, hs⟩ := List.mem_flatMap.1 ha
    exact Assertion.isOpaque_record hr hs
  · intro level title htarget
    obtain ⟨checks, hbody, hsublist, hunderstood⟩ := r.exists_titledBody hr (level + 1) title body
    refine ⟨checks, ?_, hsublist, hunderstood⟩
    unfold test
    rw [if_pos htarget, hbody]

/-- A body with two checks in one chain behind a literal that looks like a check, a check of a plain
value, and a statement without a check that only looks like one. -/
def checkedBody : Text :=
  "cy.get('#a;b')" ++ ".type('; .should(1)')" ++ ".should('be.visible')\n" ++
    ".and('not.have.text', \"it's\");\n" ++ "expect( n ).to.not.equal(3)\n" ++
    "cy.contains('.and(')" ++ ".click(); // done"

/-- From chained commands to titled steps. -/
def toTitled : Route := ⟨.cypress, .testRail, {}⟩

theorem recorded_checks_checkedBody :
    toTitled.source ∈ codeFrameworks ∧
      (∀ s ∈ Source.splitStatements checkedBody, Assertion.ofStatement toTitled.source s ≠ [] →
        isTidy toTitled.source s = true) ∧
      Assertion.understood (Assertion.ofBody toTitled.source checkedBody) =
        (Step.ofBody toTitled.source checkedBody).filterMap Step.assertion? ∧
      (Assertion.ofBody toTitled.source checkedBody).length = 4 ∧
      ((Step.ofBody toTitled.source checkedBody).filterMap Step.assertion?).length = 3 := by
  have htidy : ∀ s ∈ Source.splitStatements checkedBody,
      Assertion.ofStatement toTitled.source s ≠ [] → isTidy toTitled.source s = true := by
    decide +kernel
  exact ⟨by decide, htidy,
    (recorded_checks_iff_announced toTitled (by decide) checkedBody).2.1 htidy,
    by decide +kernel, by decide +kernel⟩

/-- A blank behind the dot hides a check from the record. -/
theorem loose_dot_unrecorded :
    Assertion.ofBody .cypress "cy.get('.a'). should('exist')" = [] ∧
      (Step.ofBody .cypress "cy.get('.a'). should('exist')").filterMap Step.assertion? =
        [⟨.element [⟨.locate, "'.a'"⟩], .known .exist, false, none,
          "cy.get('.a'). should('exist')"⟩] := by
  decide +kernel

end Route

end Parlance
