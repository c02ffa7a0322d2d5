import Parlance.Draft.Step
import Parlance.Proofs.StatementCuts
import Parlance.Step.Statement

/-!
A body is converted statement by statement. A semicolon between two bodies keeps their statements,
steps and checks apart. A comment outside brackets begins a statement; it does not always end it, and
code behind a block comment is kept together with the comment.
-/

namespace Parlance

open Source

/-! ## 1. Bodies one after another -/

namespace Source

/-- A semicolon at the end does not continue a line. -/
theorem continuesChain_semicolon (before t : Text) :
    continuesChain before (t ++ [';']) = continuesChain before t := by
  have hstart : Text.startsWith (Text.trimStart (t ++ [';'])) "." =
      Text.startsWith (Text.trimStart t) "." := by
    induction t with
    | nil => rfl
    | cons c t ih =>
      unfold Text.trimStart at ih ⊢
      by_cases hc : isBlank c = true
      · rwa [List.cons_append, List.dropWhile_cons, if_pos hc, List.dropWhile_cons, if_pos hc]
      · rw [List.cons_append, List.dropWhile_cons, if_neg hc, List.dropWhile_cons, if_neg hc]
        simp [Text.startsWith, List.isPrefixOf]
  unfold continuesChain
  rw [hstart]

/-- A semicolon at the end, outside brackets, ends the last statement as the end of the text does. -/
theorem splitMarks_semicolon {m : Mark} (hm : m.isCode ';' = true) {depth : Nat} {ms : List Mark}
    (hdepth : depthAfter depth ms = 0) (piece : Text) (last : Kind) :
    -- a cut is made outside brackets, so the depth behind all is the one behind the rest
    splitMarks piece depth last (ms ++ [m]) = splitMarks piece depth last ms := by
  induction ms generalizing piece depth last with
  | nil =>
    obtain rfl : depth = 0 := hdepth
    show splitMarks piece 0 last [m] = statement piece.reverse
    rw [splitMarks, if_neg (by simp [Mark.startsComment, Mark.kind_of_isCode hm]),
      if_pos (by simp [Mark.endsStatement, hm])]
    exact List.append_nil _
  | cons a ms ih =>
    -- what is left of a line tells whether a chain goes on, and the semicolon does not
    have hends : a.endsStatement piece depth (ms ++ [m]) = a.endsStatement piece depth ms := by
      have hunmark : unmark (ms ++ [m]) = unmark ms ++ [';'] := by
        rw [unmark_append, unmark_cons, Mark.char_of_isCode hm, unmark_nil]
      unfold Mark.endsStatement
      rw [hunmark, continuesChain_semicolon]
    rw [depthAfter_cons] at hdepth
    rw [List.cons_append, splitMarks, splitMarks, hends]
    split
    · rename_i hc
      rw [Bool.and_eq_true] at hc
      rw [Mark.depth_of_startsComment hc.1] at hdepth
      rw [ih hdepth]
    · split
      · rename_i he
        rw [Mark.depth_of_endsStatement he] at hdepth
        rw [ih hdepth]
      · exact ih hdepth _ _

theorem splitStatements_semicolon {a : Text} (hmode : finalMode a = .code)
    (hdepth : depthAfter 0 (marks a) = 0) (b : Text) :
    splitStatements (a ++ ';' :: b) = splitStatements a ++ splitStatements b := by
  have hm : (codeMark ';').isCode ';' = true := rfl
  rw [splitStatements, marks_append_cons hmode (by decide) (by decide),
    splitMarks_append hm hdepth, splitMarks_semicolon hm hdepth]
  rfl

end Source

/-- A body that leaves no literal, comment or bracket open, a semicolon and any other text: the
statements, steps and checks are those of the body and then those of the other text. -/
theorem ofBody_semicolon (f : Framework) {a : Text} (hmode : finalMode a = .code)
    (hdepth : depthAfter 0 (marks a) = 0) (b : Text) :
    splitStatements (a ++ ";".toList ++ b) = splitStatements a ++ splitStatements b ∧
      Step.ofBody f (a ++ ";".toList ++ b) = Step.ofBody f a ++ Step.ofBody f b ∧
      Assertion.ofBody f (a ++ ";".toList ++ b) = Assertion.ofBody f a ++ Assertion.ofBody f b := by
  have hsplit : splitStatements (a ++ ";".toList ++ b) = splitStatements a ++ splitStatements b := by
    rw [List.append_assoc]
    exact splitStatements_semicolon hmode hdepth b
  refine ⟨hsplit, ?_, ?_⟩
  · rw [Step.ofBody, hsplit, List.flatMap_append]
    rfl
  · rw [Assertion.ofBody, hsplit, List.filter_append, List.flatMap_append]
    rfl

/-- A body with a closer too many, a semicolon in a literal and a line that ends with an operator. -/
def looseBody : Text := ")cy.get('a;b')\n  .click() // done;\n\nx =\n".toList

/-- The other text begins as if it went on with the last line, and leaves a bracket open. -/
theorem ofBody_semicolon_looseBody :
    finalMode looseBody = .code ∧ depthAfter 0 (marks looseBody) = 0 ∧
      splitStatements (looseBody ++ ";".toList ++ ".should('exist'); f([".toList) =
        splitStatements looseBody ++ splitStatements ".should('exist'); f([".toList ∧
      Step.ofBody .cypress (looseBody ++ ";".toList ++ ".should('exist'); f([".toList) =
        Step.ofBody .cypress looseBody ++ Step.ofBody .cypress ".should('exist'); f([".toList ∧
      Assertion.ofBody .cypress (looseBody ++ ";".toList ++ ".should('exist'); f([".toList) =
        Assertion.ofBody .cypress looseBody ++
          Assertion.ofBody .cypress ".should('exist'); f([".toList := by
  have hmode : finalMode looseBody = .code := by decide +kernel
  have hdepth : depthAfter 0 (marks looseBody) = 0 := by decide +kernel
  exact ⟨hmode, hdepth, ofBody_semicolon .cypress hmode hdepth _⟩

/-! ## 2. Where comments begin -/

namespace Source

/-- Whether a comment begins outside brackets among some marked characters. -/
def beginsComment (depth : Nat) (last : Kind) : List Mark → Bool
  | [] => false
  | m :: rest => m.startsComment last depth || beginsComment (m.depth depth) m.kind rest

/-- Whether a comment begins outside brackets in a text. -/
def hasOuterComment (s : Text) : Bool := beginsComment 0 .code (marks s)

/-- Whether a text holds nothing but comments and blanks. -/
def isOnlyComment (s : Text) : Bool := (marks s).all fun m => m.kind = .comment || isBlank m.char

/-- Where nothing is cut, no comment begins outside brackets behind the first character of a
statement. -/
theorem Splitting.Uncut.beginsComment {rest : List Mark} {σ : Splitting} {ms : List Mark}
    (h : Splitting.Uncut rest σ ms) (hpiece : Text.allBlank σ.piece = false) :
    Source.beginsComment σ.depth σ.last ms = false := by
  induction h with
  | nil => rfl
  | @cons σ m ms hc he _ ih =>
    have hnext : Text.allBlank (σ.next m).piece = false := by
      show Text.allBlank (m.char :: σ.piece) = false
      rw [Text.allBlank] at hpiece ⊢
      rw [List.all_cons, hpiece, Bool.and_false]
    have hstarts : m.startsComment σ.last σ.depth = false := by
      simpa [Splitting.cutsBefore, hpiece] using hc
    rw [Source.beginsComment, hstarts, Bool.false_or]
    exact ih hnext

/-- A text begins with a comment if and only if its first character belongs to one. -/
theorem isComment_iff {c : Char} {t : Text} {m : Mark} {ms : List Mark}
    (h : marks (c :: t) = m :: ms) : isComment (c :: t) = true ↔ m.kind = .comment := by
  simp only [isComment, Text.startsWith, Bool.or_eq_true, List.isPrefixOf_iff_prefix]
  constructor
  · rintro (⟨rest, hrest⟩ | ⟨rest, hrest⟩)
    · have hc : c :: t = '/' :: '/' :: rest := hrest.symm
      simp only [hc, marks, read] at h
      rw [← (List.cons.inj h).1]
    · have hc : c :: t = '/' :: '*' :: rest := hrest.symm
      simp only [hc, marks, read] at h
      rw [← (List.cons.inj h).1]
  · intro hm
    -- any other character is code or opens a literal
    apply Classical.byContradiction
    intro hnone
    have hnone := not_or.1 hnone
    rw [marks, read] at h
    · rw [← (List.cons.inj h).1] at hm
      exact Kind.ofCode_ne_comment c hm
    · rintro r rfl rfl
      exact hnone.1 ⟨r, rfl⟩
    · rintro r rfl rfl
      exact hnone.2 ⟨r, rfl⟩

/-- In a text that is cut nowhere a comment outside brackets begins at the first character. -/
theorem IsWhole.hasOuterComment_eq {s : Text} (h : IsWhole s) (htrim : Text.IsTrimmed s) :
    hasOuterComment s = isComment s := by
  cases s with
  | nil => rfl
  | cons c t =>
    have hblank : isBlank c = false := by simpa using htrim.first
    obtain ⟨m, ms, hms⟩ : ∃ m ms, marks (c :: t) = m :: ms := by
      cases hms : marks (c :: t) with
      | nil => exact absurd (length_marks (c :: t)) (by simp [hms])
      | cons m ms => exact ⟨m, ms, rfl⟩
    have hchar : m.char = c := by
      have htext := unmark_marks (c :: t)
      rw [hms] at htext
      exact (List.cons.inj htext).1
    rw [IsWhole, hms] at h
    obtain ⟨-, -, htail⟩ := Splitting.uncut_cons_iff.1 h
    -- behind the first character nothing is cut, so no comment begins there
    have hrest := htail.beginsComment (by
      show Text.allBlank [m.char] = false
      simp [Text.allBlank, hchar, hblank])
    have hfirst : m.startsComment .code 0 = decide (m.kind = .comment) := by
      simp [Mark.startsComment]
    rw [hasOuterComment, hms, Source.beginsComment, hfirst]
    refine (congrArg (_ || ·) hrest).trans ?_
    rw [Bool.or_false, Bool.eq_iff_iff, isComment_iff hms, decide_eq_true_eq]

/-- Marks of a comment up to the end of its line are those of a comment. -/
theorem isOnlyComment_of_line {x : Text} (hx : x.all (· ≠ '\n') = true) :
    isOnlyComment ('/' :: '/' :: x) = true := by
  have hmarks : marks ('/' :: '/' :: x) = ('/' :: '/' :: x).map commentMark := by
    rw [marks, read, read_lineComment_end hx]
    rfl
  rw [isOnlyComment, hmarks, List.all_map, List.all_eq_true]
  exact fun _ _ => rfl

/-- A comment up to the end of its line shares its statement with nothing: the line break behind it
would end the statement. -/
theorem isOnlyComment_of_slashes {s : Text} (h : splitStatements s = [s])
    (hlead : Text.startsWith s "//" = true) : isOnlyComment s = true := by
  obtain ⟨x, hx⟩ := List.isPrefixOf_iff_prefix.1 hlead
  have hs : s = '/' :: '/' :: x := hx.symm
  by_cases hbreak : '\n' ∈ x
  -- the first statement is shorter than the text
  · obtain ⟨line, rest, rfl, hline⟩ := List.eq_append_cons_of_mem hbreak
    have hall : line.all (· ≠ '\n') = true :=
      List.all_eq_true.2 fun c hc => decide_eq_true fun heq => hline (heq ▸ hc)
    have hne : Text.trim ('/' :: '/' :: line) ≠ [] := by
      rw [Ne, Text.trim_eq_nil_iff]
      exact Bool.false_ne_true
    rw [hs, ← List.cons_append, ← List.cons_append, splitStatements_comment hall,
      statement_eq hne] at h
    have hlength := Text.length_trim ('/' :: '/' :: line)
    rw [(List.cons.inj h).1] at hlength
    simp only [List.length_cons, List.length_append] at hlength
    omega
  · rw [hs]
    apply isOnlyComment_of_line
    exact List.all_eq_true.2 fun c hc => decide_eq_true fun heq => hbreak (heq ▸ hc)

end Source

/-! ## 3. Statements with a comment -/

theorem Draft.advisories_concat {drafts : List Draft} (h : ∀ d ∈ drafts, d.advisories = []) :
    (Draft.concat drafts).advisories = [] := by
  induction drafts with
  | nil => rfl
  | cons d drafts ih =>
    show Advisory.merge d.advisories (Draft.concat drafts).advisories = []
    rw [h d List.mem_cons_self, ih fun e he => h e (List.mem_cons_of_mem d he)]
    rfl

/-- Code that is written as it is raises nothing. -/
theorem Route.advisories_block (r : Route) (level : Nat) (code : Text) :
    (r.block level code).advisories = [] := by
  unfold Route.block
  split
  · rfl
  · rename_i first rest
    show Advisory.merge [] (Draft.concat _).advisories = []
    rw [Draft.advisories_concat]
    · rfl
    · intro d hd
      obtain ⟨l, -, rfl⟩ := List.mem_map.1 hd
      split <;> rfl

/-- A statement that begins with a comment is kept as it is, and nothing is said of it. -/
theorem Step.kept_of_isComment {s : Text} (htrim : Text.IsTrimmed s) (h : isComment s = true)
    (r : Route) (level : Nat) :
    Step.ofStatement r.source s = [.raw s] ∧ (r.step level (.raw s)).advisories = [] := by
  constructor
  · unfold Step.ofStatement
    rw [htrim.trim_eq]
    exact if_pos h
  · show (r.raw level s).advisories = []
    rw [Route.raw, if_pos h, Route.verbatim]
    exact r.advisories_block level _

/-- A statement holds no comment outside brackets or nothing but comments, unless it begins with a
block comment and code stands behind it. Every vocabulary keeps a statement with a comment outside
brackets as it is, and nothing is said of it. -/
theorem comments_of_mem_splitStatements {t s : Text} (h : s ∈ splitStatements t) :
    (hasOuterComment s = false ∨ isOnlyComment s = true ↔
      ¬(Text.startsWith s "/*" = true ∧ isOnlyComment s = false)) ∧
    (hasOuterComment s = true → ∀ (r : Route) (level : Nat),
      Step.ofStatement r.source s = [.raw s] ∧ (r.step level (.raw s)).advisories = []) := by
  obtain ⟨hne, htrim, hwhole⟩ := isWhole_of_mem_splitStatements h
  have halone := hwhole.splitStatements_eq htrim hne
  have houter := hwhole.hasOuterComment_eq htrim
  refine ⟨?_, fun hcomment => Step.kept_of_isComment htrim (houter ▸ hcomment)⟩
  rw [houter, isComment]
  cases honly : isOnlyComment s with
  | true => simp
  | false =>
    -- a comment up to the end of its line would be all of the statement
    have hslashes : Text.startsWith s "//" = false := by
      cases hlead : Text.startsWith s "//" with
      | false => rfl
      | true =>
        rw [isOnlyComment_of_slashes halone hlead] at honly
        exact absurd honly (by decide)
    rw [hslashes, Bool.false_or]
    simp

/-- A body with comments behind and inside a call, and one in front of a call. -/
def commentedBody : Text := "a(/* in */ b) // behind\n/* in front */ cy.get('.a').click();".toList

theorem comments_of_commentedBody :
    "/* in front */ cy.get('.a').click()".toList ∈ splitStatements commentedBody ∧
      (hasOuterComment "/* in front */ cy.get('.a').click()".toList = false ∨
        isOnlyComment "/* in front */ cy.get('.a').click()".toList = true ↔
          ¬(Text.startsWith "/* in front */ cy.get('.a').click()".toList "/*" = true ∧
            isOnlyComment "/* in front */ cy.get('.a').click()".toList = false)) ∧
      ∀ (r : Route) (level : Nat),
        Step.ofStatement r.source "/* in front */ cy.get('.a').click()".toList =
            [.raw "/* in front */ cy.get('.a').click()".toList] ∧
          (r.step level (.raw "/* in front */ cy.get('.a').click()".toList)).advisories = [] := by
  have hmem : "/* in front */ cy.get('.a').click()".toList ∈ splitStatements commentedBody := by
    decide +kernel
  have houter : hasOuterComment "/* in front */ cy.get('.a').click()".toList = true := by
    decide +kernel
  obtain ⟨hiff, hkept⟩ := comments_of_mem_splitStatements hmem
  exact ⟨hmem, hiff, hkept houter⟩

/-- Code behind a block comment is in one statement with it. -/
theorem comment_shares_statement :
    ¬∀ t : Text, ∀ s ∈ splitStatements t, hasOuterComment s = false ∨ isOnlyComment s = true := by
  intro h
  have hmem : "/* in front */ cy.get('.a').click()".toList ∈
      splitStatements "/* in front */ cy.get('.a').click();".toList := by decide +kernel
  have hshared := h _ _ hmem
  revert hshared
  decide +kernel

end Parlance
