import Parlance.Proofs.Targets
import Parlance.Step.Statement

/-!
Titles of checks, written and read again. The words of a check may stand anywhere in a title, so
they are found where they were written only if the subject before them holds none.
-/

namespace Parlance

namespace Expectation

/-! ## 1. Words at one place -/

theorem wordsAt?_eq_some_iff {t : Text} {e : Expectation} {negated : Bool}
    {p : Expectation × Bool × Text} :
    wordsAt? t e negated = some p ↔
      ∃ after, t = e.phrase negated ++ after ∧ after.head?.all (· = ' ') = true ∧
        p = (e, negated, after) := by
  unfold wordsAt?
  constructor
  · intro h
    split at h
    · rename_i after hafter
      split at h
      · rename_i hend
        exact ⟨after, Text.eq_append_of_after? hafter, hend, (Option.some.inj h).symm⟩
      · exact absurd h (by simp)
    · exact absurd h (by simp)
  · rintro ⟨after, rfl, hend, rfl⟩
    rw [Text.after?_append]
    exact if_pos hend

/-- The words of checks that begin a text. -/
def wordsFound (t : Text) : List (Expectation × Bool × Text) :=
  all.flatMap fun e => [false, true].filterMap (wordsAt? t e)

theorem mem_wordsFound {t : Text} {p : Expectation × Bool × Text} :
    p ∈ wordsFound t ↔ ∃ e negated, wordsAt? t e negated = some p := by
  unfold wordsFound
  simp only [List.mem_flatMap, List.mem_filterMap]
  constructor
  · rintro ⟨e, -, negated, -, h⟩
    exact ⟨e, negated, h⟩
  · rintro ⟨e, negated, h⟩
    exact ⟨e, e.mem_all, negated, by cases negated <;> simp, h⟩

theorem longestWordsAt?_spec (t : Text) :
    (longestWordsAt? t = none → wordsFound t = []) ∧
      ∀ p, longestWordsAt? t = some p → p ∈ wordsFound t := by
  unfold longestWordsAt? wordsFound
  apply foldl_chosen
  · intro p
    rfl
  · intro b p
    simp only
    split
    · exact .inl rfl
    · exact .inr rfl

theorem longestWordsAt?_eq_none {t : Text} (h : wordsFound t = []) : longestWordsAt? t = none := by
  unfold longestWordsAt?
  change (wordsFound t).foldl _ none = none
  rw [h]
  rfl

/-- The words of a check are those of no other one, and those of no other one begin them. -/
theorem wordsFound_phrase (e : Expectation) (negated : Bool) :
    wordsFound (e.phrase negated) = [(e, negated, [])] := by
  have hall : ∀ e ∈ all, ∀ negated ∈ [false, true],
      wordsFound (e.phrase negated) = [(e, negated, [])] := by
    decide +kernel
  exact hall e e.mem_all negated (by cases negated <;> simp)

theorem eq_of_wordsAt?_phrase {e e' : Expectation} {negated negated' : Bool} {after : Text}
    (h : wordsAt? (e.phrase negated) e' negated' = some (e', negated', after)) :
    e' = e ∧ negated' = negated ∧ after = [] := by
  have hmem := mem_wordsFound.2 ⟨e', negated', h⟩
  rw [wordsFound_phrase, List.mem_singleton] at hmem
  obtain ⟨he, hrest⟩ := Prod.mk.inj hmem
  exact ⟨he, Prod.mk.inj hrest⟩

/-- Behind the words of a check that end with the text or before a space, no others are found. -/
theorem longestWordsAt?_phrase (e : Expectation) (negated : Bool) {tail : Text}
    (htail : tail.head?.all (· = ' ') = true) :
    longestWordsAt? (e.phrase negated ++ tail) = some (e, negated, tail) := by
  have hself : wordsAt? (e.phrase negated ++ tail) e negated = some (e, negated, tail) :=
    wordsAt?_eq_some_iff.2 ⟨tail, rfl, htail, rfl⟩
  have hspec := longestWordsAt?_spec (e.phrase negated ++ tail)
  cases hbest : longestWordsAt? (e.phrase negated ++ tail) with
  | none =>
    have hmem := mem_wordsFound.2 ⟨e, negated, hself⟩
    rw [hspec.1 hbest] at hmem
    exact absurd hmem List.not_mem_nil
  | some p =>
    obtain ⟨e', negated', hp⟩ := mem_wordsFound.1 (hspec.2 p hbest)
    obtain ⟨after, he, hafter, rfl⟩ := wordsAt?_eq_some_iff.1 hp
    rcases List.append_eq_append_iff.1 he with ⟨extra, hextra, rfl⟩ | ⟨extra, hextra, rfl⟩
    · -- words that reach further would have these ones at their beginning
      have hlonger : wordsAt? (e'.phrase negated') e negated = some (e, negated, extra) := by
        refine wordsAt?_eq_some_iff.2 ⟨extra, hextra, ?_, rfl⟩
        cases extra with
        | nil => rfl
        | cons c extra => exact htail
      obtain ⟨rfl, rfl, rfl⟩ := eq_of_wordsAt?_phrase hlonger
      rfl
    · have hshorter : wordsAt? (e.phrase negated) e' negated' = some (e', negated', extra) := by
        refine wordsAt?_eq_some_iff.2 ⟨extra, hextra, ?_, rfl⟩
        cases extra with
        | nil => rfl
        | cons c extra => exact hafter
      obtain ⟨rfl, rfl, rfl⟩ := eq_of_wordsAt?_phrase hshorter
      rfl

/-! ## 2. Words inside a subject -/

/-- A subject in which the words of a check stand on their own, between spaces or the ends. -/
def HoldsPhrase (s : Text) : Prop :=
  ∃ (e : Expectation) (negated : Bool) (before after : Text),
    s = before ++ e.phrase negated ++ after ∧ before.getLast?.all (· = ' ') = true ∧
      after.head?.all (· = ' ') = true

theorem holdsPhrase_iff {s : Text} :
    HoldsPhrase s ↔ ∃ n ∈ List.range (s.length + 1),
      (s.take n).getLast?.all (· = ' ') = true ∧ wordsFound (s.drop n) ≠ [] := by
  constructor
  · rintro ⟨e, negated, before, after, rfl, hbefore, hafter⟩
    refine ⟨before.length, List.mem_range.2 ?_, ?_, ?_⟩
    · simp only [List.length_append]
      omega
    · rwa [List.append_assoc, List.take_left]
    · rw [List.append_assoc, List.drop_left]
      exact List.ne_nil_of_mem
        (mem_wordsFound.2 ⟨e, negated, wordsAt?_eq_some_iff.2 ⟨after, rfl, hafter, rfl⟩⟩)
  · rintro ⟨n, -, hbefore, hfound⟩
    obtain ⟨p, hp⟩ := List.exists_mem_of_ne_nil _ hfound
    obtain ⟨e, negated, hwords⟩ := mem_wordsFound.1 hp
    obtain ⟨after, hdrop, hafter, -⟩ := wordsAt?_eq_some_iff.1 hwords
    refine ⟨e, negated, s.take n, after, ?_, hbefore, hafter⟩
    rw [List.append_assoc, ← hdrop, List.take_append_drop]

instance (s : Text) : Decidable (HoldsPhrase s) := decidable_of_iff _ holdsPhrase_iff.symm

/-- The first word of a text. -/
def firstWord (t : Text) : Text := t.takeWhile (· ≠ ' ')

theorem firstWord_append {tail : Text} (htail : tail.head?.all (· = ' ') = true) (t : Text) :
    firstWord (t ++ tail) = firstWord t := by
  unfold firstWord
  induction t with
  | nil =>
    cases tail with
    | nil => rfl
    | cons c tail =>
      have hc : c = ' ' := by simpa using htail
      simp [hc]
  | cons c t ih => rw [List.cons_append, List.takeWhile_cons, List.takeWhile_cons, ih]

/-- What stands behind the spaces of a text. -/
def behindSpaces : Text → List Text
  | [] => []
  | c :: rest => if c = ' ' then rest :: behindSpaces rest else behindSpaces rest

theorem mem_behindSpaces (front back : Text) : back ∈ behindSpaces (front ++ ' ' :: back) := by
  induction front with
  | nil =>
    rw [List.nil_append, behindSpaces, if_pos rfl]
    exact List.mem_cons_self
  | cons c front ih =>
    rw [List.cons_append, behindSpaces]
    split
    · exact List.mem_cons_of_mem _ ih
    · exact ih

/-- The words with which those of a check begin. -/
def openingWords : List Text := ["is", "exists", "has", "contains", "equals", "does"]

/-- The words of a check begin with such a word, and no other one of them is such a word. -/
theorem phrase_facts (e : Expectation) (negated : Bool) :
    e.phrase negated ≠ [] ∧ Text.IsTrimmed (e.phrase negated) ∧
      firstWord (e.phrase negated) ∈ openingWords ∧
      ∀ back ∈ behindSpaces (e.phrase negated), firstWord back ∉ openingWords := by
  have hall : ∀ e ∈ all, ∀ negated ∈ [false, true],
      e.phrase negated ≠ [] ∧
        ((e.phrase negated).head?.all (!isBlank ·) = true ∧
          (e.phrase negated).getLast?.all (!isBlank ·) = true) ∧
        firstWord (e.phrase negated) ∈ openingWords ∧
        ∀ back ∈ behindSpaces (e.phrase negated), firstWord back ∉ openingWords := by
    decide +kernel
  obtain ⟨hne, htrim, hfirst, hlater⟩ := hall e e.mem_all negated (by cases negated <;> simp)
  exact ⟨hne, ⟨htrim.1, htrim.2⟩, hfirst, hlater⟩

/-- No words of a check are found inside a subject that holds none: words that begin there and reach
over its end would go on with the first word of a check. -/
theorem wordsFound_inside {front back : Text} (h : ¬HoldsPhrase (front ++ back))
    (hfront : front.getLast?.all (· = ' ') = true) (e : Expectation) (negated : Bool) {tail : Text}
    (htail : tail.head?.all (· = ' ') = true) :
    wordsFound (back ++ ' ' :: (e.phrase negated ++ tail)) = [] := by
  rw [List.eq_nil_iff_forall_not_mem]
  intro p hp
  obtain ⟨e', negated', hp⟩ := mem_wordsFound.1 hp
  obtain ⟨after, he, hafter, -⟩ := wordsAt?_eq_some_iff.1 hp
  -- the words reach over the end of the subject, or stand in it
  rcases List.append_eq_append_iff.1 he with ⟨extra, hphrase, hextra⟩ | ⟨extra, hback, hextra⟩
  · cases extra with
    | nil => exact h ⟨e', negated', front, [], by rw [hphrase]; simp, hfront, rfl⟩
    | cons c extra =>
      obtain rfl : ' ' = c := (List.cons.inj hextra).1
      have hrest : e.phrase negated ++ tail = extra ++ after := (List.cons.inj hextra).2
      have hbehind : extra ∈ behindSpaces (e'.phrase negated') := by
        rw [hphrase]
        exact mem_behindSpaces back extra
      have hfirst := (phrase_facts e negated).2.2.1
      rw [← firstWord_append htail, hrest, firstWord_append hafter] at hfirst
      exact (phrase_facts e' negated').2.2.2 extra hbehind hfirst
  · refine h ⟨e', negated', front, extra, by rw [hback, List.append_assoc], hfront, ?_⟩
    cases extra with
    | nil => rfl
    | cons c extra =>
      rw [hextra] at hafter
      exact hafter

/-! ## 3. The words of a title -/

theorem Quoting.isOpen_next {q : Quoting} (hq : q.isOpen = false) {c : Char} (hc : c ≠ '"') :
    (q.next c).isOpen = false := by
  unfold next
  split
  · exact hq
  · split
    · exact hq
    · exact hq

/-- Reading goes on where no words of a check are found. -/
theorem splitPhraseFrom_cons {quoting : Quoting} {seen : Text} {c : Char} {rest : Text}
    (h : seen.head?.all (· = ' ') = true → wordsFound (c :: rest) = []) :
    splitPhraseFrom quoting seen (c :: rest) =
      splitPhraseFrom (quoting.next c) (c :: seen) rest := by
  rw [splitPhraseFrom]
  by_cases hseen : seen.head?.all (· = ' ') = true
  · rw [longestWordsAt?_eq_none (h hseen), ite_self]
  · simp only [hseen, Bool.false_and, Bool.false_eq_true, if_false]

/-- The words behind a subject without any, and without quotes, are the first ones. -/
theorem splitPhraseFrom_append {quoting : Quoting} (hquoting : quoting.isOpen = false)
    {front back : Text} (h : ¬HoldsPhrase (front ++ back)) (hback : '"' ∉ back) (e : Expectation)
    (negated : Bool) {tail : Text} (htail : tail.head?.all (· = ' ') = true) :
    splitPhraseFrom quoting front.reverse (back ++ ' ' :: (e.phrase negated ++ tail)) =
      some ⟨Text.trim (front ++ back ++ [' ']), e, negated, Text.trim tail⟩ := by
  have hfound (front back : Text) (h : ¬HoldsPhrase (front ++ back))
      (hfront : front.reverse.head?.all (· = ' ') = true) :
      wordsFound (back ++ ' ' :: (e.phrase negated ++ tail)) = [] := by
    rw [List.head?_reverse] at hfront
    exact wordsFound_inside h hfront e negated htail
  induction back generalizing front quoting with
  | nil =>
    -- the space ends the subject, and the words follow
    have hspace := Quoting.isOpen_next hquoting (c := ' ') (by decide)
    rw [List.nil_append, splitPhraseFrom_cons (hfound front [] h)]
    cases hphrase : e.phrase negated with
    | nil => exact absurd hphrase (phrase_facts e negated).1
    | cons c words =>
      have hbest := longestWordsAt?_phrase e negated htail
      rw [hphrase] at hbest
      rw [List.cons_append, splitPhraseFrom, ← List.cons_append, hbest]
      simp [hspace]
  | cons c back ih =>
    have hc : c ≠ '"' := fun hc => hback (hc ▸ List.mem_cons_self)
    have happend : front ++ c :: back = (front ++ [c]) ++ back := by simp
    have hnone : front.reverse.head?.all (· = ' ') = true →
        wordsFound (c :: (back ++ ' ' :: (e.phrase negated ++ tail))) = [] :=
      hfound front (c :: back) h
    rw [List.cons_append, splitPhraseFrom_cons hnone]
    have hrest := ih (Quoting.isOpen_next hquoting hc) (happend ▸ h)
      (fun hmem => hback (List.mem_cons_of_mem c hmem))
    rw [List.reverse_append] at hrest
    rw [happend]
    exact hrest

theorem splitPhrase_append {s : Text} (htrim : Text.IsTrimmed s) (h : ¬HoldsPhrase s)
    (hquote : '"' ∉ s) (e : Expectation) (negated : Bool) {tail : Text}
    (htail : tail.head?.all (· = ' ') = true) :
    splitPhrase (s ++ ' ' :: (e.phrase negated ++ tail)) =
      some ⟨s, e, negated, Text.trim tail⟩ := by
  have hsplit := @splitPhraseFrom_append {} rfl [] s h hquote e negated tail htail
  rw [List.nil_append, htrim.trim_append_blanks (by decide)] at hsplit
  exact hsplit

end Expectation

/-! ## 4. Titles -/

open Source

theorem readSubject_eq {s : Text} {q : Query} (hne : s ≠ []) (hpage : s ≠ "page".toList)
    (hvalue : Text.startsWith s "value ".toList = false) (hread : readTarget s = some q) :
    readSubject s = some (.element [q]) := by
  have hnone : Text.after? "value " s = none := by
    rw [← Option.isNone_iff_eq_none, ← Option.isSome_eq_false_iff, Text.isSome_after?, hvalue]
  unfold readSubject
  rw [if_neg (by simpa using hne), if_neg hpage]
  simp only [hnone, hread, Option.map_some]

theorem unquote_of_plainLiteral? {expr t : Text} (h : plainLiteral? (Text.trim expr) = some t) :
    unquote expr = some t := by
  unfold plainLiteral? at h
  split at h
  · exact absurd h (by simp)
  · rw [← unquote_trim, h]

/-- What a title says behind the words of a check: the value that is compared with. -/
def argumentWords (argument : Option Text) : Text :=
  (argument.map fun arg => ' ' :: valueWords arg).getD []

theorem argumentWords_facts {argument : Option Text}
    (h : ∀ arg ∈ argument, (plainLiteral? (Text.trim arg)).isSome = true) :
    (argumentWords argument).head?.all (· = ' ') = true ∧
      (argumentWords argument).getLast?.all (!isBlank ·) = true ∧
      (nonEmpty? (Text.trim (argumentWords argument))).map unquote = argument.map unquote := by
  cases argument with
  | none => exact ⟨rfl, rfl, rfl⟩
  | some arg =>
    obtain ⟨v, hv⟩ := Option.isSome_iff_exists.1 (h arg rfl)
    have htrim := isTrimmed_quotedValue v
    have hwords : argumentWords (some arg) = ' ' :: quotedValue v :=
      congrArg (' ' :: ·) (valueWords_of_plainLiteral? hv)
    rw [hwords, Text.trim_cons_blank (by decide), htrim.trim_eq, Option.map_some,
      unquote_of_plainLiteral? hv]
    exact ⟨rfl, htrim.last, congrArg some (unquote_quotedValue v)⟩

theorem verifyTitle_eq {a : Assertion} {selector s : Text}
    (hsubject : a.subject = .element [⟨.locate, selector⟩]) (hselector : unquote selector = some s)
    (e : Expectation) :
    verifyTitle a e =
      verifyWord ++ ' ' :: (s ++ ' ' :: (e.phrase a.negated ++ argumentWords a.argument)) := by
  have htitle : verifyTitle a e = verifyWord ++ [' '] ++ subjectWords a.subject ++ [' '] ++
      e.phrase a.negated ++ argumentWords a.argument := rfl
  have hwords : subjectWords a.subject = s := by
    rw [hsubject]
    exact elementWords_locate hselector
  rw [htitle, hwords]
  simp only [List.append_assoc, List.cons_append, List.nil_append]

theorem readVerifyTitle_append (source t : Text) :
    readVerifyTitle source (verifyWord ++ ' ' :: t) = readVerification source (Text.trim t) := by
  have hspace : Text.firstIs (· = ' ') (' ' :: t) = true := rfl
  unfold readVerifyTitle
  rw [Text.after?_append]
  simp only [bind, Option.bind_some, hspace, if_true]
  rw [Text.trim_cons_blank (by decide)]

/-- The title of a check of an element is read as a check of the same kind. -/
theorem readVerifyTitle_verifyTitle {a : Assertion} {selector s : Text} {q : Query}
    (hsubject : a.subject = .element [⟨.locate, selector⟩]) (hselector : unquote selector = some s)
    (htrim : Text.IsTrimmed s) (hne : s ≠ []) (hquote : '"' ∉ s)
    (hwords : ¬Expectation.HoldsPhrase s) (hread : readSubject s = some (.element [q]))
    (hargument : ∀ arg ∈ a.argument, (plainLiteral? (Text.trim arg)).isSome = true)
    (e : Expectation) (source : Text) :
    readVerifyTitle source (verifyTitle a e) =
      some ⟨.element [q], .known e, a.negated,
        nonEmpty? (Text.trim (argumentWords a.argument)), source⟩ := by
  obtain ⟨hspace, hlast, -⟩ := argumentWords_facts hargument
  obtain ⟨hphrase, hphraseTrim, -, -⟩ := Expectation.phrase_facts e a.negated
  have hrest : Text.IsTrimmed (s ++ ' ' :: (e.phrase a.negated ++ argumentWords a.argument)) := by
    refine htrim.append hne (@Text.last_append _ [' '] _ ?_ (hphraseTrim.append hphrase hlast).last)
    simp [hphrase]
  rw [verifyTitle_eq hsubject hselector, readVerifyTitle_append, hrest.trim_eq]
  unfold readVerification
  rw [Expectation.splitPhrase_append htrim hwords hquote e a.negated hspace]
  simp only [bind, Option.bind_some, hread]

/-- The statement of a titled step without a body. -/
def Style.stepText (style : Style) (title : Text) : Text :=
  "step(".toList ++ style.literal title ++ ")".toList

/-- The step with the title of a check is the check. -/
theorem ofStatement_stepText (style : Style) {title : Text} {a : Assertion}
    (h : readVerifyTitle (style.stepText title) title = some a) :
    Step.ofStatement .testRail (style.stepText title) = [.verify a] := by
  -- the statement is a chain of one call
  have hcode : style.stepText title = chainText ⟨"step", some (style.literal title)⟩ [] := by
    have hopen : "step(".toList = "step".toList ++ ['('] := by decide
    have hclose : ")".toList = [')'] := by decide
    rw [chainText_nil]
    change "step(".toList ++ style.literal title ++ ")".toList =
      "step".toList ++ ('(' :: style.literal title ++ [')'])
    rw [hopen, hclose]
    simp only [List.append_assoc, List.cons_append, List.nil_append]
  have hsound : Link.IsSound ⟨"step", some (style.literal title)⟩ :=
    .call (by decide) (style.selfContained_literal title)
  have hstatement := @isStatement_chainText _ [] hsound (by simp)
  have hargs := splitArguments_of_unquote (style.unquote_literal title)
  rw [(style.isValueText_literal title).isTrimmed.trim_eq] at hargs
  have hshape : readTestRail (style.stepText title) = some [.verify a] := by
    unfold readTestRail
    rw [hcode, readChain_chainText hsound.isReadable (by simp), ← hcode]
    simp only [bind, Option.bind_some, if_true, hargs, style.unquote_literal, readStep, h]
  unfold Step.ofStatement
  rw [← hcode] at hstatement
  simp only [hstatement.trimmed.trim_eq, hstatement.code, Bool.false_eq_true, if_false, readShape,
    hshape]
  rfl

/-- A step with the title of a check of an element is read as one check of the same kind, if the
selector is read as itself and the words of no check stand on their own in it. -/
theorem ofStatement_verifyTitle (style : Style) {a : Assertion} {selector s : Text}
    (hsubject : a.subject = .element [⟨.locate, selector⟩]) (hselector : unquote selector = some s)
    (hquote : '"' ∉ s) (hwords : ¬Expectation.HoldsPhrase s) (hpage : s ≠ "page".toList)
    (hvalue : Text.startsWith s "value ".toList = false)
    (hread : ∃ q, readTarget s = some q ∧ q.action = .locate ∧ unquote q.selector = some s)
    (hargument : ∀ arg ∈ a.argument, (plainLiteral? (Text.trim arg)).isSome = true)
    (e : Expectation) :
    ∃ q check, Step.ofStatement .testRail (style.stepText (verifyTitle a e)) = [.verify check] ∧
      check.subject = .element [q] ∧ q.action = .locate ∧ unquote q.selector = some s ∧
      check.expectation = .known e ∧ check.negated = a.negated ∧
      check.argument.map unquote = a.argument.map unquote := by
  obtain ⟨q, hq, hlocate, hsame⟩ := hread
  -- a selector that is read as itself has no blanks around it
  obtain ⟨-, htrim, hne, -⟩ := isSelector_of_readTarget hq hlocate hsame (Nat.le_refl _)
  have htitle := readVerifyTitle_verifyTitle hsubject hselector htrim hne hquote hwords
    (readSubject_eq hne hpage hvalue hq) hargument e (style.stepText (verifyTitle a e))
  exact ⟨q, _, ofStatement_stepText style htitle, rfl, hlocate, hsame, rfl, rfl,
    (argumentWords_facts hargument).2.2⟩

/-- A selector with the words of checks in it, none of which stand on their own. -/
def wordySelector : Text := "li.is > .exists, #has text-is"

/-- A check of such an element with a value in which some of them do. -/
def wordyCheck : Assertion :=
  ⟨.element [⟨.locate, literal wordySelector⟩], .known .equal, true,
    some "'it \"is visible\" \\\\ is hidden'", []⟩

theorem ofStatement_wordyCheck :
    '"' ∉ wordySelector ∧ ¬Expectation.HoldsPhrase wordySelector ∧
      wordySelector ≠ "page".toList ∧ Text.startsWith wordySelector "value ".toList = false ∧
      (∃ q, readTarget wordySelector = some q ∧ q.action = .locate ∧
        unquote q.selector = some wordySelector) ∧
      (∀ arg ∈ wordyCheck.argument, (plainLiteral? (Text.trim arg)).isSome = true) ∧
      ∃ q check, Step.ofStatement .testRail
          (({ quote := .double } : Style).stepText (verifyTitle wordyCheck .equal)) =
          [.verify check] ∧
        check.subject = .element [q] ∧ q.action = .locate ∧
        unquote q.selector = some wordySelector ∧ check.expectation = .known .equal ∧
        check.negated = true ∧
        check.argument.map unquote = some (some "it \"is visible\" \\ is hidden".toList) := by
  have hquote : '"' ∉ wordySelector := by decide
  have hwords : ¬Expectation.HoldsPhrase wordySelector := by decide +kernel
  have hpage : wordySelector ≠ "page".toList := by decide
  have hvalue : Text.startsWith wordySelector "value ".toList = false := by decide
  have hread : ∃ q, readTarget wordySelector = some q ∧ q.action = .locate ∧
      unquote q.selector = some wordySelector :=
    ⟨⟨.locate, literal wordySelector⟩, by decide, rfl, by decide⟩
  have hargument : ∀ arg ∈ wordyCheck.argument, (plainLiteral? (Text.trim arg)).isSome = true := by
    decide
  exact ⟨hquote, hwords, hpage, hvalue, hread, hargument,
    ofStatement_verifyTitle { quote := .double } rfl (unquote_singleQuoted wordySelector) hquote
      hwords hpage hvalue hread hargument .equal⟩

end Parlance
