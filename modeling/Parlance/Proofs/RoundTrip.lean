import Parlance.Draft.Document
import Parlance.Proofs.Concatenation
import Parlance.Proofs.Style
import Parlance.Proofs.Reading

/-!
Writing a document and reading it again keeps its outline: the titles and the nesting of its suites,
the titles of its tests and the number of its hooks, for every pair of vocabularies and every style.
All that is asked of the document is that what is written inside its tests and hooks is complete.
-/

namespace Parlance

open Source Document

/-! ## 1. Outlines -/

/-- The number of hooks of each kind. -/
def Hooks.counts (h : Hooks) : List Nat := HookKind.all.map fun kind => (h.get kind).length

/-- A suite without what its tests and hooks do: its title, the titles of its tests, the number of
its hooks of each kind, the statements kept between its declarations and its inner suites. -/
inductive Outline where
  | suite (title : Text) (tests : List Text) (hooks : List Nat) (kept : List Text)
      (suites : List Outline)

mutual

/-- The outline of a suite. -/
def Suite.outline : Suite → Outline
  | ⟨title, tests, hooks, suites, passthrough⟩ =>
    .suite title (tests.map TestCase.title) hooks.counts passthrough (Suite.outlines suites)

/-- The outlines of some suites. -/
def Suite.outlines : List Suite → List Outline
  | [] => []
  | s :: rest => s.outline :: Suite.outlines rest

end

/-- The outline of a document, whose outermost scope has no title. -/
def Document.outline (d : Document) : Outline := (d.toSuite []).outline

theorem Suite.outlines_append (s t : List Suite) :
    Suite.outlines (s ++ t) = Suite.outlines s ++ Suite.outlines t := by
  induction s with
  | nil => rfl
  | cons a s ih => rw [List.cons_append, Suite.outlines, Suite.outlines, ih, List.cons_append]

/-- What of a document is in its outline, and that no block of it is open. -/
structure Shows (d : Document) (tests : List Text) (hooks : HookKind → Nat)
    (suites : List Outline) : Prop where
  tests : d.tests.map TestCase.title = tests
  hooks : ∀ kind, (d.hooks.get kind).length = hooks kind
  suites : Suite.outlines d.suites = suites
  passthrough : d.passthrough = []
  unterminated : d.unterminated = []

namespace Shows

theorem empty : Shows {} [] (fun _ => 0) [] := by
  refine ⟨rfl, fun kind => ?_, rfl, rfl, rfl⟩
  cases kind <;> rfl

theorem append {d e : Document} {t u : List Text} {h g : HookKind → Nat} {s r : List Outline}
    (hd : Shows d t h s) (he : Shows e u g r) :
    Shows (d ++ e) (t ++ u) (fun kind => h kind + g kind) (s ++ r) where
  tests := by rw [← hd.tests, ← he.tests, ← List.map_append]; rfl
  hooks kind := by
    rw [← hd.hooks, ← he.hooks, ← List.length_append]
    cases kind <;> rfl
  suites := by rw [← hd.suites, ← he.suites, ← Suite.outlines_append]; rfl
  passthrough := by
    show d.passthrough ++ e.passthrough = []
    rw [hd.passthrough, he.passthrough]
    rfl
  unterminated := by
    show d.unterminated ++ e.unterminated = []
    rw [hd.unterminated, he.unterminated]
    rfl

/-- What a document shows is its outline. -/
theorem outline_eq {d : Document} {title : Text} {t : List TestCase} {h : Hooks} {s : List Suite}
    (hd : Shows d (t.map TestCase.title) (fun kind => (h.get kind).length) (Suite.outlines s)) :
    (d.toSuite title).outline = Suite.outline ⟨title, t, h, s, []⟩ := by
  have hcounts : d.hooks.counts = h.counts := by
    rw [Hooks.counts, Hooks.counts]
    exact List.map_congr_left fun kind _ => hd.hooks kind
  rw [toSuite, Suite.outline, Suite.outline, hd.tests, hd.suites, hd.passthrough, hcounts]

end Shows

/-! ## 2. Written heads -/

namespace StandsFor

theorem isHead_titled {f : Framework} {slot : Slot} {lead cb : Text} (style : Style)
    (title : Text) (hd : slot ∈ Slot.declarations) (ht : slot.isTitled = true)
    (hlead : lead ∈ Slot.leads f slot) (hself : SelfContained (',' :: cb))
    (hcb : ∀ rest, (Slot.blockCallback f slot).Takes (some ',') (cb ++ ['\x7b']) rest {}) :
    IsHead f slot title (lead ++ '(' :: (style.literal title ++ ',' :: cb ++ ['\x7b'])) := by
  constructor
  · intro last rest hlast
    refine ⟨hd, hlast, lead, [], _, by rw [List.nil_append], hlead, rfl, ?_⟩
    have htail := @Slot.HeadTail.titled _ _ [] _ [] _ _ rfl style.quote.isQuote_char
      (style.quote.isTitleBody_escape title) rfl (hcb rest)
    rw [Quote.unescape_flatMap_escape] at htail
    rw [ht]
    simpa [Style.literal] using htail
  · obtain ⟨hne, hchars⟩ := Slot.all_leadChar hd lead hlead
    exact ⟨lead, style.literal title ++ ',' :: cb, by simp, hne, hchars,
      (style.selfContained_literal title).append hself (.of_last (style.literal_noSlash title))⟩

theorem isHead_untitled {f : Framework} {slot : Slot} {lead cb : Text}
    (hd : slot ∈ Slot.declarations) (ht : slot.isTitled = false)
    (hlead : lead ∈ Slot.leads f slot) (hself : SelfContained cb)
    (hcb : ∀ rest, (Slot.blockCallback f slot).Takes (some '(') (cb ++ ['\x7b']) rest {}) :
    IsHead f slot [] (lead ++ '(' :: (cb ++ ['\x7b'])) := by
  constructor
  · intro last rest hlast
    refine ⟨hd, hlast, lead, [], _, by rw [List.nil_append], hlead, rfl, ?_⟩
    rw [ht]
    exact .untitled (hcb rest)
  · obtain ⟨hne, hchars⟩ := Slot.all_leadChar hd lead hlead
    exact ⟨lead, cb, rfl, hne, hchars, hself⟩

/-- The text of a callback up to its brace, taken whatever follows. -/
theorem takes_blockCallback {f : Framework} {slot : Slot} {last : Option Char} {s : Text}
    (h : Pattern.hitBehind last s [] {} ∈ (Slot.blockCallback f slot).hits ⟨last, s ++ []⟩)
    (h' : Pattern.hitBehind last s ['a'] {} ∈ (Slot.blockCallback f slot).hits ⟨last, s ++ ['a']⟩)
    (rest : Text) : (Slot.blockCallback f slot).Takes last s rest {} :=
  Pattern.Takes.before_any (Slot.blockCallback_isUnanchored f slot) h h' rest

theorem isHead_suite (f : Framework) (style : Style) (title : Text) :
    IsHead f .suite title (Route.suiteHead f ++ style.literal title ++ ", () => \x7b") := by
  obtain ⟨lead, hhead, hlead⟩ :
      ∃ lead, Route.suiteHead f = lead ++ ['('] ∧ lead ∈ Slot.leads f .suite := by
    cases f
    · exact ⟨"describe", by decide, by decide⟩
    · exact ⟨"test.describe", by decide, by decide⟩
    · exact ⟨"suite", by decide, by decide⟩
  -- a callback is taken whatever follows, since it is before nothing and before a word
  have h := @isHead_titled f .suite lead " () => " style title (by decide) rfl hlead (by decide)
    (takes_blockCallback (by cases f <;> decide) (by cases f <;> decide))
  have hcb : ", () => \x7b".toList = ',' :: " () => ".toList ++ ['\x7b'] := by decide
  rw [hhead, hcb]
  simpa only [List.append_assoc, List.cons_append, List.nil_append] using h

theorem isHead_test (f : Framework) (style : Style) (title : Text) :
    IsHead f .test title
      (Route.testHead f ++ style.literal title ++ ", " ++ Route.testCallback f) := by
  obtain ⟨lead, hhead, hlead⟩ :
      ∃ lead, Route.testHead f = lead ++ ['('] ∧ lead ∈ Slot.leads f .test := by
    cases f
    · exact ⟨"it", by decide, by decide⟩
    · exact ⟨"test", by decide, by decide⟩
    · exact ⟨"test_case", by decide, by decide⟩
  obtain ⟨cb, hcallback, hself, hcb⟩ : ∃ cb, Route.testCallback f = cb ++ ['\x7b'] ∧
      SelfContained (',' :: ' ' :: cb) ∧ ∀ rest,
        (Slot.blockCallback f .test).Takes (some ',') (' ' :: cb ++ ['\x7b']) rest {} := by
    cases f
    · exact ⟨"() => ", by decide, by decide, takes_blockCallback (by decide) (by decide)⟩
    · exact ⟨"async (\x7b page \x7d) => ", by decide, by decide,
        takes_blockCallback (by decide) (by decide)⟩
    · exact ⟨"() => ", by decide, by decide, takes_blockCallback (by decide) (by decide)⟩
  have h := isHead_titled style title (by decide) rfl hlead hself hcb
  rw [hhead, hcallback, show ", ".toList = [',', ' '] by decide]
  simpa only [List.append_assoc, List.cons_append, List.nil_append] using h

theorem isHead_hook (f : Framework) (kind : HookKind) :
    IsHead f (.hook kind) [] (Route.hookHead f kind) := by
  obtain ⟨lead, cb, hhead, hlead, hself, hcb⟩ : ∃ lead cb,
      Route.hookHead f kind = lead ++ '(' :: (cb ++ ['\x7b']) ∧ lead ∈ Slot.leads f (.hook kind) ∧
        SelfContained cb ∧ ∀ rest,
          (Slot.blockCallback f (.hook kind)).Takes (some '(') (cb ++ ['\x7b']) rest {} := by
    refine ⟨(Route.hookHead f kind).takeWhile (· ≠ '('),
      ((Route.hookHead f kind).dropWhile (· ≠ '(')).tail.dropLast, ?_, ?_, ?_,
      takes_blockCallback ?_ ?_⟩ <;> cases f <;> cases kind <;> decide
  have hd : Slot.hook kind ∈ Slot.declarations := by cases kind <;> decide
  rw [hhead]
  exact isHead_untitled hd rfl hlead hself hcb

end StandsFor

/-! ## 3. Written blocks -/

theorem Style.isLayout_indentation (s : Style) (level : Nat) :
    (s.indentation level).all StandsFor.isLayout = true :=
  s.all_indentation rfl rfl level

namespace Route

variable (r : Route)

/-- The text written inside a test. -/
def testText (level : Nat) (test : TestCase) : Text :=
  (if r.target.isStepBased then r.titledBody (level + 1) test
    else r.steps (level + 1) (Step.ofBody r.source test.body)).text

/-- The text written inside a hook. -/
def hookText (level : Nat) (body : Text) : Text :=
  (r.steps (level + 1) (Step.ofBody r.source body)).text

/-- The body that is read back where a text has been written inside a block. -/
def bodyText (level : Nat) (inner : Text) : Text := '\n' :: inner ++ r.style.indentation level

theorem selfContained_bodyText (level : Nat) {inner : Text} (h : SelfContained inner) :
    SelfContained (r.bodyText level inner) := by
  have hindent := (@StandsFor.layout r.target _ (r.style.isLayout_indentation level)).selfContained
  have hbreak : SelfContained ['\n'] := by decide
  refine hbreak.append (h.append hindent ?_) (.of_last (by decide))
  -- no comment begins where the text meets the indentation
  cases hi : r.style.indentation level with
  | nil => exact fun _ => ⟨by simp, by simp⟩
  | cons c rest =>
    have hc := r.style.isLayout_indentation level
    rw [hi, List.all_cons, Bool.and_eq_true] at hc
    refine .of_head ?_ ?_ <;>
    · rintro rfl
      exact absurd hc.1 (by decide)

/-- A block with a complete text inside stands for what its head declares. -/
theorem standsFor_block (level : Nat) {slot : Slot} {title s inner : Text}
    (hs : StandsFor.IsHead r.target slot title s) (hinner : SelfContained inner) :
    StandsFor r.target ((r.line level s).text ++ inner ++ (r.closeBlock level).text)
      (declared r.target ⟨slot, title, s.length⟩ ⟨r.bodyText level inner, true, []⟩) := by
  have hindent := @StandsFor.layout r.target _ (r.style.isLayout_indentation level)
  have hblock := StandsFor.declaration hs (r.selfContained_bodyText level hinner)
  have hbreak := @StandsFor.layout r.target ['\n'] rfl
  have h := (hindent.append hblock).append hbreak
  have htext : (r.line level s).text ++ inner ++ (r.closeBlock level).text =
      r.style.indentation level ++ (s ++ (r.bodyText level inner ++ ['\x7d', ')', ';'])) ++
        ['\n'] := by
    have hclose : "\x7d);".toList = ['\x7d', ')', ';'] := by decide
    simp only [line, closeBlock, bodyText, hclose, List.append_assoc, List.cons_append,
      List.nil_append]
  rw [htext]
  simpa using h

theorem test_standsFor {level : Nat} {test : TestCase}
    (h : SelfContained (r.testText level test)) :
    ∃ d, StandsFor r.target (r.test level test).text d ∧
      Shows d [test.title] (fun _ => 0) [] := by
  refine ⟨_, r.standsFor_block level (StandsFor.isHead_test r.target r.style test.title) h, rfl, ?_, rfl,
    rfl, rfl⟩
  intro kind
  cases kind <;> rfl

theorem hook_standsFor {level : Nat} (kind : HookKind) {body : Text}
    (h : SelfContained (r.hookText level body)) :
    ∃ d, StandsFor r.target (r.hook level kind body).text d ∧
      Shows d [] (fun other => if kind = other then 1 else 0) [] := by
  have hblock := r.standsFor_block level (StandsFor.isHead_hook r.target kind) h
  have htext : (r.hook level kind body).text =
      (r.line level (hookHead r.target kind)).text ++ r.hookText level body ++
        (r.closeBlock level).text := by
    simp only [hook, Draft.text_append, hookText]
    split <;> simp [noPageAdvice, Draft.advice]
  refine ⟨_, htext ▸ hblock, rfl, ?_, rfl, rfl, rfl⟩
  intro other
  show ((Hooks.push {} kind _).get other).length = _
  rw [Hooks.get_push]
  cases kind <;> cases other <;> rfl

end Route

/-! ## 4. Blocks one after another -/

/-- Drafts stand for a document if each of them stands for a part of it. -/
inductive StandFor (f : Framework) : List Draft → Document → Prop
  | nil : StandFor f [] {}
  | cons {draft : Draft} {drafts : List Draft} {d e : Document}
      (hd : StandsFor f draft.text d) (he : StandFor f drafts e) :
      StandFor f (draft :: drafts) (d ++ e)

namespace StandFor

variable {f : Framework} {drafts more : List Draft} {d e : Document}

theorem append (hd : StandFor f drafts d) (he : StandFor f more e) :
    StandFor f (drafts ++ more) (d ++ e) := by
  induction hd with
  | nil => exact he
  | cons h _ ih =>
    rw [append_assoc]
    exact .cons h ih

/-- Empty lines between neighbours do not matter. -/
theorem separated (h : StandFor f drafts d) : StandsFor f (Draft.separated drafts).text d := by
  induction h with
  | nil => exact .nil
  | @cons draft rest d e hd he ih =>
    cases he with
    | nil =>
      show StandsFor f (draft.text ++ []) (d ++ {})
      simpa using hd
    | @cons next rest d' e' hd' he' =>
      have hbreak := @StandsFor.layout f ['\n'] rfl
      have h := hd.append (hbreak.append ih)
      rw [Draft.separated, List.intersperse_cons_cons, Draft.concat_cons, Draft.concat_cons]
      exact h

/-- Nor does an empty line behind each. -/
theorem terminated (h : StandFor f drafts d) :
    StandsFor f (Draft.concat (drafts.map (· ++ Draft.blankLine))).text d := by
  induction h with
  | nil => exact .nil
  | @cons draft rest d e hd he ih =>
    have hbreak := @StandsFor.layout f ['\n'] rfl
    have h := (hd.append hbreak).append ih
    rw [List.map_cons, Draft.concat_cons]
    simpa [Draft.blankLine] using h

end StandFor

namespace Route

variable (r : Route)

theorem tests_standFor {level : Nat} {tests : List TestCase}
    (h : ∀ t ∈ tests, SelfContained (r.testText level t)) :
    ∃ d, StandFor r.target (tests.map (r.test level)) d ∧
      Shows d (tests.map TestCase.title) (fun _ => 0) [] := by
  induction tests with
  | nil => exact ⟨{}, .nil, .empty⟩
  | cons t tests ih =>
    obtain ⟨d, hd, hshow⟩ := r.test_standsFor (h t List.mem_cons_self)
    obtain ⟨e, he, hshow'⟩ := ih fun u hu => h u (List.mem_cons_of_mem t hu)
    exact ⟨d ++ e, .cons hd he, hshow.append hshow'⟩

theorem hooksOfKind_standFor {level : Nat} (kind : HookKind) {bodies : List Text}
    (h : ∀ body ∈ bodies, SelfContained (r.hookText level body)) :
    ∃ d, StandFor r.target (bodies.map (r.hook level kind)) d ∧
      Shows d [] (fun other => if kind = other then bodies.length else 0) [] := by
  induction bodies with
  | nil =>
    refine ⟨{}, .nil, ?_⟩
    simpa using Shows.empty
  | cons body bodies ih =>
    obtain ⟨d, hd, hshow⟩ := r.hook_standsFor kind (h body List.mem_cons_self)
    obtain ⟨e, he, hshow'⟩ := ih fun b hb => h b (List.mem_cons_of_mem body hb)
    refine ⟨d ++ e, .cons hd he, ?_⟩
    have hsum := hshow.append hshow'
    refine ⟨hsum.tests, fun other => ?_, hsum.suites, hsum.passthrough, hsum.unterminated⟩
    rw [hsum.hooks]
    split
    · rw [List.length_cons, Nat.add_comm]
    · rfl

theorem hooks_standFor {level : Nat} {hooks : Hooks}
    (h : ∀ kind, ∀ body ∈ hooks.get kind, SelfContained (r.hookText level body)) :
    ∃ d, StandFor r.target (r.hooks level hooks) d ∧
      Shows d [] (fun kind => (hooks.get kind).length) [] := by
  obtain ⟨d₁, hd₁, hs₁⟩ := r.hooksOfKind_standFor .beforeAll (h .beforeAll)
  obtain ⟨d₂, hd₂, hs₂⟩ := r.hooksOfKind_standFor .afterAll (h .afterAll)
  obtain ⟨d₃, hd₃, hs₃⟩ := r.hooksOfKind_standFor .beforeEach (h .beforeEach)
  obtain ⟨d₄, hd₄, hs₄⟩ := r.hooksOfKind_standFor .afterEach (h .afterEach)
  have hsum := hs₁.append (hs₂.append (hs₃.append hs₄))
  refine ⟨d₁ ++ (d₂ ++ (d₃ ++ d₄)), ?_, hsum.tests, fun kind => ?_, hsum.suites, hsum.passthrough,
    hsum.unterminated⟩
  · have hall := hd₁.append (hd₂.append (hd₃.append hd₄))
    simpa [Route.hooks, HookKind.all] using hall
  · rw [hsum.hooks]
    cases kind <;> simp

/-! ## 5. Whole documents -/

/-- Whether nothing is kept in a scope and what is written inside its tests and hooks is
complete. -/
def isWholeScope (level : Nat) (tests : List TestCase) (hooks : Hooks) (passthrough : List Text) :
    Bool :=
  passthrough.isEmpty && tests.all (fun t => decide (SelfContained (r.testText level t))) &&
    HookKind.all.all fun kind =>
      (hooks.get kind).all fun body => decide (SelfContained (r.hookText level body))

mutual

/-- Whether the scope of a suite and those of its inner suites are whole. -/
def isWholeSuite (r : Route) (level : Nat) : Suite → Bool
  | ⟨_, tests, hooks, suites, passthrough⟩ =>
    r.isWholeScope (level + 1) tests hooks passthrough && r.areWholeSuites (level + 1) suites

/-- Whether the scopes of some suites are whole. -/
def areWholeSuites (r : Route) (level : Nat) : List Suite → Bool
  | [] => true
  | s :: rest => r.isWholeSuite level s && r.areWholeSuites level rest

end

/-- Whether all scopes of a document are whole. -/
def isWhole (d : Document) : Bool :=
  r.isWholeScope 0 d.tests d.hooks d.passthrough && r.areWholeSuites 0 d.suites

theorem scope_standFor {level : Nat} {tests : List TestCase} {hooks : Hooks}
    {passthrough : List Text} (h : r.isWholeScope level tests hooks passthrough = true) :
    passthrough = [] ∧ ∃ d,
      StandFor r.target (r.hooks level hooks ++ tests.map (r.test level)) d ∧
        Shows d (tests.map TestCase.title) (fun kind => (hooks.get kind).length) [] := by
  simp only [isWholeScope, Bool.and_eq_true, List.isEmpty_iff, List.all_eq_true,
    decide_eq_true_eq] at h
  obtain ⟨⟨hp, ht⟩, hh⟩ := h
  have hh (kind : HookKind) : ∀ body ∈ hooks.get kind, SelfContained (r.hookText level body) :=
    hh kind (by cases kind <;> decide)
  obtain ⟨d, hd, hshow⟩ := r.hooks_standFor hh
  obtain ⟨e, he, hshow'⟩ := r.tests_standFor ht
  exact ⟨hp, d ++ e, hd.append he, hshow.append hshow'⟩

mutual

theorem suite_standsFor (r : Route) (level : Nat) (s : Suite) (h : r.isWholeSuite level s = true) :
    ∃ d, StandsFor r.target (r.suite level s).text d ∧ Shows d [] (fun _ => 0) [s.outline] := by
  obtain ⟨title, tests, hooks, suites, passthrough⟩ := s
  rw [isWholeSuite, Bool.and_eq_true] at h
  obtain ⟨rfl, d, hd, hshow⟩ := r.scope_standFor h.1
  obtain ⟨e, he, hshow'⟩ := suites_standFor r (level + 1) suites h.2
  have hinner := (hd.append he).separated
  have hsum := hshow.append hshow'
  simp only [List.append_nil, List.nil_append, Nat.add_zero] at hsum
  have hblock := r.standsFor_block level (StandsFor.isHead_suite r.target r.style title)
    hinner.selfContained
  -- the suite is read back from the body that was written for it
  have hbody : StandsFor r.target (r.bodyText level (Draft.separated
      (r.hooks (level + 1) hooks ++ tests.map (r.test (level + 1)) ++
        r.suites (level + 1) suites)).text) (d ++ e) := by
    have hbreak := @StandsFor.layout r.target ['\n'] rfl
    have hindent := @StandsFor.layout r.target _ (r.style.isLayout_indentation level)
    simpa [bodyText] using (hbreak.append hinner).append hindent
  have htext : (r.suite level ⟨title, tests, hooks, suites, []⟩).text =
      (r.line level (suiteHead r.target ++ r.style.literal title ++ ", () => \x7b")).text ++
        (Draft.separated (r.hooks (level + 1) hooks ++ tests.map (r.test (level + 1)) ++
          r.suites (level + 1) suites)).text ++ (r.closeBlock level).text := by
    rw [Route.suite]
    rfl
  refine ⟨_, htext ▸ hblock, rfl, ?_, ?_, rfl, ?_⟩
  · intro kind
    cases kind <;> rfl
  · simp only [declared, hbody.ofSource_eq, Suite.outlines, hsum.outline_eq]
  · simp only [declared, hbody.ofSource_eq, hsum.unterminated]

theorem suites_standFor (r : Route) (level : Nat) (suites : List Suite)
    (h : r.areWholeSuites level suites = true) :
    ∃ d, StandFor r.target (r.suites level suites) d ∧
      Shows d [] (fun _ => 0) (Suite.outlines suites) := by
  match suites with
  | [] => exact ⟨{}, by rw [Route.suites]; exact .nil, .empty⟩
  | s :: rest =>
    rw [areWholeSuites, Bool.and_eq_true] at h
    obtain ⟨d, hd, hshow⟩ := suite_standsFor r level s h.1
    obtain ⟨e, he, hshow'⟩ := suites_standFor r level rest h.2
    refine ⟨d ++ e, ?_, ?_⟩
    · rw [Route.suites]
      exact .cons hd he
    · rw [Suite.outlines]
      exact hshow.append hshow'

end

theorem declarations_standsFor {d : Document} (h : r.isWhole d = true) :
    ∃ e, StandsFor r.target (r.declarations d).text e ∧
      Shows e (d.tests.map TestCase.title) (fun kind => (d.hooks.get kind).length)
        (Suite.outlines d.suites) := by
  rw [isWhole, Bool.and_eq_true] at h
  obtain ⟨hp, e, he, hshow⟩ := r.scope_standFor h.1
  obtain ⟨e', he', hshow'⟩ := suites_standFor r 0 d.suites h.2
  have hall := (he.append he').terminated
  have hsum := hshow.append hshow'
  simp only [List.append_nil, List.nil_append, Nat.add_zero] at hsum
  refine ⟨e ++ e', ?_, hsum⟩
  rw [Route.declarations, hp]
  simpa using hall

/-! ## 6. The header -/

theorem ofGap_headerPiece {f : Framework} {line : Text} (hline : IsPiece line)
    (hkept : (splitStatements line).filter (fun s => !Slot.preamble.occursIn f s) = []) (t : Text) :
    ofGap f (line ++ '\n' :: t) = ofGap f t := by
  have hnil : ofGap f line = {} := by rw [ofGap, hkept]
  rw [hline.ofGap_append, hnil, empty_append]

theorem ofGap_headerComment {f : Framework} {x : Text} (hx : x.all (· ≠ '\n') = true)
    (hkept : (statement ('/' :: '/' :: x)).filter (fun s => !Slot.preamble.occursIn f s) = [])
    (t : Text) : ofGap f ('/' :: '/' :: x ++ '\n' :: t) = ofGap f t := by
  rw [ofGap, splitStatements_comment hx, List.filter_append, hkept, List.nil_append]
  rfl

/-- The header depends on no more than the target and the quotes of the style. -/
theorem headerLine_eq : r.headerLine = headerLine ⟨.cypress, r.target, { quote := r.style.quote }⟩ :=
  rfl

/-- The header is the vocabulary's own and leaves no trace in the tree. -/
theorem ofSource_headerLine {t : Text} {d : Document} (ht : StandsFor r.target t d) :
    ofSource r.target (r.headerLine ++ '\n' :: t) = d := by
  rw [headerLine_eq]
  generalize r.target = target at ht
  generalize r.style.quote = quote
  cases target with
  | cypress =>
    refine ofSource_header (by cases quote <;> decide) (by cases quote <;> decide) (fun t => ?_) ht
    exact @ofGap_headerComment .cypress "/ <reference types=\"cypress\" />" (by decide) (by decide) t
  | playwright =>
    cases quote <;>
      exact ofSource_header (by decide) (by decide) (ofGap_headerPiece (by decide) (by decide)) ht
  | testRail =>
    cases quote <;>
      exact ofSource_header (by decide) (by decide) (ofGap_headerPiece (by decide) (by decide)) ht

theorem document_text (d : Document) :
    (r.document d).text = (if r.style.header then r.headerLine ++ ['\n', '\n'] else []) ++
      (r.declarations d).text := by
  rw [document, Draft.text_append, header]
  split
  · simp [line, Style.indentation, Draft.blankLine]
  · rfl

end Route

/-! ## 7. The round trip -/

/-- The tree read from a written document has the outline of the document, and all its blocks are
closed. -/
theorem outline_document (r : Route) {d : Document} (h : r.isWhole d = true) :
    (ofSource r.target (r.document d).text).outline = d.outline ∧
      (ofSource r.target (r.document d).text).passthrough = [] ∧
      (ofSource r.target (r.document d).text).unterminated = [] := by
  obtain ⟨e, he, hshow⟩ := r.declarations_standsFor h
  have hread : ofSource r.target (r.document d).text = e := by
    rw [r.document_text]
    split
    -- behind the header and its empty line
    · have hbreak := (@StandsFor.layout r.target ['\n'] rfl).append he
      rw [List.append_assoc]
      exact r.ofSource_headerLine hbreak
    · exact he.ofSource_eq
  have hkept : d.passthrough = [] := by
    rw [Route.isWhole, Bool.and_eq_true] at h
    exact (r.scope_standFor h.1).1
  refine hread ▸ ⟨?_, hshow.passthrough, hshow.unterminated⟩
  rw [outline, outline, hshow.outline_eq, toSuite, hkept]

/-- A document with titles that look like code, with hooks and suites inside suites. -/
def Document.tangled : Document where
  suites := [⟨"it's\n\"(\"", [⟨"describe('x', () => \x7b", "cy.get('.a').click();", []⟩],
    { beforeEach := ["cy.visit('/');"] }, [⟨"\\", [], { afterAll := [[]] }, [], []⟩], []⟩]
  tests := [⟨"*/", "// done", []⟩]

theorem outline_document_tangled :
    Route.isWhole ⟨.cypress, .playwright, {}⟩ tangled = true ∧
      (ofSource .playwright (Route.document ⟨.cypress, .playwright, {}⟩ tangled).text).outline =
        tangled.outline :=
  ⟨by decide +kernel, (outline_document ⟨.cypress, .playwright, {}⟩ (by decide +kernel)).1⟩

end Parlance
