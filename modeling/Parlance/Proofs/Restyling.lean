import Mathlib.Data.List.Forall2
import Parlance.Draft.Document
import Parlance.Proofs.Style
import Parlance.Proofs.Text

/-!
What a style changes and what it leaves alone. Two drafts of the same thing in two styles carry the
same advisories; with the same quotes they agree line by line up to indentation; with the same quotes
and the same indentation they are the same text. The relation is kept by putting drafts one after
another, so it is proved once for a line and carried through the writing of steps, tests, hooks and
suites.
-/

namespace Parlance

/-! ## 1. Lines up to indentation -/

namespace Text

/-- The lines of a text, each without its leading blanks. -/
def rows (t : Text) : List Text := (lines t).map trimStart

/-- Whether every line of a text is ended. -/
def IsEnded (t : Text) : Prop := t = [] ∨ ∃ s, t = s ++ ['\n']

theorem IsEnded.append {a b : Text} (ha : IsEnded a) (hb : IsEnded b) : IsEnded (a ++ b) := by
  rcases hb with rfl | ⟨s, rfl⟩
  · rwa [List.append_nil]
  · exact .inr ⟨a ++ s, by rw [List.append_assoc]⟩

theorem linesFrom_ended (line a b : Text) :
    linesFrom line (a ++ '\n' :: b) = linesFrom line (a ++ ['\n']) ++ linesFrom [] b := by
  -- a line feed ends the line that is read, so what is behind it is read from a new line
  induction a generalizing line with
  | nil => rfl
  | cons c a ih =>
    simp only [List.cons_append, linesFrom]
    by_cases hc : c = '\n'
    · rw [if_pos hc, if_pos hc, ih, List.cons_append]
    · rw [if_neg hc, if_neg hc, ih]

theorem rows_append {a : Text} (ha : IsEnded a) (b : Text) : rows (a ++ b) = rows a ++ rows b := by
  rcases ha with rfl | ⟨s, rfl⟩
  · rfl
  · rw [rows, lines, List.append_assoc, List.singleton_append, linesFrom_ended, List.map_append]
    rfl

/-- Whether a character is used to indent. -/
def isIndentation (c : Char) : Bool := c = ' ' || c = '\t'

theorem trimStart_indented {w : Text} (hw : w.all isIndentation = true) (t : Text) :
    trimStart (w ++ t) = trimStart t := by
  have hblank : ∀ c ∈ w, isBlank c = true := by
    intro c hc
    have hi := List.all_eq_true.1 hw c hc
    simp only [isIndentation, Bool.or_eq_true, decide_eq_true_eq] at hi
    rcases hi with rfl | rfl <;> rfl
  exact List.dropWhile_append_of_pos hblank

theorem trimStart_endedLine {w : Text} (hw : w.all isIndentation = true) (line : Text) :
    trimStart (endedLine (line ++ w.reverse)) = trimStart (endedLine line) := by
  cases line with
  | nil =>
    -- indentation holds no carriage return, so nothing of it is dropped with the line feed
    have hended : endedLine w.reverse = w := by
      cases h : w.reverse with
      | nil => rw [List.reverse_eq_nil_iff.1 h]; rfl
      | cons c rest =>
        have hc : isIndentation c = true :=
          List.all_eq_true.1 hw c (List.mem_reverse.1 (h ▸ List.mem_cons_self))
        have hne : c ≠ '\r' := by rintro rfl; exact absurd hc (by decide)
        rw [endedLine, ← h, List.reverse_reverse]
        intro line heq
        exact hne (List.cons.inj heq).1
    rw [List.nil_append, hended]
    simpa [endedLine, trimStart] using trimStart_indented hw []
  | cons c line =>
    by_cases hc : c = '\r'
    · subst hc
      simp only [List.cons_append, endedLine, List.reverse_append, List.reverse_reverse]
      exact trimStart_indented hw _
    · have hline (l : Text) : endedLine (c :: l) = (c :: l).reverse := by
        rw [endedLine]
        intro l' h
        exact hc (List.cons.inj h).1
      rw [List.cons_append, hline, hline, ← List.cons_append, List.reverse_append,
        List.reverse_reverse]
      exact trimStart_indented hw _

theorem rows_linesFrom_indented {w : Text} (hw : w.all isIndentation = true)
    (line code rest : Text) :
    (linesFrom (line ++ w.reverse) (code ++ '\n' :: rest)).map trimStart =
      (linesFrom line (code ++ '\n' :: rest)).map trimStart := by
  induction code generalizing line with
  | nil =>
    simp only [List.nil_append, linesFrom, if_true, List.map_cons]
    rw [trimStart_endedLine hw]
  | cons c code ih =>
    simp only [List.cons_append, linesFrom]
    by_cases hc : c = '\n'
    · rw [if_pos hc, if_pos hc, List.map_cons, List.map_cons, trimStart_endedLine hw]
    · rw [if_neg hc, if_neg hc]
      exact ih (c :: line)

theorem linesFrom_indentation {w : Text} (hw : w.all isIndentation = true) (line t : Text) :
    linesFrom line (w ++ t) = linesFrom (w.reverse ++ line) t := by
  induction w generalizing line with
  | nil => rfl
  | cons c w ih =>
    rw [List.all_cons, Bool.and_eq_true] at hw
    have hc : c ≠ '\n' := by rintro rfl; exact absurd hw.1 (by decide)
    rw [List.cons_append, linesFrom, if_neg hc, ih hw.2, List.reverse_cons, List.append_assoc]
    rfl

/-- Indentation does not count for the rows of a line of code. -/
theorem rows_indented {w : Text} (hw : w.all isIndentation = true) (code : Text) :
    rows (w ++ code ++ ['\n']) = rows (code ++ ['\n']) := by
  rw [rows, lines, List.append_assoc, linesFrom_indentation hw, List.append_nil]
  exact rows_linesFrom_indented hw [] code []

end Text

/-! ## 2. Drafts in two styles -/

/-- Two drafts that differ only by the styles they are written in. -/
structure Draft.Agrees (s s' : Style) (a b : Draft) : Prop where
  advisories : a.advisories = b.advisories
  endedLeft : a.text.IsEnded
  endedRight : b.text.IsEnded
  rows : s.quote = s'.quote → a.text.rows = b.text.rows
  text : s.quote = s'.quote → s.indent = s'.indent → a.text = b.text

namespace Draft.Agrees

variable {s s' : Style}

/-- A draft that no style was used for agrees with itself. -/
theorem unstyled {a : Draft} (h : a.text.IsEnded) : Agrees s s' a a :=
  ⟨rfl, h, h, fun _ => rfl, fun _ _ => rfl⟩

theorem empty : Agrees s s' {} {} := unstyled (.inl rfl)

/-- Whether an advisory is raised is not asked of the style. -/
theorem raised {a : Draft} (ha : a.text = []) (c : Prop) [Decidable c] :
    Agrees s s' (if c then a else {}) (if c then a else {}) := by
  apply unstyled
  by_cases hc : c
  · rw [if_pos hc]
    exact .inl ha
  · rw [if_neg hc]
    exact .inl rfl

theorem advice (message : Text) : Agrees s s' (.advice message) (.advice message) :=
  unstyled (.inl rfl)

theorem blankLine : Agrees s s' .blankLine .blankLine := unstyled (.inr ⟨[], rfl⟩)

theorem append {a a' b b' : Draft} (ha : Agrees s s' a a') (hb : Agrees s s' b b') :
    Agrees s s' (a ++ b) (a' ++ b') where
  advisories := by
    change Advisory.merge a.advisories b.advisories = Advisory.merge a'.advisories b'.advisories
    rw [ha.advisories, hb.advisories]
  endedLeft := ha.endedLeft.append hb.endedLeft
  endedRight := ha.endedRight.append hb.endedRight
  rows hq := by
    rw [text_append, text_append, Text.rows_append ha.endedLeft, Text.rows_append ha.endedRight,
      ha.rows hq, hb.rows hq]
  text hq hi := by rw [text_append, text_append, ha.text hq hi, hb.text hq hi]

theorem concat {drafts drafts' : List Draft} (h : List.Forall₂ (Agrees s s') drafts drafts') :
    Agrees s s' (.concat drafts) (.concat drafts') := by
  induction h with
  | nil => exact empty
  | cons ha _ ih => exact ha.append ih

theorem separated {drafts drafts' : List Draft} (h : List.Forall₂ (Agrees s s') drafts drafts') :
    Agrees s s' (.separated drafts) (.separated drafts') := by
  apply concat
  induction h with
  | nil => exact .nil
  | cons ha htail ih =>
    cases htail with
    | nil => exact .cons ha .nil
    | cons hb hrest => exact .cons ha (.cons blankLine ih)

theorem concatMap {α : Type} {f g : α → Draft} {l : List α} (h : ∀ x, Agrees s s' (f x) (g x)) :
    Agrees s s' (.concat (l.map f)) (.concat (l.map g)) := by
  apply concat
  rw [List.forall₂_map_left_iff, List.forall₂_map_right_iff]
  exact List.forall₂_same.2 fun x _ => h x

end Draft.Agrees

/-! ## 3. What depends on the quotes only -/

namespace Style

theorem literal_congr {s s' : Style} (h : s.quote = s'.quote) : s.literal = s'.literal := by
  funext t
  rw [literal, literal, h]

theorem requote_congr {s s' : Style} (h : s.quote = s'.quote) : s.requote = s'.requote := by
  funext t
  rw [requote, requote, literal_congr h]

end Style

namespace Route

/-- The same conversion in another style. -/
def restyled (r : Route) (s : Style) : Route := { r with style := s }

variable (r : Route) (s : Style)

@[simp] theorem restyled_source : (r.restyled s).source = r.source := rfl
@[simp] theorem restyled_target : (r.restyled s).target = r.target := rfl
@[simp] theorem restyled_style : (r.restyled s).style = s := rfl

variable {r s}

section Quotes

variable (h : r.style.quote = s.quote)
include h

theorem arguments_restyled : (r.restyled s).arguments = r.arguments := by
  funext args
  rw [arguments, arguments, restyled_style, Style.requote_congr h]

theorem cypressQuery_restyled : (r.restyled s).cypressQuery = r.cypressQuery := by
  funext isFirst q
  simp only [cypressQuery, restyled_style, arguments_restyled h, Style.requote_congr h,
    Style.literal_congr h]

theorem cypressLocator_restyled : (r.restyled s).cypressLocator = r.cypressLocator := by
  funext queries
  cases queries with
  | nil => rfl
  | cons q rest => rw [cypressLocator, cypressLocator, cypressQuery_restyled h]

theorem playwrightLocator_restyled : (r.restyled s).playwrightLocator = r.playwrightLocator := by
  have hquery : (r.restyled s).playwrightQuery = r.playwrightQuery := by
    funext q
    rw [playwrightQuery, playwrightQuery, arguments_restyled h]
  funext queries
  rw [playwrightLocator, playwrightLocator, hquery]

theorem check_restyled (a : Assertion) (e : Expectation) : (r.restyled s).check a e = r.check a e := by
  rw [check, check, restyled_target]
  cases r.target with
  | cypress =>
    simp only [cypressCheck, restyled_style, arguments_restyled h, cypressLocator_restyled h,
      Style.literal_congr h]
  | playwright =>
    simp only [playwrightCheck, matcherArguments, arguments_restyled h,
      playwrightLocator_restyled h]
  | testRail => rw [restyled_style, Style.literal_congr h]

theorem codeAction_restyled (queries : List Query) (action : Action) (command : Command) :
    (r.restyled s).codeAction queries action command = r.codeAction queries action command := by
  simp only [codeAction, restyled_target, arguments_restyled h, cypressLocator_restyled h,
    playwrightLocator_restyled h]

end Quotes

/-! ## 4. Whether something can be said does not depend on the style -/

/-- Whether a value is there does not depend on the values that it is made of. -/
theorem isSome_bind_congr {α β : Type} {x y : Option α} {f g : α → Option β}
    (h : x.isSome = y.isSome) (hf : ∀ a b, (f a).isSome = (g b).isSome) :
    (x >>= f).isSome = (y >>= g).isSome := by
  cases x <;> cases y
  · rfl
  · simp at h
  · simp at h
  · exact hf _ _

theorem isSome_cypressQuery (isFirst : Bool) (q : Query) :
    ((r.restyled s).cypressQuery isFirst q).isSome = (r.cypressQuery isFirst q).isSome := by
  unfold cypressQuery
  cases q.action with
  | locateTestId => exact isSome_bind_congr rfl fun _ _ => rfl
  | _ => rfl

theorem isSome_mapM_cypressQuery (isFirst : Bool) (queries : List Query) :
    (queries.mapM ((r.restyled s).cypressQuery isFirst)).isSome =
      (queries.mapM (r.cypressQuery isFirst)).isSome := by
  induction queries with
  | nil => rfl
  | cons q rest ih =>
    rw [List.mapM_cons, List.mapM_cons]
    apply isSome_bind_congr (isSome_cypressQuery isFirst q)
    intro _ _
    exact isSome_bind_congr ih fun _ _ => rfl

theorem isSome_cypressLocator (queries : List Query) :
    ((r.restyled s).cypressLocator queries).isSome = (r.cypressLocator queries).isSome := by
  cases queries with
  | nil => rfl
  | cons q rest =>
    apply isSome_bind_congr (isSome_cypressQuery true q)
    intro _ _
    exact isSome_bind_congr (isSome_mapM_cypressQuery false rest) fun _ _ => rfl

theorem isSome_cypressCheck (a : Assertion) (e : Expectation) :
    ((r.restyled s).cypressCheck a e).isSome = (r.cypressCheck a e).isSome := by
  have hargs : (a.argument.map (r.restyled s).arguments).isSome =
      (a.argument.map r.arguments).isSome := by
    rw [Option.isSome_map, Option.isSome_map]
  -- every form of a check is a chain of binds whose values alone are styled
  unfold cypressCheck
  cases a.subject with
  | page =>
    cases e with
    | haveUrl => exact isSome_bind_congr hargs fun _ _ => rfl
    | haveTitle => exact isSome_bind_congr hargs fun _ _ => rfl
    | _ => rfl
  | element queries =>
    apply isSome_bind_congr (isSome_cypressLocator queries)
    intro _ _
    exact isSome_bind_congr rfl fun _ _ => rfl
  | value expr => exact isSome_bind_congr rfl fun _ _ => rfl

theorem isSome_playwrightCheck (a : Assertion) (e : Expectation) :
    ((r.restyled s).playwrightCheck a e).isSome = (r.playwrightCheck a e).isSome := by
  apply isSome_bind_congr rfl
  intro _ _
  cases a.subject <;> rfl

theorem isSome_check (a : Assertion) (e : Expectation) :
    ((r.restyled s).check a e).isSome = (r.check a e).isSome := by
  rw [check, check, restyled_target]
  cases r.target with
  | cypress => exact isSome_cypressCheck a e
  | playwright => exact isSome_playwrightCheck a e
  | testRail => rfl

theorem isSome_codeAction (queries : List Query) (action : Action) (command : Command) :
    ((r.restyled s).codeAction queries action command).isSome =
      (r.codeAction queries action command).isSome := by
  apply isSome_bind_congr rfl
  intro _ _
  rw [restyled_target]
  cases r.target with
  | cypress =>
    by_cases hpage : action.kind = .page
    · simp [hpage]
    · simpa [hpage] using isSome_cypressLocator queries
  | playwright => rfl
  | testRail => rfl

/-! ## 5. Lines, blocks and steps without an equivalent -/

/-- A line agrees with the line of the same code, or of code that differs by its quotes. -/
theorem agrees_line (level : Nat) {code code' : Text} (h : r.style.quote = s.quote → code = code') :
    Draft.Agrees r.style s (r.line level code) ((r.restyled s).line level code') where
  advisories := rfl
  endedLeft := .inr ⟨_, rfl⟩
  endedRight := .inr ⟨_, rfl⟩
  rows hq := by
    have hw := r.style.all_indentation (p := Text.isIndentation) rfl rfl level
    have hw' := s.all_indentation (p := Text.isIndentation) rfl rfl level
    change Text.rows (r.style.indentation level ++ code ++ ['\n']) =
      Text.rows (s.indentation level ++ code' ++ ['\n'])
    rw [Text.rows_indented hw, Text.rows_indented hw', h hq]
  text hq hi := by
    rw [line, line, restyled_style, Style.indentation, Style.indentation, hi, h hq]

theorem agrees_block (level : Nat) (code : Text) :
    Draft.Agrees r.style s (r.block level code) ((r.restyled s).block level code) := by
  unfold block
  cases Text.lines code with
  | nil => exact agrees_line level fun _ => rfl
  | cons first rest =>
    apply (agrees_line level fun _ => rfl).append
    apply Draft.Agrees.concatMap
    intro l
    by_cases hl : Text.allBlank l = true
    · rw [if_pos hl, if_pos hl]
      exact .blankLine
    · rw [if_neg hl, if_neg hl]
      exact agrees_line level fun _ => rfl

theorem agrees_verbatim (level : Nat) (code : Text) :
    Draft.Agrees r.style s (r.verbatim level code) ((r.restyled s).verbatim level code) :=
  agrees_block level _

theorem agrees_openStep (level : Nat) (title : Text) :
    Draft.Agrees r.style s (r.openStep level title) ((r.restyled s).openStep level title) := by
  apply agrees_line
  intro hq
  rw [restyled_style, Style.literal_congr hq]

theorem agrees_closeBlock (level : Nat) :
    Draft.Agrees r.style s (r.closeBlock level) ((r.restyled s).closeBlock level) :=
  agrees_line level fun _ => rfl

theorem agrees_commentStep (level : Nat) (title comment : Text) :
    Draft.Agrees r.style s (r.commentStep level title comment)
      ((r.restyled s).commentStep level title comment) :=
  ((agrees_openStep level title).append (agrees_line _ fun _ => rfl)).append
    (agrees_closeBlock level)

theorem agrees_fallback (level : Nat) (call : Text) :
    Draft.Agrees r.style s (r.fallback level call) ((r.restyled s).fallback level call) := by
  rw [fallback, fallback, restyled_target]
  cases r.target with
  | testRail => exact agrees_commentStep level performAction call
  | cypress => exact agrees_line level fun _ => rfl
  | playwright => exact agrees_line level fun _ => rfl

/-! ## 6. Steps -/

/-- Of two texts that can be said in the same cases, both are there or neither is. -/
theorem said_cases {x y : Option Text} (h : y.isSome = x.isSome) :
    (x = none ∧ y = none) ∨ ∃ code code', x = some code ∧ y = some code' := by
  cases x <;> cases y
  · exact .inl ⟨rfl, rfl⟩
  · simp at h
  · simp at h
  · exact .inr ⟨_, _, rfl, rfl⟩

theorem agrees_noEquivalent (level : Nat) (name call : Text) :
    Draft.Agrees r.style s (r.noEquivalent name ++ r.fallback level call)
      ((r.restyled s).noEquivalent name ++ (r.restyled s).fallback level call) :=
  (Draft.Agrees.advice _).append (agrees_fallback level call)

theorem agrees_verify (level : Nat) (a : Assertion) :
    Draft.Agrees r.style s (r.verify level a) ((r.restyled s).verify level a) := by
  unfold verify
  cases a.expectation with
  | unrecognized verb => exact (Draft.Agrees.advice _).append (agrees_fallback level a.source)
  | known e =>
    rcases said_cases (isSome_check (r := r) (s := s) a e) with ⟨h, h'⟩ | ⟨code, code', h, h'⟩
    · simp only [h, h']
      exact agrees_noEquivalent level _ _
    · simp only [h, h']
      apply agrees_line
      intro hq
      exact Option.some.inj (by rw [← h, ← h', check_restyled hq])

theorem agrees_command (level : Nat) (queries : List Query) (c : Command) :
    Draft.Agrees r.style s (r.command level queries c) ((r.restyled s).command level queries c) := by
  unfold command
  cases c.action with
  | unrecognized name => exact (Draft.Agrees.advice _).append (agrees_fallback level _)
  | known action =>
    by_cases hstep : r.target.isStepBased = true
    · simp only [restyled_target, hstep, if_true]
      exact agrees_commentStep level _ _
    · simp only [restyled_target, hstep, Bool.false_eq_true, if_false]
      rcases said_cases (isSome_codeAction (r := r) (s := s) queries action c) with
        ⟨h, h'⟩ | ⟨code, code', h, h'⟩
      · simp only [h, h']
        exact agrees_noEquivalent level _ _
      · simp only [h, h']
        apply agrees_line
        intro hq
        exact Option.some.inj (by rw [← h, ← h', codeAction_restyled hq])

theorem agrees_locate (level : Nat) (queries : List Query) :
    Draft.Agrees r.style s (r.locate level queries) ((r.restyled s).locate level queries) := by
  unfold locate
  rw [restyled_target]
  cases r.target with
  | cypress =>
    rcases said_cases (isSome_cypressLocator (r := r) (s := s) queries) with
      ⟨h, h'⟩ | ⟨locator, locator', h, h'⟩
    · simp only [h, h']
      exact agrees_noEquivalent level _ _
    · simp only [h, h']
      apply agrees_line
      intro hq
      have hlocator : locator = locator' :=
        Option.some.inj (by rw [← h, ← h', cypressLocator_restyled hq])
      rw [hlocator]
  | playwright =>
    apply agrees_line
    intro hq
    rw [playwrightLocator_restyled hq]
  | testRail => exact agrees_commentStep level _ _

theorem agrees_commands (level : Nat) (queries : List Query) (chain : List Command) :
    Draft.Agrees r.style s (r.commands level queries chain)
      ((r.restyled s).commands level queries chain) := by
  induction chain generalizing queries with
  | nil => exact .empty
  | cons c rest ih =>
    unfold commands
    cases c.query? with
    | some query => exact ih _
    | none => exact (agrees_command level queries c).append (ih queries)

theorem agrees_raw (level : Nat) (code : Text) :
    Draft.Agrees r.style s (r.raw level code) ((r.restyled s).raw level code) := by
  unfold raw
  rw [restyled_target, restyled_source]
  by_cases hc : isComment code = true
  · rw [if_pos hc, if_pos hc]
    exact agrees_verbatim level code
  · rw [if_neg hc, if_neg hc]
    apply (Draft.Agrees.raised rfl _).append
    by_cases hs : r.target.isStepBased = true
    · rw [if_pos hs, if_pos hs]
      exact ((agrees_openStep level _).append (agrees_block _ code)).append
        (agrees_closeBlock level)
    · rw [if_neg hs, if_neg hs]
      exact agrees_verbatim level code

theorem agrees_step (level : Nat) (step : Step) :
    Draft.Agrees r.style s (r.step level step) ((r.restyled s).step level step) := by
  cases step with
  | chain commands =>
    unfold Route.step chain
    by_cases h : (commands.all (fun c => c.query?.isSome) &&
        !(commands.filterMap Command.query?).isEmpty) = true
    · simp only [h, if_true]
      exact agrees_locate level _
    · simp only [h, Bool.false_eq_true, if_false]
      exact agrees_commands level [] commands
  | verify a => exact agrees_verify level a
  | raw code => exact agrees_raw level code

theorem agrees_steps (level : Nat) (steps : List Step) :
    Draft.Agrees r.style s (r.steps level steps) ((r.restyled s).steps level steps) :=
  .concatMap fun step => agrees_step level step

/-! ## 7. Documents -/

theorem agrees_hook (level : Nat) (kind : HookKind) (body : Text) :
    Draft.Agrees r.style s (r.hook level kind body) ((r.restyled s).hook level kind body) := by
  unfold hook
  rw [restyled_target, restyled_source]
  exact (((agrees_line level fun _ => rfl).append (.raised rfl _)).append (agrees_steps _ _)).append
    (agrees_closeBlock level)

theorem agrees_titledBody (level : Nat) (test : TestCase) :
    Draft.Agrees r.style s (r.titledBody level test) ((r.restyled s).titledBody level test) :=
  (agrees_steps level _).append (.concatMap fun a => agrees_verify level a)

theorem agrees_test (level : Nat) (test : TestCase) :
    Draft.Agrees r.style s (r.test level test) ((r.restyled s).test level test) := by
  unfold Route.test
  rw [restyled_target, restyled_source]
  apply ((agrees_line level ?_).append ?_).append (agrees_closeBlock level)
  · intro hq
    rw [restyled_style, Style.literal_congr hq]
  · by_cases hs : r.target.isStepBased = true
    · rw [if_pos hs, if_pos hs]
      exact agrees_titledBody _ test
    · rw [if_neg hs, if_neg hs]
      exact agrees_steps _ _

theorem agrees_keptStatement (level : Nat) (code : Text) :
    Draft.Agrees r.style s (r.keptStatement level code)
      ((r.restyled s).keptStatement level code) := by
  unfold keptStatement
  rw [restyled_source]
  apply (Draft.Agrees.unstyled ?_).append (agrees_verbatim level code)
  -- each of the four cases writes no text
  split
  · exact .inl rfl
  · split
    · exact .inl rfl
    · split <;> exact .inl rfl

/-- The kept statements of a scope, which are one draft or none. -/
theorem agrees_kept (level : Nat) (statements : List Text) :
    List.Forall₂ (Draft.Agrees r.style s)
      (if statements.isEmpty then [] else [r.keptStatements level statements])
      (if statements.isEmpty then [] else [(r.restyled s).keptStatements level statements]) := by
  by_cases h : statements.isEmpty = true
  · rw [if_pos h, if_pos h]
    exact .nil
  · rw [if_neg h, if_neg h]
    exact .cons (.concatMap fun code => agrees_keptStatement level code) .nil

theorem agrees_hooks (level : Nat) (hooks : Hooks) :
    List.Forall₂ (Draft.Agrees r.style s) (r.hooks level hooks)
      ((r.restyled s).hooks level hooks) := by
  -- kind by kind, and for each kind hook by hook
  unfold Route.hooks
  induction HookKind.all with
  | nil => exact .nil
  | cons kind kinds ih =>
    rw [List.flatMap_cons, List.flatMap_cons]
    apply List.rel_append ?_ ih
    rw [List.forall₂_map_left_iff, List.forall₂_map_right_iff]
    exact List.forall₂_same.2 fun body _ => agrees_hook level kind body

theorem agrees_tests (level : Nat) (tests : List TestCase) :
    List.Forall₂ (Draft.Agrees r.style s) (tests.map (r.test level))
      (tests.map ((r.restyled s).test level)) := by
  rw [List.forall₂_map_left_iff, List.forall₂_map_right_iff]
  exact List.forall₂_same.2 fun test _ => agrees_test level test

mutual

theorem agrees_suite (level : Nat) :
    ∀ suite : Suite, Draft.Agrees r.style s (r.suite level suite) ((r.restyled s).suite level suite)
  | ⟨title, tests, hooks, suites, passthrough⟩ => by
    unfold Route.suite
    rw [restyled_target]
    apply ((agrees_line level ?_).append (Draft.Agrees.separated ?_)).append
      (agrees_closeBlock level)
    · intro hq
      rw [restyled_style, Style.literal_congr hq]
    · exact List.rel_append
        (List.rel_append (List.rel_append (agrees_kept _ passthrough) (agrees_hooks _ hooks))
          (agrees_tests _ tests))
        (agrees_suites (level + 1) suites)

theorem agrees_suites (level : Nat) :
    ∀ suites : List Suite,
      List.Forall₂ (Draft.Agrees r.style s) (r.suites level suites)
        ((r.restyled s).suites level suites)
  | [] => .nil
  | suite :: rest => .cons (agrees_suite level suite) (agrees_suites level rest)

end

theorem agrees_declarations (d : Document) :
    Draft.Agrees r.style s (r.declarations d) ((r.restyled s).declarations d) := by
  apply Draft.Agrees.concat
  have hparts := List.rel_append
    (List.rel_append
      (List.rel_append (agrees_kept (r := r) (s := s) 0 d.passthrough) (agrees_hooks 0 d.hooks))
      (agrees_tests 0 d.tests))
    (agrees_suites 0 d.suites)
  rw [List.forall₂_map_left_iff, List.forall₂_map_right_iff]
  exact hparts.imp fun _ _ h => h.append .blankLine

theorem agrees_document (h : r.style.header = s.header) (d : Document) :
    Draft.Agrees r.style s (r.document d) ((r.restyled s).document d) := by
  apply Draft.Agrees.append ?_ (agrees_declarations d)
  unfold header
  rw [restyled_style, ← h]
  by_cases hh : r.style.header = true
  · rw [if_pos hh, if_pos hh]
    apply (agrees_line 0 ?_).append .blankLine
    intro hq
    rw [headerLine, headerLine, restyled_target, restyled_style, Style.literal_congr hq]
  · rw [if_neg hh, if_neg hh]
    exact .empty

theorem agrees_snippet (code : Text) :
    Draft.Agrees r.style s (r.snippet code) ((r.restyled s).snippet code) :=
  agrees_steps 0 _

/-- The header raises nothing, so all advisories come from the declarations. -/
theorem advisories_document (r : Route) (d : Document) :
    (r.document d).advisories = Advisory.merge [] (r.declarations d).advisories := by
  have hheader : r.header.advisories = [] := by
    unfold header
    split <;> rfl
  change Advisory.merge r.header.advisories (r.declarations d).advisories = _
  rw [hheader]

theorem text_document_header (r : Route) (d : Document) (h : r.style.header = true) :
    (r.document d).text = r.headerLine ++ ['\n', '\n'] ++ (r.declarations d).text := by
  have hheader : r.header.text = r.headerLine ++ ['\n', '\n'] := by
    unfold header
    rw [if_pos h]
    change [] ++ r.headerLine ++ ['\n'] ++ ['\n'] = _
    rw [List.nil_append, List.append_assoc]
    rfl
  rw [document, Draft.text_append, hheader]

theorem text_document_plain (r : Route) (d : Document) (h : r.style.header = false) :
    (r.document d).text = (r.declarations d).text := by
  unfold document header
  rw [h]
  rfl

theorem newline_notMem_headerLine (r : Route) : '\n' ∉ r.headerLine := by
  rw [headerLine, Style.literal, Style.literal]
  cases r.target <;> cases r.style.quote <;> decide

/-- Style never changes substance. In every style the same advisories are raised; a change of the
indentation keeps the lines and what stands in them after their leading blanks; and a header is one
line and an empty line before the text without it. -/
theorem style_keeps_substance (r : Route) (s : Style) :
    (∀ s' : Style,
      (∀ d, ((r.restyled s).document d).advisories = ((r.restyled s').document d).advisories) ∧
      ∀ code, ((r.restyled s).snippet code).advisories =
        ((r.restyled s').snippet code).advisories) ∧
    (∀ indent : Indent,
      (∀ d, ((r.restyled s).document d).text.rows =
        ((r.restyled { s with indent := indent }).document d).text.rows) ∧
      ∀ code, ((r.restyled s).snippet code).text.rows =
        ((r.restyled { s with indent := indent }).snippet code).text.rows) ∧
    '\n' ∉ (r.restyled s).headerLine ∧
    ∀ d, ((r.restyled { s with header := true }).document d).text =
      (r.restyled s).headerLine ++ ['\n', '\n'] ++
        ((r.restyled { s with header := false }).document d).text := by
  refine ⟨fun s' => ⟨fun d => ?_, fun code => ?_⟩, fun indent => ⟨fun d => ?_, fun code => ?_⟩,
    newline_notMem_headerLine _, fun d => ?_⟩
  · rw [advisories_document, advisories_document,
      (agrees_declarations (r := r.restyled s) (s := s') d).advisories]
    rfl
  · exact (agrees_snippet (r := r.restyled s) (s := s') code).advisories
  · exact (agrees_document (r := r.restyled s) (s := { s with indent := indent }) rfl d).rows rfl
  · exact (agrees_snippet (r := r.restyled s) (s := { s with indent := indent }) code).rows rfl
  -- the header stands in front of declarations that it has no part in
  · have hsame := (agrees_declarations (r := r.restyled { s with header := true })
      (s := { s with header := false }) d).text rfl rfl
    rw [text_document_header _ d rfl, text_document_plain _ d rfl, hsame]
    rfl

end Route

end Parlance
