import Parlance.Declaration.Slot
import Parlance.Proofs.ChainReading
import Parlance.Proofs.Items
import Parlance.Proofs.Pattern

/-!
Where a statement announces a check: the texts in which the assertion pattern of a code vocabulary
occurs, in terms of what stands next to what.
-/

namespace Parlance

namespace Pattern

/-! ## 1. Matches, whatever they keep -/

/-- A pattern takes the text `s` between the character `last` and the text `rest`, whatever it
keeps. -/
def Matches (pattern : Pattern) (last : Option Char) (s rest : Text) : Prop :=
  ∃ kept, pattern.Takes last s rest kept

section Matches

variable {last : Option Char} {s rest : Text}

theorem matches_append {p q : Pattern} :
    (p ++ q).Matches last s rest ↔
      ∃ s₁ s₂, s = s₁ ++ s₂ ∧ p.Matches last s₁ (s₂ ++ rest) ∧
        q.Matches (s₁.getLast?.or last) s₂ rest := by
  constructor
  · rintro ⟨kept, h⟩
    obtain ⟨s₁, s₂, kept₁, kept₂, hs, h₁, h₂, -⟩ := takes_append.1 h
    exact ⟨s₁, s₂, hs, ⟨kept₁, h₁⟩, ⟨kept₂, h₂⟩⟩
  · rintro ⟨s₁, s₂, hs, ⟨kept₁, h₁⟩, ⟨kept₂, h₂⟩⟩
    exact ⟨_, takes_append.2 ⟨s₁, s₂, kept₁, kept₂, hs, h₁, h₂, rfl⟩⟩

theorem matches_orElse {p q : Pattern} :
    (p <|> q).Matches last s rest ↔ p.Matches last s rest ∨ q.Matches last s rest := by
  simp only [Matches, takes_orElse, exists_or]

theorem matches_keep {capture : Capture} {q : Pattern} :
    (keep capture q).Matches last s rest ↔ q.Matches last s rest := by
  constructor
  · rintro ⟨kept, h⟩
    obtain ⟨kept', h', -⟩ := takes_keep.1 h
    exact ⟨kept', h'⟩
  · rintro ⟨kept, h⟩
    exact ⟨_, takes_keep.2 ⟨kept, h, rfl⟩⟩

theorem matches_optional {q : Pattern} :
    (optional q).Matches last s rest ↔ q.Matches last s rest ∨ s = [] := by
  simp [Matches, takes_optional, exists_or]

theorem matches_wordEdge :
    wordEdge.Matches last s rest ↔ s = [] ∧ (Point.mk last rest).isWordEdge = true := by
  simp [Matches, takes_wordEdge]

theorem matches_one {c : Char} : (one c).Matches last s rest ↔ s = [c] := by
  simp [Matches, takes_one]

theorem matches_word {w : Text} : (word w).Matches last s rest ↔ s = w := by
  simp [Matches, takes_word]

theorem matches_words {ts : List Text} : (words ts).Matches last s rest ↔ s ∈ ts := by
  simp [Matches, takes_words]

theorem matches_blanks : blanks.Matches last s rest ↔ s.all isBlank = true := by
  simp [Matches, takes_blanks]

theorem matches_few_char {accepts : Char → Bool} :
    (few (char accepts)).Matches last s rest ↔ s.all accepts = true := by
  simp [Matches, takes_few_char]

theorem matches_many1_char {accepts : Char → Bool} :
    (many1 (char accepts)).Matches last s rest ↔ s ≠ [] ∧ s.all accepts = true := by
  simp [Matches, takes_many1_char]

end Matches

theorem occursIn_iff_matches {pattern : Pattern} {t : Text} :
    pattern.occursIn t = true ↔
      ∃ before s rest, t = before ++ s ++ rest ∧ pattern.Matches before.getLast? s rest := by
  rw [occursIn_iff]
  constructor
  · rintro ⟨before, s, rest, kept, ht, h⟩
    exact ⟨before, s, rest, ht, kept, h⟩
  · rintro ⟨before, s, rest, ht, kept, h⟩
    exact ⟨before, s, rest, kept, ht, h⟩

end Pattern

/-! ## 2. Announcements -/

/-- A dot, the name of a check right behind it, and its arguments. -/
def HasShould (t : Text) : Prop :=
  ∃ before verb gap after, t = before ++ '.' :: (verb ++ gap ++ '(' :: after) ∧
    (verb = "should".toList ∨ verb = "and".toList) ∧ gap.all isBlank = true

/-- The word `expect` before a parenthesis. -/
def HasExpect (t : Text) : Prop :=
  ∃ before gap after, t = before ++ ("expect".toList ++ gap ++ '(' :: after) ∧
    before.getLast?.all (!isWord ·) = true ∧ gap.all isBlank = true

/-- Nothing, or one negation and its dot. -/
def IsNegation (t : Text) : Prop :=
  t = [] ∨ ∃ gap gap', t = "not".toList ++ gap ++ '.' :: gap' ∧ gap.all isBlank = true ∧
    gap'.all isBlank = true

/-- The call of a matcher behind a dot. -/
def IsMatcherCall (t : Text) : Prop :=
  ∃ gap₁ gap₂ negation verb gap₃ after,
    t = gap₁ ++ '.' :: (gap₂ ++ negation ++ ("to".toList ++ verb) ++ gap₃ ++ '(' :: after) ∧
    gap₁.all isBlank = true ∧ gap₂.all isBlank = true ∧ IsNegation negation ∧
    verb ≠ [] ∧ verb.all isWord = true ∧ gap₃.all isBlank = true

/-- The word `expect` before a pair of parentheses without a semicolon between them, and the call
of a matcher behind it. -/
def HasMatcher (t : Text) : Prop :=
  ∃ before gap inner tail, t = before ++ ("expect".toList ++ gap ++ '(' :: (inner ++ ')' :: tail)) ∧
    before.getLast?.all (!isWord ·) = true ∧ gap.all isBlank = true ∧
    inner.all (· ≠ ';') = true ∧ IsMatcherCall tail

/-- A text announces a check in a code vocabulary. -/
def AnnouncesCheck : Framework → Text → Prop
  | .cypress, t => HasShould t ∨ HasExpect t
  | .playwright, t => HasMatcher t
  | .testRail, _ => False

theorem isWordEdge_expect (last : Option Char) (t : Text) :
    (Point.mk last ("expect".toList ++ t)).isWordEdge = last.all (!isWord ·) := by
  have he : isWord 'e' = true := by decide
  show (Point.mk last ('e' :: _)).isWordEdge = _
  cases last with
  | none => simp [Point.isWordEdge, he]
  | some d => simp [Point.isWordEdge, he]

open Pattern

theorem matches_expect {last : Option Char} {s rest : Text} :
    (wordEdge ++ word "expect" ++ blanks).Matches last s rest ↔
      ∃ gap, s = "expect".toList ++ gap ∧ last.all (!isWord ·) = true ∧ gap.all isBlank = true := by
  simp only [matches_append, matches_wordEdge, matches_word, matches_blanks]
  constructor
  · rintro ⟨_, gap, rfl, ⟨_, _, rfl, ⟨rfl, hedge⟩, rfl⟩, hgap⟩
    rw [isWordEdge_expect] at hedge
    exact ⟨gap, rfl, hedge, hgap⟩
  · rintro ⟨gap, rfl, hedge, hgap⟩
    refine ⟨"expect".toList, gap, rfl, ⟨[], "expect".toList, rfl, ⟨rfl, ?_⟩, rfl⟩, hgap⟩
    rw [isWordEdge_expect]
    exact hedge

theorem matches_negation {last : Option Char} {s rest : Text} :
    (optional (word "not" ++ blanks ++ one '.' ++ blanks)).Matches last s rest ↔
      IsNegation s := by
  simp only [matches_optional, matches_append, matches_word, matches_one, matches_blanks]
  constructor
  · rintro (⟨_, gap', rfl, ⟨_, _, rfl, ⟨_, gap, rfl, rfl, hgap⟩, rfl⟩, hgap'⟩ | rfl)
    · exact .inr ⟨gap, gap', by simp, hgap, hgap'⟩
    · exact .inl rfl
  · rintro (rfl | ⟨gap, gap', rfl, hgap, hgap'⟩)
    · exact .inr rfl
    · exact .inl ⟨_, gap', by simp, ⟨_, _, rfl, ⟨_, gap, rfl, rfl, hgap⟩, rfl⟩, hgap'⟩

theorem occursIn_cypress {t : Text} :
    Slot.assertion.occursIn .cypress t = true ↔ HasShould t ∨ HasExpect t := by
  show Pattern.occursIn _ t = true ↔ _
  rw [occursIn_iff_matches]
  -- the two alternatives of the pattern are the two forms of an announcement
  constructor
  · rintro ⟨before, s, rest, rfl, h⟩
    rcases matches_orElse.1 h with h | h
    · simp only [matches_append, matches_one, matches_keep, matches_words, matches_blanks] at h
      obtain ⟨_, _, rfl, ⟨_, gap, rfl, ⟨_, verb, rfl, rfl, hverb⟩, hgap⟩, rfl⟩ := h
      exact .inl ⟨before, verb, gap, rest, by simp, by simpa using hverb, hgap⟩
    · obtain ⟨_, _, rfl, hexpect, hparen⟩ := matches_append.1 h
      obtain ⟨gap, rfl, hedge, hgap⟩ := matches_expect.1 hexpect
      rw [matches_one.1 hparen]
      exact .inr ⟨before, gap, rest, by simp, hedge, hgap⟩
  · rintro (⟨before, verb, gap, after, rfl, hverb, hgap⟩ | ⟨before, gap, after, rfl, hedge, hgap⟩)
    · refine ⟨before, '.' :: (verb ++ gap ++ ['(']), after, by simp, matches_orElse.2 (.inl ?_)⟩
      simp only [matches_append, matches_one, matches_keep, matches_words, matches_blanks]
      refine ⟨_, _, ?_, ⟨_, gap, rfl, ⟨_, verb, rfl, rfl, ?_⟩, hgap⟩, rfl⟩
      · simp
      · simpa using hverb
    · refine ⟨before, "expect".toList ++ gap ++ ['('], after, by simp, matches_orElse.2 (.inr ?_)⟩
      exact matches_append.2 ⟨_, _, rfl, matches_expect.2 ⟨gap, rfl, hedge, hgap⟩, matches_one.2 rfl⟩

theorem matches_subject {last : Option Char} {s rest : Text} :
    (few (noneOf [';'])).Matches last s rest ↔ s.all (· ≠ ';') = true := by
  have h : noneOf [';'] = char fun c => !([';'] : List Char).contains c := rfl
  rw [h, matches_few_char]
  simp

theorem occursIn_playwright {t : Text} :
    Slot.assertion.occursIn .playwright t = true ↔ HasMatcher t := by
  show Pattern.occursIn _ t = true ↔ _
  rw [occursIn_iff_matches]
  -- the pattern is a sequence of thirteen parts, nested to the left
  constructor
  · rintro ⟨before, s, rest, rfl, h⟩
    simp only [matches_append, matches_wordEdge, matches_word, matches_negation, matches_one,
      matches_subject, matches_keep, matches_many1_char, matches_blanks] at h
    obtain ⟨_, _, rfl, ⟨_, gap₃, rfl, ⟨_, _, rfl, ⟨_, negation, rfl, ⟨_, gap₂, rfl, h, hgap₂⟩,
      hnegation⟩, ⟨_, verb, rfl, rfl, hverb, hword⟩⟩, hgap₃⟩, rfl⟩ := h
    obtain ⟨_, _, rfl, ⟨_, gap₁, rfl, ⟨_, _, rfl, ⟨_, inner, rfl, h, hinner⟩, rfl⟩, hgap₁⟩, rfl⟩ := h
    obtain ⟨_, _, rfl, ⟨_, gap, rfl, ⟨_, _, rfl, ⟨rfl, hedge⟩, rfl⟩, hgap⟩, rfl⟩ := h
    rw [isWordEdge_expect] at hedge
    refine ⟨before, gap, inner, _, ?_, hedge, hgap, hinner,
      gap₁, gap₂, negation, verb, gap₃, rest, rfl, hgap₁, hgap₂, hnegation, hverb, hword, hgap₃⟩
    simp
  · rintro ⟨before, gap, inner, _, rfl, hedge, hgap, hinner,
      gap₁, gap₂, negation, verb, gap₃, after, rfl, hgap₁, hgap₂, hnegation, hverb, hword, hgap₃⟩
    refine ⟨before, "expect".toList ++ gap ++ ['('] ++ inner ++ [')'] ++ gap₁ ++ ['.'] ++ gap₂ ++
      negation ++ ("to".toList ++ verb) ++ gap₃ ++ ['('], after, by simp, ?_⟩
    refine matches_append.2 ⟨_, _, rfl, ?_, matches_one.2 rfl⟩
    refine matches_append.2 ⟨_, _, rfl, ?_, matches_blanks.2 hgap₃⟩
    refine matches_append.2 ⟨_, _, rfl, ?_, matches_keep.2 (matches_append.2
      ⟨"to".toList, verb, rfl, matches_word.2 rfl, matches_many1_char.2 ⟨hverb, hword⟩⟩)⟩
    refine matches_append.2 ⟨_, _, rfl, ?_, matches_negation.2 hnegation⟩
    refine matches_append.2 ⟨_, _, rfl, ?_, matches_blanks.2 hgap₂⟩
    refine matches_append.2 ⟨_, _, rfl, ?_, matches_one.2 rfl⟩
    refine matches_append.2 ⟨_, _, rfl, ?_, matches_blanks.2 hgap₁⟩
    refine matches_append.2 ⟨_, _, rfl, ?_, matches_one.2 rfl⟩
    refine matches_append.2 ⟨_, _, rfl, ?_, matches_subject.2 hinner⟩
    refine matches_append.2 ⟨_, _, rfl, ?_, matches_one.2 rfl⟩
    exact matches_expect.2 ⟨gap, rfl, hedge, hgap⟩

theorem occursIn_assertion {f : Framework} (hf : f ∈ codeFrameworks) {t : Text} :
    Slot.assertion.occursIn f t = true ↔ AnnouncesCheck f t := by
  simp only [codeFrameworks, List.mem_cons, List.not_mem_nil, or_false] at hf
  rcases hf with rfl | rfl
  · exact occursIn_cypress
  · exact occursIn_playwright

/-! ## 3. Statements that make a check -/

open Source

/-- A check ends with a call, and everything before that is a negation. -/
theorem readMatcher_cases {source subject : Text} {links : List Link} {a : Assertion}
    (h : readMatcher source subject links = some a) :
    ∃ matcher, links.getLast? = some matcher ∧ matcher.args.isSome = true ∧
      (∀ l ∈ links.dropLast, l.name = "not".toList ∧ l.args = none) ∧ a.source = source ∧
        a.subject = readCheckedSubject subject := by
  obtain ⟨matcher, hlast, h⟩ := Option.bind_eq_some_iff.1 h
  obtain ⟨args, hargs, h⟩ := Option.bind_eq_some_iff.1 h
  by_cases hany : (links.dropLast.any fun l => l.name ≠ "not".toList || l.args.isSome) = true
  · rw [if_pos hany] at h
    exact absurd h (by simp)
  · rw [if_neg hany] at h
    obtain rfl := Option.some.inj h
    refine ⟨matcher, hlast, by rw [hargs]; rfl, ?_, rfl, rfl⟩
    intro l hl
    rw [Bool.not_eq_true, List.any_eq_false] at hany
    have hfacts := hany l hl
    simp only [Bool.or_eq_true, decide_eq_true_eq, not_or, Classical.not_not, Bool.not_eq_true,
      Option.isSome_eq_false_iff, Option.isNone_iff_eq_none] at hfacts
    exact hfacts

namespace ChainReading

/-- Calls that are no checks complete no step. -/
theorem steps_next {source name args : Text} {r r' : ChainReading} (hname : isChainer name = false)
    (h : r.next source name args = some r') : r'.steps = r.steps := by
  rw [r.next_command source hname rfl] at h
  rw [← Option.some.inj h]

theorem steps_links {source : Text} {links : List Link} {r r' : ChainReading}
    (hnames : ∀ l ∈ links, l.args.isSome = true → isChainer l.name = false)
    (h : r.links source links = some r') : r'.steps = r.steps := by
  refine links_induction (P := fun read => read.steps = r.steps) ?_ h rfl
  intro l hl args mid mid' hargs hnext hmid
  exact (steps_next (hnames l hl (by rw [hargs]; rfl)) hnext).trans hmid

theorem steps_first {source name args : Text} {r : ChainReading} (hname : isChainer name = false)
    (h : first source name args = some r) : r.steps = [] := by
  rcases first_cases h with ⟨check, -, rfl⟩ | ⟨-, h⟩
  · rfl
  · exact steps_next hname h

end ChainReading

/-- A chain of commands that makes a check has a command for it. -/
theorem exists_chainer_of_readCommands {source : Text} {links : List Link} {steps : List Step}
    (h : readCommands source links = some steps) (hsteps : steps.filterMap Step.assertion? ≠ []) :
    ∃ l ∈ links, isChainer l.name = true ∧ l.args.isSome = true := by
  apply Classical.byContradiction
  intro hnone
  have hnames : ∀ l ∈ links, l.args.isSome = true → isChainer l.name = false := by
    intro l hl hcall
    exact Bool.eq_false_iff.2 fun hname => hnone ⟨l, hl, hname, hcall⟩
  cases links with
  | nil =>
    obtain rfl := Option.some.inj h
    exact hsteps rfl
  | cons root rest =>
    obtain ⟨args, first, last, hargs, hfirst, hlast, rfl⟩ := readCommands_cons h
    have hroot := hnames root List.mem_cons_self (by rw [hargs]; rfl)
    have hempty : last.steps = [] :=
      (ChainReading.steps_links (fun l hl => hnames l (List.mem_cons_of_mem root hl)) hlast).trans
        (ChainReading.steps_first hroot hfirst)
    -- no step is complete, and the one being read is a chain
    apply hsteps
    unfold ChainReading.finish
    rw [hempty]
    split <;> rfl

/-! ## 4. Statements that announce their checks -/

/-- Whether a blank stands right behind a dot. -/
def hasLooseDot : Text → Bool
  | c :: d :: rest => (c = '.' && isBlank d) || hasLooseDot (d :: rest)
  | _ => false

theorem isBlank_of_hasLooseDot {before after : Text} {d : Char}
    (h : hasLooseDot (before ++ '.' :: d :: after) = false) : isBlank d = false := by
  induction before with
  | nil =>
    simp only [List.nil_append, hasLooseDot, Bool.or_eq_false_iff] at h
    simpa using h.1
  | cons c before ih =>
    cases before with
    | nil =>
      simp only [List.cons_append, List.nil_append, hasLooseDot, Bool.or_eq_false_iff] at h
      simpa using h.2.1
    | cons b before =>
      simp only [List.cons_append, hasLooseDot, Bool.or_eq_false_iff] at h
      exact ih h.2

theorem all_isBlank_of_isCodeBlank {gap : Text} (h : gap.all isCodeBlank = true) :
    gap.all isBlank = true :=
  Text.all_mono (fun _ => isBlank_of_isCodeBlank) h

theorem skipBlanks_of_isTrimmed {t : Text} (h : Text.IsTrimmed t) : skipBlanks t = t := by
  cases t with
  | nil => rfl
  | cons c t =>
    have hc : isBlank c = false := by simpa using h.first
    have hcode : isCodeBlank c = false := by
      cases hb : isCodeBlank c with
      | false => rfl
      | true =>
        rw [isBlank_of_isCodeBlank hb] at hc
        exact absurd hc (by decide)
    simp [skipBlanks, hcode]

/-- A trimmed statement of chained commands whose dots stand right before their names announces its
checks. -/
theorem announces_cypress {s : Text} (htrim : Text.IsTrimmed s) (hdots : hasLooseDot s = false)
    {steps : List Step} (h : readCypress s = some steps)
    (hcheck : steps.filterMap Step.assertion? ≠ []) : HasShould s ∨ HasExpect s := by
  rcases readCypress_cases h with ⟨links, hchain, hcommands⟩ | ⟨subject, links, a, hchain, -, -⟩
  · left
    obtain ⟨l, hl, hname, hcall⟩ := exists_chainer_of_readCommands hcommands hcheck
    unfold readChain at hchain
    rw [skipBlanks_of_isTrimmed htrim] at hchain
    obtain ⟨before, gap, gap', after, hgap, hgap', rfl⟩ := exists_dot_of_mem hchain hl hcall
    simp only [isChainer, Bool.or_eq_true, decide_eq_true_eq] at hname
    cases gap with
    | nil => exact ⟨before, l.name, gap', after, by simp, hname, all_isBlank_of_isCodeBlank hgap'⟩
    -- a blank would make the dot a loose one
    | cons d gap =>
      have hd : isBlank d = false := isBlank_of_hasLooseDot (by simpa using hdots)
      have hblank := isBlank_of_isCodeBlank (List.all_eq_true.1 hgap d List.mem_cons_self)
      rw [hblank] at hd
      exact absurd hd (by decide)
  · right
    unfold readChain at hchain
    rw [skipBlanks_of_isTrimmed htrim] at hchain
    obtain ⟨l, after, rest, more, heq, hn, hc, -⟩ := readLinks_cases hchain
    obtain ⟨rfl, -⟩ := List.cons.inj heq
    obtain ⟨gap, tail, hgap, rfl⟩ := exists_open_of_call hn hc rfl
    exact ⟨[], gap, tail, rfl, rfl, all_isBlank_of_isCodeBlank hgap⟩

/-- The parenthesis of nested text is closed by a parenthesis. -/
theorem eq_of_enclosed? {lead tail inner behind : Text} (hlead : lead.all isPlain = true)
    (hn : Nested (marks (lead ++ '(' :: tail))) (h : enclosed? tail = some (inner, behind)) :
    tail = inner ++ ')' :: behind := by
  rw [marks_plain_append hlead, marks_plain_cons (by decide)] at hn
  obtain ⟨ms, c, ns, hms, hc, hinner⟩ := hn.exists_closer rfl
  unfold enclosed? at h
  rw [hms, splitClose_closer hinner (Mark.closes_of_closesOf hc)] at h
  obtain ⟨rfl, rfl⟩ := Prod.mk.inj (Option.some.inj h)
  have hchar : c.char = ')' := (Mark.closesOf_iff.1 hc).2
  rw [← unmark_marks tail, hms]
  simp [unmark, hchar]

/-- The blank characters. -/
def blankRanges : CharRanges :=
  [(9, 13), (32, 32), (0x85, 0x85), (0xA0, 0xA0), (0x1680, 0x1680), (0x2000, 0x200A),
    (0x2028, 0x2029), (0x202F, 0x202F), (0x205F, 0x205F), (0x3000, 0x3000)]

theorem has_blankRanges {c : Char} (h : isBlank c = true) : blankRanges.has c = true := by
  simp only [isBlank, Bool.or_eq_true, Bool.and_eq_true, decide_eq_true_eq, beq_iff_eq] at h
  simp only [blankRanges, CharRanges.has, List.any_cons, List.any_nil, Bool.or_false,
    Bool.or_eq_true, Bool.and_eq_true, decide_eq_true_eq]
  omega

theorem isWord_of_isBlank {c : Char} (h : isBlank c = true) : isWord c = false := by
  have hascii : isAsciiWord c = false := by
    rw [Bool.eq_false_iff]
    intro hword
    rcases Bool.or_eq_true_iff.1 hword with hword | hword
    · rw [Text.isBlank_of_isAlphanum hword] at h
      exact absurd h (by decide)
    · rw [of_decide_eq_true hword] at h
      exact absurd h (by decide)
  -- outside ASCII, the ranges of blanks and of word characters are apart
  have hapart : (blankRanges.all fun blank =>
      wordRanges.all fun word => Nat.blt blank.2 word.1 || Nat.blt word.2 blank.1) = true := by
    decide +kernel
  have hwords : wordRanges.has c = false := by
    rw [Bool.eq_false_iff]
    intro hword
    obtain ⟨word, hw, hlow, hhigh⟩ := CharRanges.has_iff.1 hword
    obtain ⟨blank, hb, hlow', hhigh'⟩ := CharRanges.has_iff.1 (has_blankRanges h)
    have hgap := List.all_eq_true.1 (List.all_eq_true.1 hapart blank hb) word hw
    simp only [Bool.or_eq_true, Nat.blt_eq] at hgap
    omega
  unfold isWord
  rw [hascii, hwords, ite_self]

/-- What is awaited stands behind no word character. -/
theorem exists_unawaited (s : Text) :
    ∃ lead trail, s = lead ++ unawaited s ++ trail ∧ lead.getLast?.all (!isWord ·) = true := by
  unfold unawaited
  split
  · rename_i rest hrest
    by_cases hblank : Text.firstIs isBlank rest = true
    · rw [if_pos hblank]
      obtain ⟨c, rest, rfl⟩ : ∃ c tail, rest = c :: tail := by
        cases rest with
        | nil => exact absurd hblank (by decide)
        | cons c tail => exact ⟨c, tail, rfl⟩
      have hc : isBlank c = true := hblank
      obtain ⟨before, after, hbefore, -, ht⟩ := Text.exists_trim rest
      have hskip : Text.trim (c :: rest) = Text.trim rest := by
        simp [Text.trim, Text.trimStart, hc]
      refine ⟨"await".toList ++ c :: before, after, ?_, ?_⟩
      · rw [hskip, Text.eq_append_of_after? hrest]
        simp only [List.append_assoc, List.cons_append] at ht ⊢
        rw [← ht]
      -- the last character in front is the blank behind the word, or one that was trimmed
      · apply Text.last_append (by simp)
        rw [List.getLast?_eq_some_getLast (List.cons_ne_nil c before)]
        have hblanks : (c :: before).all isBlank = true := by rw [List.all_cons, hc, hbefore]; rfl
        have hlast := List.all_eq_true.1 hblanks _ (List.getLast_mem (List.cons_ne_nil c before))
        simp [isWord_of_isBlank hlast]
    · rw [if_neg hblank]
      exact ⟨[], [], by simp, rfl⟩
  · exact ⟨[], [], by simp, rfl⟩

theorem IsMatcherCall.append {t : Text} (h : IsMatcherCall t) (more : Text) :
    IsMatcherCall (t ++ more) := by
  obtain ⟨gap₁, gap₂, negation, verb, gap₃, after, rfl, hfacts⟩ := h
  exact ⟨gap₁, gap₂, negation, verb, gap₃, after ++ more, by simp, hfacts⟩

/-- Whether a name is that of a matcher. -/
def isMatcherName (name : Text) : Bool :=
  (Text.after? "to" name).any fun verb => !verb.isEmpty && verb.all isWord

/-- The only link of a chain, if it calls a matcher. -/
theorem exists_matcher {t : Text} {l : Link} (h : readLinks t = some [l])
    (hname : isMatcherName l.name = true) (hcall : l.args.isSome = true) :
    ∃ verb gap after, t = "to".toList ++ verb ++ gap ++ '(' :: after ∧ verb ≠ [] ∧
      verb.all isWord = true ∧ gap.all isBlank = true := by
  obtain ⟨k, after, rest, more, heq, hn, hc, -⟩ := readLinks_cases h
  obtain ⟨rfl, -⟩ := List.cons.inj heq
  obtain ⟨gap, tail, hgap, rfl⟩ := exists_open_of_call hn hc hcall
  obtain ⟨verb, hverb, hfacts⟩ := (Option.any_eq_true _ _).1 hname
  rw [Text.eq_append_of_after? hverb]
  simp only [Bool.and_eq_true, Bool.not_eq_true', List.isEmpty_eq_false_iff] at hfacts
  exact ⟨verb, gap, tail, rfl, hfacts.1, hfacts.2, all_isBlank_of_isCodeBlank hgap⟩

/-- A dot and a chain behind it that is one matcher, perhaps negated once. -/
theorem isMatcherCall_of_readLinks {gap tail : Text} {links : List Link}
    (hgap : gap.all isCodeBlank = true) (h : readLinks (skipBlanks tail) = some links)
    (hlength : links.length ≤ 2) {matcher : Link} (hlast : links.getLast? = some matcher)
    (hname : isMatcherName matcher.name = true) (hcall : matcher.args.isSome = true)
    (hnot : ∀ l ∈ links.dropLast, l.name = "not".toList ∧ l.args = none) :
    IsMatcherCall (gap ++ '.' :: tail) := by
  obtain ⟨gap₂, hgap₂, htail⟩ := exists_skipBlanks tail
  match links, hlength with
  | [], _ => exact absurd hlast (by simp)
  | [l], _ =>
    obtain rfl : l = matcher := by simpa using hlast
    obtain ⟨verb, gap₃, after, ht, hverb, hword, hgap₃⟩ := exists_matcher h hname hcall
    refine ⟨gap, gap₂, [], verb, gap₃, after, ?_, all_isBlank_of_isCodeBlank hgap,
      all_isBlank_of_isCodeBlank hgap₂, .inl rfl, hverb, hword, hgap₃⟩
    rw [htail, ht]
    simp
  | [k, l], _ =>
    obtain rfl : l = matcher := by simpa using hlast
    obtain ⟨hkname, hkargs⟩ := hnot k (by simp)
    -- the negation is a name, its blanks and the dot before the matcher
    obtain ⟨k, after, rest, more, heq, hn, hc, hmore⟩ := readLinks_cases h
    obtain ⟨rfl, rfl⟩ := List.cons.inj heq
    obtain ⟨gap', hgap', hneg⟩ := exists_of_splitName hn
    rcases hmore with ⟨-, hnil⟩ | ⟨tail', rfl, hmore⟩
    · exact absurd hnil (by simp)
    obtain rfl : after = '.' :: tail' := by
      rcases splitCall_cases hc with ⟨-, he⟩ | ⟨inner, -, -, -, hsome, -⟩
      · exact he
      · rw [hkargs] at hsome
        exact absurd hsome (by simp)
    obtain ⟨gap'', hgap'', htail'⟩ := exists_skipBlanks tail'
    obtain ⟨verb, gap₃, after, ht, hverb, hword, hgap₃⟩ := exists_matcher hmore hname hcall
    refine ⟨gap, gap₂, "not".toList ++ gap' ++ '.' :: gap'', verb, gap₃, after, ?_,
      all_isBlank_of_isCodeBlank hgap, all_isBlank_of_isCodeBlank hgap₂,
      .inr ⟨gap', gap'', rfl, all_isBlank_of_isCodeBlank hgap', all_isBlank_of_isCodeBlank hgap''⟩,
      hverb, hword, hgap₃⟩
    rw [htail, hneg, htail', ht, hkname]
    simp

/-- Whether a chain ends with a matcher and has at most one link between it and the root. -/
def isShortCheck (links : List Link) : Bool :=
  links.length ≤ 3 && links.getLast?.any fun l => isMatcherName l.name

/-- A trimmed statement that awaits a check announces it if its brackets are nested, if no semicolon
stands in it, and if it is negated at most once before a matcher. -/
theorem announces_playwright {s : Text} (htrim : Text.IsTrimmed (unawaited s))
    (hplain : s.all (· ≠ ';') = true) (hnested : Nested (marks (unawaited s)))
    (hshort : (readChain (unawaited s)).any isShortCheck = true) {steps : List Step}
    (h : readPlaywright s = some steps) (hcheck : steps.filterMap Step.assertion? ≠ []) :
    HasMatcher s := by
  rcases readPlaywright_cases h with ⟨-, commands, -, -, rfl⟩ | ⟨subject, links, a, hchain, hread, -⟩
  · exact absurd rfl hcheck
  rw [hchain] at hshort
  unfold readChain at hchain
  rw [skipBlanks_of_isTrimmed htrim] at hchain
  obtain ⟨matcher, hlast, hcall, hnot, -⟩ := readMatcher_cases hread
  have hfacts : links.length ≤ 2 ∧ isMatcherName matcher.name = true := by
    have hends : (Link.mk "expect".toList (some subject) :: links).getLast? = some matcher := by
      cases links with
      | nil => exact absurd hlast (by simp)
      | cons l links => rw [List.getLast?_cons_cons, hlast]
    simp only [Option.any_some, isShortCheck, hends, Bool.and_eq_true, decide_eq_true_eq,
      List.length_cons] at hshort
    exact ⟨by omega, hshort.2⟩
  obtain ⟨root, after, rest, more, heq, hn, hc, hmore⟩ := readLinks_cases hchain
  obtain ⟨rfl, rfl⟩ := List.cons.inj heq
  -- the root is closed by a parenthesis, and a dot stands behind it
  obtain ⟨gap, hgap, hroot⟩ := exists_of_splitName hn
  rcases splitCall_cases hc with ⟨hnone, -⟩ | ⟨inner, tail, behind, gap₁, hsome, rfl, hs, hgap₁, rfl⟩
  · exact absurd hnone (by simp)
  obtain rfl := Option.some.inj hsome
  rcases hmore with ⟨-, rfl⟩ | ⟨tail', rfl, hmore⟩
  · exact absurd hlast (by simp)
  have hlead : ("expect".toList ++ gap).all isPlain = true := by
    rw [List.all_append, Text.all_mono isPlain_of_isBlank (all_isBlank_of_isCodeBlank hgap)]
    rfl
  rw [hroot] at hnested
  have htail := eq_of_enclosed? hlead hnested hs
  have hmatcher := isMatcherCall_of_readLinks hgap₁ hmore hfacts.1 hlast hfacts.2 hcall hnot
  obtain ⟨lead, trail, hs, hedge⟩ := exists_unawaited s
  rw [hroot, htail] at hs
  refine ⟨lead, gap, subject, gap₁ ++ '.' :: tail' ++ trail, ?_, hedge,
    all_isBlank_of_isCodeBlank hgap, ?_, hmatcher.append trail⟩
  · rw [hs]
    simp
  · rw [hs] at hplain
    simp only [List.all_append, List.all_cons, Bool.and_eq_true] at hplain
    exact hplain.1.2.2.2.1

theorem isTrimmed_unawaited {s : Text} (h : Text.IsTrimmed s) : Text.IsTrimmed (unawaited s) := by
  unfold unawaited
  split
  · split
    · exact Text.isTrimmed_trim _
    · exact h
  · exact h

/-- Whether a statement is written in the usual way: with no blank behind a dot; or with nested
brackets, without semicolons, and with at most one negation before a matcher. -/
def isTidy : Framework → Text → Bool
  | .cypress, s => !hasLooseDot s
  | .playwright, s =>
    s.all (· ≠ ';') && decide (Nested (marks (unawaited s))) &&
      (readChain (unawaited s)).any isShortCheck
  | .testRail, _ => false

/-- A statement that is written in the usual way announces its checks. -/
theorem announcesCheck_of_isTidy {f : Framework} (hf : f ∈ codeFrameworks) {s : Text}
    (htrim : Text.IsTrimmed s) (htidy : isTidy f s = true) {steps : List Step}
    (h : readShape f s = some steps) (hcheck : steps.filterMap Step.assertion? ≠ []) :
    AnnouncesCheck f s := by
  simp only [codeFrameworks, List.mem_cons, List.not_mem_nil, or_false] at hf
  rcases hf with rfl | rfl
  · have hdots : hasLooseDot s = false := by simpa [isTidy] using htidy
    exact announces_cypress htrim hdots h hcheck
  · simp only [isTidy, Bool.and_eq_true, decide_eq_true_eq] at htidy
    exact announces_playwright (isTrimmed_unawaited htrim) htidy.1.1 htidy.1.2 htidy.2 h hcheck

end Parlance
