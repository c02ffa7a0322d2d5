import Parlance.Proofs.DeclarationSearch

/-!
What begins at a place is of one kind only. At one offset of a text at most one of the slots that open
a block begins, so which of them is found next is settled by where they begin and never by how long
they are or in which order they are tried. Where a suite or a test begins, something that looks like
one begins as well.
-/

namespace Parlance

open Pattern Source

namespace Slot

/-! ## 1. What begins at an offset -/

/-- The first match of a slot at or after a byte offset begins at the offset. -/
def BeginsAt (f : Framework) (slot : Slot) (t : Text) (offset : Nat) : Prop :=
  ∃ d, Declaration.findAt? f slot t offset = some d ∧ d.start = offset

instance (f : Framework) (slot : Slot) (t : Text) (offset : Nat) :
    Decidable (BeginsAt f slot t offset) :=
  decidable_of_iff ((Declaration.findAt? f slot t offset).any (·.start = offset) = true)
    (by simp [BeginsAt, Option.any_eq_true])

variable {f : Framework} {slot slot' : Slot} {t : Text} {offset : Nat} {p : Pattern}

theorem beginsAt_iff (hp : slot.pattern? f = some p) :
    BeginsAt f slot t offset ↔ ∃ before s rest kept, t = before ++ (s ++ rest) ∧
      Text.size before = offset ∧ p.Takes before.getLast? s rest kept := by
  constructor
  · rintro ⟨d, hd, hstart⟩
    obtain ⟨before, s, rest, kept, hstands, -, -, -, htakes⟩ :=
      Declaration.exists_takes_of_findAt? hp hd
    exact ⟨before, s, rest, kept, hstands.text, hstands.start ▸ hstart, htakes⟩
  · rintro ⟨before, s, rest, kept, rfl, rfl, htakes⟩
    obtain ⟨hit, hhit⟩ :=
      Option.isSome_iff_exists.1 (hit?_isSome.2 ⟨s, rest, kept, rfl, htakes⟩)
    exact Declaration.findAt?_of_hit? hp hhit

/-- Two declarations that begin at one place are of one kind, from wherever they were searched. -/
theorem eq_of_start {offset' : Nat} {d e : Declaration} (hslot : slot ∈ declarations)
    (hslot' : slot' ∈ declarations) (hd : Declaration.findAt? f slot t offset = some d)
    (he : Declaration.findAt? f slot' t offset' = some e) (hstart : d.start = e.start) :
    slot = slot' := by
  have hp := pattern?_declaration (f := f) hslot
  have hp' := pattern?_declaration (f := f) hslot'
  obtain ⟨before, s, rest, kept, hstands, -, -, -, htakes⟩ :=
    Declaration.exists_takes_of_findAt? hp hd
  obtain ⟨before', s', rest', kept', hstands', -, -, -, htakes'⟩ :=
    Declaration.exists_takes_of_findAt? hp' he
  have hsize : Text.size before = Text.size before' := by
    rw [← hstands.start, hstart, hstands'.start]
  -- at one offset of the text the same text follows
  obtain ⟨-, htext⟩ := Text.eq_of_size_eq (hstands.text.symm.trans hstands'.text) hsize
  exact (Heads.unique htext (heads_of_takes hslot hp htakes)
    (heads_of_takes hslot' hp' htakes')).1

/-! ## 2. What looks like a suite or a test -/

def candidateHead : Framework → Pattern
  | .cypress => head ["describe", "context", "it", "specify"] onlySkip
  | .playwright =>
    wordEdge ++ word "test" ++ optional (word ".describe") ++
      optional (words [".only", ".skip", ".fixme", ".serial", ".parallel"])
  | .testRail => head ["suite", "test_case", "testCase"] []

theorem pattern?_candidate (f : Framework) :
    Slot.candidate.pattern? f = some (opening (candidateHead f)) := by
  cases f <;> rfl

/-- A suite or a test is announced by a text that also looks like one. -/
theorem mem_candidateLeads (h : slot.isTitled = true) :
    ∀ w ∈ leads f slot, w ∈ candidateLeads f := by
  cases slot with
  | suite | test => cases f <;> decide
  | _ => exact absurd h Bool.false_ne_true

theorem takes_testLead_of_mem {modifiers : List Text} {last : Option Char} {w rest : Text}
    (hw : w ∈ headTexts ["test", "test.describe"] modifiers)
    (hedge : (Point.mk last (w ++ rest)).isWordEdge = true) :
    (wordEdge ++ word "test" ++ optional (word ".describe") ++
      optional (words modifiers)).Takes last w rest {} := by
  obtain ⟨name, hname, hmodifier⟩ := mem_headTexts.1 hw
  obtain ⟨group, hgroup, rfl⟩ : ∃ group : Text, (group = [] ∨ group = ".describe".toList) ∧
      name = "test".toList ++ group := by
    simp only [List.mem_cons, List.not_mem_nil, or_false] at hname
    rcases hname with rfl | rfl
    · exact ⟨[], .inl rfl, by decide⟩
    · exact ⟨".describe".toList, .inr rfl, by decide⟩
  obtain ⟨modifier, hmod, rfl⟩ : ∃ modifier : Text, (modifier = [] ∨ modifier ∈ modifiers) ∧
      w = "test".toList ++ group ++ modifier := by
    rcases hmodifier with rfl | ⟨modifier, hmem, rfl⟩
    · exact ⟨[], .inl rfl, by simp⟩
    · exact ⟨modifier, .inr hmem, rfl⟩
  refine takes_append.2 ⟨_, modifier, {}, {}, rfl, ?_, takes_optional_words.2 ⟨hmod, rfl⟩, rfl⟩
  refine takes_append.2 ⟨_, group, {}, {}, rfl, ?_, ?_, rfl⟩
  · refine takes_append.2 ⟨[], "test".toList, {}, {}, rfl, ?_, takes_word.2 ⟨rfl, rfl⟩, rfl⟩
    exact takes_wordEdge.2 ⟨rfl, by simpa using hedge, rfl⟩
  · rw [takes_optional, takes_word]
    rcases hgroup with rfl | rfl
    · exact .inr ⟨rfl, rfl⟩
    · exact .inl ⟨rfl, rfl⟩

theorem takes_candidateHead {last : Option Char} {w rest : Text} (hw : w ∈ candidateLeads f)
    (hedge : (Point.mk last (w ++ rest)).isWordEdge = true) :
    (candidateHead f).Takes last w rest {} := by
  cases f with
  | cypress | testRail => exact takes_head.2 ⟨hw, hedge, rfl⟩
  | playwright => exact takes_testLead_of_mem hw hedge

/-- A call opens as a declaration does if a quote stands behind its parenthesis. -/
theorem takes_opening_quote {h : Pattern} {last : Option Char} {w b b' rest : Text} {q : Char}
    (hb : b.all isBlank = true) (hb' : b'.all isBlank = true) (hq : isQuote q = true)
    (hw : h.Takes last w (b ++ '(' :: (b' ++ q :: rest)) {}) :
    (opening h).Takes last (w ++ (b ++ ['(']) ++ b' ++ [q]) rest {} := by
  have hquote {last : Option Char} :
      (oneOf ['\x27', '"', '\x60', '(']).Takes last [q] rest {} := by
    simp only [isQuote, Bool.or_eq_true, decide_eq_true_eq] at hq
    refine takes_char.2 ⟨q, rfl, ?_, rfl⟩
    rcases hq with (rfl | rfl) | rfl <;> decide
  refine takes_append.2 ⟨_, [q], {}, {}, rfl, ?_, takes_orElse.2 (.inl hquote), rfl⟩
  refine takes_append_blanks.2 ⟨_, b', rfl, hb', ?_⟩
  exact takes_lead.2 ⟨w, b, rfl, hb, by simpa using hw⟩

/-- The head of a suite or of a test begins as a candidate does. -/
theorem Heads.exists_candidate {last : Option Char} {s rest title : Text}
    (h : Heads f slot last s rest title) (ht : slot.isTitled = true) :
    ∃ s' rest', s ++ rest = s' ++ rest' ∧
      (opening (candidateHead f)).Takes last s' rest' {} := by
  obtain ⟨hdeclared, hfresh, w, b, x, rfl, hw, hb, htail⟩ := h
  rw [ht] at htail
  cases htail with
  | @titled b' inner e c q hb' hq hi he hc =>
    refine ⟨w ++ (b ++ ['(']) ++ b' ++ [q], inner ++ q :: (e ++ ',' :: (c ++ rest)), by simp, ?_⟩
    apply takes_opening_quote hb hb' hq
    apply takes_candidateHead (mem_candidateLeads ht w hw)
    rw [isWordEdge_lead hdeclared hw, hfresh]
    rfl

theorem beginsAt_candidate (hslot : slot ∈ declarations) (ht : slot.isTitled = true)
    (h : BeginsAt f slot t offset) : BeginsAt f .candidate t offset := by
  have hp := pattern?_declaration (f := f) hslot
  obtain ⟨before, s, rest, kept, rfl, hsize, htakes⟩ := (beginsAt_iff hp).1 h
  obtain ⟨s', rest', htext, htakes'⟩ := (heads_of_takes hslot hp htakes).exists_candidate ht
  exact (beginsAt_iff (pattern?_candidate f)).2 ⟨before, s', rest', {}, by rw [htext], hsize, htakes'⟩

end Slot

/-! ## 3. The next declaration -/

open Slot

/-- Of the declarations that are found from an offset on, the next one begins before all others. -/
theorem Declaration.next?_precedes {f : Framework} {t : Text} {offset : Nat} {d e : Declaration}
    {slot : Slot} (hd : next? f t offset = some d) (hslot : slot ∈ declarations)
    (he : findAt? f slot t offset = some e) : e = d ∨ d.start < e.start := by
  obtain ⟨hmem, hfirst⟩ := of_first? hd
  obtain ⟨slot', hslot', hd'⟩ := List.mem_filterMap.1 hmem
  rcases Nat.lt_or_eq_of_le (hfirst e (List.mem_filterMap.2 ⟨slot, hslot, he⟩)) with hlt | heq
  · exact .inr hlt
  · obtain rfl := eq_of_start hslot' hslot hd' he heq
    exact .inl (Option.some.inj (he.symm.trans hd'))

/-- At one offset at most one suite, test or hook of a vocabulary begins, so that of those that are
found from an offset on one begins before all others; and where a suite or a test begins, a candidate
begins. -/
theorem Declaration.one_kind_begins (f : Framework) (t : Text) (offset : Nat) :
    (∀ slot ∈ declarations, ∀ slot' ∈ declarations, BeginsAt f slot t offset →
      BeginsAt f slot' t offset → slot = slot') ∧
    (∀ d, next? f t offset = some d → ∀ slot ∈ declarations, ∀ e,
      findAt? f slot t offset = some e → e = d ∨ d.start < e.start) ∧
    (BeginsAt f .suite t offset ∨ BeginsAt f .test t offset → BeginsAt f .candidate t offset) := by
  refine ⟨?_, fun d hd slot hslot e he => next?_precedes hd hslot he, ?_⟩
  · rintro slot hslot slot' hslot' ⟨d, hd, hstart⟩ ⟨e, he, hstart'⟩
    exact eq_of_start hslot hslot' hd he (hstart.trans hstart'.symm)
  · rintro (h | h)
    · exact beginsAt_candidate (by decide) rfl h
    · exact beginsAt_candidate (by decide) rfl h

/-- A test in a group of tests, both behind a character of two bytes. -/
def groupedTest : Text :=
  "é test.describe.only('a', () => \x7b test('b', async (\x7b page \x7d) => \x7b".toList

theorem Declaration.one_kind_begins_groupedTest :
    (BeginsAt .playwright .suite groupedTest 3 ∧ BeginsAt .playwright .candidate groupedTest 3 ∧
      ¬BeginsAt .playwright .test groupedTest 3) ∧
    ∃ d e, next? .playwright groupedTest 0 = some d ∧ d.slot = .suite ∧
      findAt? .playwright .test groupedTest 0 = some e ∧ d.start < e.start := by
  have hsuite : BeginsAt .playwright .suite groupedTest 3 := by decide +kernel
  have hfirst : (next? .playwright groupedTest 0).map Declaration.slot = some .suite := by
    decide +kernel
  have htest : (findAt? .playwright .test groupedTest 0).map Declaration.slot = some .test := by
    decide +kernel
  obtain ⟨d, hd, hkind⟩ := Option.map_eq_some_iff.1 hfirst
  obtain ⟨e, he, hkind'⟩ := Option.map_eq_some_iff.1 htest
  obtain ⟨hunique, -, hcandidate⟩ := one_kind_begins .playwright groupedTest 3
  obtain ⟨-, hnext, -⟩ := one_kind_begins .playwright groupedTest 0
  refine ⟨⟨hsuite, hcandidate (.inl hsuite), fun h => ?_⟩, d, e, hd, hkind, he, ?_⟩
  · exact absurd (hunique _ (by decide) _ (by decide) hsuite h) (by decide)
  · rcases hnext d hd .test (by decide) e he with rfl | hlt
    · exact absurd (hkind.symm.trans hkind') (by decide)
    · exact hlt

end Parlance
