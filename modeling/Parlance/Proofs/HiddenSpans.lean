import Parlance.Proofs.Lexical
import Parlance.Proofs.Offsets
import Parlance.Source.Span

/-!
The spans of what is hidden from the code. They lie apart and between the characters of the text, and
a byte lies in one of them if and only if its character belongs to a literal or a comment.
-/

namespace Parlance.Source

/-! ## 1. Spans in order -/

theorem inSpans_cons_of_le {s : Span} {pos : Nat} (h : s.stop ≤ pos) (later : List Span) :
    inSpans (s :: later) pos = inSpans later pos := by
  rw [inSpans, List.find?_cons_of_neg (by simpa using h), inSpans]

theorem inSpans_of_before {spans : List Span} {pos : Nat} (h : ∀ s ∈ spans, pos < s.start) :
    inSpans spans pos = false := by
  rw [inSpans]
  cases hs : spans.find? fun s => pos < s.stop with
  | none => rfl
  | some s =>
    have hstart := h s (List.mem_of_find?_eq_some hs)
    simp only [Option.any_some, decide_eq_false_iff_not]
    omega

/-- Spans that lie one behind the other with something between them. -/
def Apart (spans : List Span) : Prop := spans.Pairwise fun a b => a.stop < b.start

/-- A span of a text is not empty, and begins and ends between two characters of the text. -/
structure Span.LiesIn (s : Span) (t : Text) : Prop where
  start_lt_stop : s.start < s.stop
  start : Text.IsBoundary t s.start
  stop : Text.IsBoundary t s.stop

/-- Among spans that lie apart the first one that ends after a position decides for all of them. -/
theorem Apart.inSpans_iff {spans : List Span} (h : Apart spans) (pos : Nat) :
    inSpans spans pos = true ↔ ∃ s ∈ spans, s.contains pos = true := by
  induction spans with
  | nil => simp [inSpans]
  | cons s later ih =>
    obtain ⟨hlater, hapart⟩ := List.pairwise_cons.1 h
    simp only [List.mem_cons, exists_eq_or_imp]
    by_cases hstop : s.stop ≤ pos
    · have hout : s.contains pos = false := by
        simp only [Span.contains, Bool.and_eq_false_iff, decide_eq_false_iff_not]
        omega
      rw [inSpans_cons_of_le hstop, ih hapart, hout]
      simp
    · -- the later spans begin behind this one
      have hbehind : ¬∃ s ∈ later, s.contains pos = true := by
        rintro ⟨b, hb, hin⟩
        have hgap := hlater b hb
        simp only [Span.contains, Bool.and_eq_true, decide_eq_true_eq] at hin
        omega
      rw [or_iff_left hbehind, inSpans,
        List.find?_cons_of_pos (by simp only [decide_eq_true_eq]; omega)]
      simp only [Option.any_some, Span.contains, Bool.and_eq_true, decide_eq_true_eq]
      omega

/-- Spans that are not empty and lie apart are parted at each position into those that end there or
before and those that end behind it. -/
theorem Apart.exists_cut {spans : List Span} (h : Apart spans)
    (hne : ∀ s ∈ spans, s.start < s.stop) (pos : Nat) :
    ∃ before after, spans = before ++ after ∧ (∀ s ∈ before, s.stop ≤ pos) ∧
      ∀ s ∈ after, pos < s.stop := by
  induction spans with
  | nil => exact ⟨[], [], rfl, by simp, by simp⟩
  | cons s later ih =>
    obtain ⟨hlater, hapart⟩ := List.pairwise_cons.1 h
    obtain ⟨-, hnelater⟩ := List.forall_mem_cons.1 hne
    by_cases hstop : s.stop ≤ pos
    · obtain ⟨before, after, rfl, hbefore, hafter⟩ := ih hapart hnelater
      exact ⟨s :: before, after, rfl, List.forall_mem_cons.2 ⟨hstop, hbefore⟩, hafter⟩
    · refine ⟨[], s :: later, rfl, by simp, List.forall_mem_cons.2 ⟨by omega, fun b hb => ?_⟩⟩
      have hgap := hlater b hb
      have hsize := hnelater b hb
      omega

theorem inSpans_cut {before after : List Span} {pos : Nat} (hbefore : ∀ s ∈ before, s.stop ≤ pos)
    (hafter : ∀ s ∈ after, pos < s.stop) :
    inSpans (before ++ after) pos = after.head?.any fun s => s.start ≤ pos := by
  induction before with
  | nil =>
    cases after with
    | nil => rfl
    | cons s after =>
      have hstop := hafter s List.mem_cons_self
      rw [List.nil_append, inSpans, List.find?_cons_of_pos (by simpa using hstop)]
      rfl
  | cons s before ih =>
    obtain ⟨hstop, hbefore⟩ := List.forall_mem_cons.1 hbefore
    rw [List.cons_append, inSpans_cons_of_le hstop, ih hbefore]

/-! ## 2. The span that has been begun -/

theorem exists_hiddenFrom_some (offset start : Nat) (ms : List Mark) :
    ∃ stop later, hiddenFrom offset (some start) ms = ⟨start, stop⟩ :: later ∧ offset ≤ stop := by
  induction ms generalizing offset with
  | nil => exact ⟨offset, [], rfl, Nat.le_refl _⟩
  | cons m ms ih =>
    rw [hiddenFrom]
    split
    · obtain ⟨stop, later, h, hle⟩ := ih (offset + m.char.utf8Size)
      exact ⟨stop, later, h, by omega⟩
    · exact ⟨offset, _, rfl, Nat.le_refl _⟩

section Pending

variable {offset : Nat} {pending : Option Nat}

theorem getD_le (h : ∀ start ∈ pending, start ≤ offset) : pending.getD offset ≤ offset := by
  cases pending with
  | none => exact Nat.le_refl _
  | some start => exact h start rfl

theorem le_of_mem_some_getD (h : ∀ start ∈ pending, start ≤ offset) (k : Nat) :
    ∀ start ∈ some (pending.getD offset), start ≤ offset + k := by
  intro start hstart
  have := getD_le h
  rw [← Option.some.inj hstart]
  omega

/-- A span that ends where the reading stands does not count from there on. -/
theorem inSpans_pending {pos : Nat} (h : offset ≤ pos) (later : List Span) :
    inSpans ((pending.map fun start => Span.mk start offset).toList ++ later) pos =
      inSpans later pos := by
  cases pending with
  | none => rfl
  | some start => exact inSpans_cons_of_le h later

/-- No span begins before what has been read, but for the one that has been begun. -/
theorem start_of_mem_hiddenFrom (h : ∀ start ∈ pending, start ≤ offset) (ms : List Mark) :
    ∀ s ∈ hiddenFrom offset pending ms, pending.getD offset ≤ s.start := by
  induction ms generalizing offset pending with
  | nil =>
    intro s hs
    cases pending with
    | none => simp [hiddenFrom] at hs
    | some start => simp_all [hiddenFrom]
  | cons m ms ih =>
    intro s hs
    rw [hiddenFrom] at hs
    split at hs
    · exact ih (le_of_mem_some_getD h _) s hs
    -- the span that has been begun, or a later one
    · rcases List.mem_append.1 hs with hs | hs
      · cases pending with
        | none => simp at hs
        | some start => simp_all
      · have hlater := @ih (offset + m.char.utf8Size) none (by simp) s hs
        have hle := getD_le h
        simp only [Option.getD_none] at hlater
        omega

/-! ## 3. Where the spans begin and end -/

theorem apart_hiddenFrom (ms : List Mark) : Apart (hiddenFrom offset pending ms) := by
  induction ms generalizing offset pending with
  | nil => cases pending <;> simp [Apart, hiddenFrom]
  | cons m ms ih =>
    rw [hiddenFrom]
    split
    · exact ih
    · refine List.pairwise_append.2 ⟨by cases pending <;> simp, ih, fun a ha b hb => ?_⟩
      -- the span ends before the character of code, and the next one begins behind it
      have hlater := @start_of_mem_hiddenFrom (offset + m.char.utf8Size) none (by simp) ms b hb
      have hpos := m.char.utf8Size_pos
      cases pending with
      | none => simp at ha
      | some start =>
        simp only [Option.map_some, Option.toList_some, List.mem_singleton] at ha
        simp only [ha, Option.getD_none] at hlater ⊢
        omega

theorem liesIn_pending {front ms : List Mark}
    (h : ∀ start ∈ pending, start < Text.size (unmark front) ∧
      Text.IsBoundary (unmark (front ++ ms)) start) :
    ∀ s ∈ (pending.map fun start => Span.mk start (Text.size (unmark front))).toList,
      s.LiesIn (unmark (front ++ ms)) := by
  intro s hs
  simp only [Option.mem_toList, Option.map_eq_some_iff] at hs
  obtain ⟨start, hstart, rfl⟩ := hs
  refine ⟨(h start hstart).1, (h start hstart).2, ?_⟩
  rw [unmark_append]
  exact Text.isBoundary_append _ _

theorem liesIn_hiddenFrom {front : List Mark} (ms : List Mark)
    (h : ∀ start ∈ pending, start < Text.size (unmark front) ∧
      Text.IsBoundary (unmark (front ++ ms)) start) :
    ∀ s ∈ hiddenFrom (Text.size (unmark front)) pending ms, s.LiesIn (unmark (front ++ ms)) := by
  induction ms generalizing front pending with
  | nil => exact liesIn_pending h
  | cons m ms ih =>
    have hsize : Text.size (unmark (front ++ [m])) =
        Text.size (unmark front) + m.char.utf8Size := by simp
    have hended := liesIn_pending h
    rw [hiddenFrom, ← hsize]
    rw [List.append_cons front m ms] at h hended ⊢
    split
    · -- the character goes on with the span that has been begun, or begins one
      refine ih fun start hstart => ?_
      have hpos := m.char.utf8Size_pos
      obtain rfl := Option.some.inj hstart
      cases pending with
      | none =>
        refine ⟨by rw [Option.getD_none]; omega, ?_⟩
        rw [Option.getD_none, List.append_assoc, unmark_append]
        exact Text.isBoundary_append _ _
      | some start =>
        obtain ⟨hlt, hboundary⟩ := h start rfl
        exact ⟨by rw [Option.getD_some]; omega, hboundary⟩
    · intro s hs
      rcases List.mem_append.1 hs with hs | hs
      · exact hended s hs
      · exact ih (by simp) s hs

/-! ## 4. The bytes of one character -/

theorem inSpans_hiddenFrom (h : ∀ start ∈ pending, start ≤ offset) (before after : List Mark)
    (m : Mark) {k : Nat} (hk : k < m.char.utf8Size) :
    inSpans (hiddenFrom offset pending (before ++ m :: after))
      (offset + Text.size (unmark before) + k) = m.isHidden := by
  induction before generalizing offset pending with
  | nil =>
    rw [List.nil_append, hiddenFrom, unmark_nil, Text.size_nil, Nat.add_zero]
    cases hm : m.isHidden with
    | true =>
      obtain ⟨stop, later, hspan, hle⟩ :=
        exists_hiddenFrom_some (offset + m.char.utf8Size) (pending.getD offset) after
      have hstart := getD_le h
      rw [if_pos rfl, hspan, inSpans,
        List.find?_cons_of_pos (by simp only [decide_eq_true_eq]; omega)]
      simp only [Option.any_some, decide_eq_true_eq]
      omega
    | false =>
      rw [if_neg (by decide), inSpans_pending (Nat.le_add_right _ _)]
      -- a character of code ends the span, and the next one begins behind it
      apply inSpans_of_before
      intro s hs
      have hlater := @start_of_mem_hiddenFrom _ none (by simp) after s hs
      simp only [Option.getD_none] at hlater
      omega
  | cons b before ih =>
    have hpos : offset + Text.size (unmark (b :: before)) + k =
        offset + b.char.utf8Size + Text.size (unmark before) + k := by
      rw [unmark_cons, Text.size_cons]
      omega
    rw [hpos, List.cons_append, hiddenFrom]
    split
    · exact ih (le_of_mem_some_getD h _)
    · rw [inSpans_pending (by omega)]
      exact ih (by simp)

end Pending

/-- Of the bytes of a text those of a hidden character are in its hidden spans, and no others. -/
theorem inSpans_hiddenSpans {t : Text} {before after : List Mark} {m : Mark}
    (h : marks t = before ++ m :: after) {k : Nat} (hk : k < m.char.utf8Size) :
    inSpans (hiddenSpans t) (Text.size (unmark before) + k) = m.isHidden := by
  have hspans := @inSpans_hiddenFrom 0 none (by simp) before after m k hk
  rwa [Nat.zero_add, ← h] at hspans

/-! ## 5. The hidden spans of a text -/

/-- A byte of a character that is part of a literal or of a comment. -/
def IsHiddenByte (t : Text) (pos : Nat) : Prop :=
  ∃ before m after, marks t = before ++ m :: after ∧ m.isHidden = true ∧
    Text.size (unmark before) ≤ pos ∧ pos < Text.size (unmark before) + m.char.utf8Size

/-- A byte of a text belongs to one of its characters. -/
theorem exists_mark_at {ms : List Mark} {pos : Nat} (h : pos < Text.size (unmark ms)) :
    ∃ before m after, ms = before ++ m :: after ∧ Text.size (unmark before) ≤ pos ∧
      pos < Text.size (unmark before) + m.char.utf8Size := by
  induction ms generalizing pos with
  | nil => exact absurd h (Nat.not_lt_zero pos)
  | cons m ms ih =>
    by_cases hm : pos < m.char.utf8Size
    · exact ⟨[], m, ms, rfl, Nat.zero_le pos, by simpa using hm⟩
    · have hrest : pos - m.char.utf8Size < Text.size (unmark ms) := by
        rw [unmark_cons, Text.size_cons] at h
        omega
      obtain ⟨before, n, after, rfl, hle, hlt⟩ := ih hrest
      refine ⟨m :: before, n, after, rfl, ?_, ?_⟩ <;> rw [unmark_cons, Text.size_cons] <;> omega

theorem liesIn_hiddenSpans (t : Text) : ∀ s ∈ hiddenSpans t, s.LiesIn t := by
  have h := @liesIn_hiddenFrom none [] (marks t) (by simp)
  rwa [List.nil_append, unmark_marks] at h

theorem apart_hiddenSpans (t : Text) : Apart (hiddenSpans t) := apart_hiddenFrom (marks t)

theorem inSpans_hiddenSpans_iff {t : Text} {pos : Nat} :
    inSpans (hiddenSpans t) pos = true ↔ IsHiddenByte t pos := by
  constructor
  · intro h
    obtain ⟨s, hs, hin⟩ := ((apart_hiddenSpans t).inSpans_iff pos).1 h
    have hstop := (liesIn_hiddenSpans t s hs).stop.le
    simp only [Span.contains, Bool.and_eq_true, decide_eq_true_eq] at hin
    have hpos : pos < Text.size (unmark (marks t)) := by
      rw [unmark_marks]
      omega
    obtain ⟨before, m, after, hmarks, hle, hlt⟩ := exists_mark_at hpos
    refine ⟨before, m, after, hmarks, ?_, hle, hlt⟩
    have hhidden := inSpans_hiddenSpans hmarks (k := pos - Text.size (unmark before)) (by omega)
    rwa [Nat.add_sub_cancel' hle, h, eq_comm] at hhidden
  · rintro ⟨before, m, after, hmarks, hm, hle, hlt⟩
    have hhidden := inSpans_hiddenSpans hmarks (k := pos - Text.size (unmark before)) (by omega)
    rwa [Nat.add_sub_cancel' hle, hm] at hhidden

/-- The hidden spans of a text are not empty, lie in it between its characters, and are ordered with
at least one byte between any two. A byte lies in one of them if and only if it belongs to a literal or
a comment. Each position parts them into those that end there or before and those that end behind it,
and it lies in one of them if and only if it lies in the first of the latter. -/
theorem hiddenSpans_exact (t : Text) :
    (∀ s ∈ hiddenSpans t, s.LiesIn t ∧ s.stop ≤ Text.size t) ∧
    Apart (hiddenSpans t) ∧
    (∀ pos, (∃ s ∈ hiddenSpans t, s.contains pos = true) ↔ IsHiddenByte t pos) ∧
    ∀ pos, (inSpans (hiddenSpans t) pos = true ↔ ∃ s ∈ hiddenSpans t, s.contains pos = true) ∧
      ∃ before after, hiddenSpans t = before ++ after ∧ (∀ s ∈ before, s.stop ≤ pos) ∧
        (∀ s ∈ after, pos < s.stop) ∧
        inSpans (hiddenSpans t) pos = after.head?.any fun s => s.start ≤ pos := by
  have hapart := apart_hiddenSpans t
  have hlies := liesIn_hiddenSpans t
  refine ⟨fun s hs => ⟨hlies s hs, (hlies s hs).stop.le⟩, hapart, fun pos => ?_, fun pos => ?_⟩
  · rw [← hapart.inSpans_iff, inSpans_hiddenSpans_iff]
  · obtain ⟨before, after, hcut, hbefore, hafter⟩ :=
      hapart.exists_cut (fun s hs => (hlies s hs).start_lt_stop) pos
    refine ⟨hapart.inSpans_iff pos, before, after, hcut, hbefore, hafter, ?_⟩
    rw [hcut, inSpans_cut hbefore hafter]

end Parlance.Source
