import Parlance.Proofs.Offsets
import Parlance.Proofs.StatementCuts
import Parlance.Source.Span

/-!
Where the statements of a text stand in it. They are spans of the text, one behind the other;
between them there are blanks, and semicolons of code outside brackets. A statement cut out of its
text and cut again is one statement.
-/

namespace Parlance.Source

/-! ## 1. Parts of a text -/

/-- The part of a text that a span takes up, if the span begins and ends between characters. -/
def Span.part? (span : Span) (t : Text) : Option Text := do
  let (_, rest) ← Text.cut? span.start t
  let (part, _) ← Text.cut? (span.stop - span.start) rest
  some part

def Span.behind (before part : Text) : Span :=
  ⟨Text.size before, Text.size before + Text.size part⟩

theorem Span.part?_behind (before part after : Text) :
    (behind before part).part? (before ++ (part ++ after)) = some part := by
  simp only [part?, behind, Nat.add_sub_cancel_left]
  simp [Text.cut?_size]

theorem Span.contains_behind {part : Text} (before : Text) {shorter : Text} {c : Char}
    {more : Text} (h : part = shorter ++ c :: more) :
    (behind before part).contains (Text.size (before ++ shorter)) = true := by
  have hpos := c.utf8Size_pos
  simp only [contains, behind, h, Text.size_append, Text.size_cons, Bool.and_eq_true,
    decide_eq_true_eq]
  omega

/-! ## 2. Statements in their places -/

/-- Whether a character that stands behind some marked characters may belong to no statement: a
blank, or a semicolon of code outside brackets. -/
def Mark.isDropped (m : Mark) (before : List Mark) : Prop :=
  isBlank m.char = true ∨ m.isCode ';' = true ∧ depthAfter 0 before = 0

/-- The places of some statements in the marked characters `ms`, which stand behind `front`. -/
structure Placed (front ms : List Mark) (spans : List Span) (statements : List Text) : Prop where
  parts : spans.map (·.part? (unmark (front ++ ms))) = statements.map some
  apart : spans.Pairwise fun a b => a.start < b.start ∧ a.stop ≤ b.start
  behind : ∀ span ∈ spans, Text.size (unmark front) ≤ span.start
  outside : ∀ before m after, ms = before ++ m :: after →
    (∃ span ∈ spans, span.contains (Text.size (unmark (front ++ before))) = true) ∨
      m.isDropped (front ++ before)

namespace Placed

variable {front ms : List Mark} {spans : List Span} {statements : List Text}

theorem nil (front : List Mark) : Placed front [] [] [] where
  parts := rfl
  apart := .nil
  behind := by simp
  outside := by simp

theorem skip {m : Mark} (hm : m.isDropped front) (h : Placed (front ++ [m]) ms spans statements) :
    Placed front (m :: ms) spans statements where
  parts := by
    rw [← h.parts, List.append_assoc]
    rfl
  apart := h.apart
  behind span hspan := by
    have hle := h.behind span hspan
    rw [unmark_append, Text.size_append] at hle
    omega
  outside before a after heq := by
    rcases List.cons_eq_append_iff.1 heq with ⟨rfl, ha⟩ | ⟨before, rfl, hms⟩
    · obtain ⟨rfl, -⟩ := List.cons.inj ha
      exact .inr (by rwa [List.append_nil])
    · have houtside := h.outside before a after hms
      rwa [List.append_assoc] at houtside

theorem skip_blanks {blanks : List Mark} (hblanks : (unmark blanks).all isBlank = true)
    (h : Placed (front ++ blanks) ms spans statements) :
    Placed front (blanks ++ ms) spans statements := by
  induction blanks generalizing front with
  | nil => rwa [List.append_nil] at h
  | cons m blanks ih =>
    rw [unmark_cons, List.all_cons, Bool.and_eq_true] at hblanks
    rw [List.append_cons] at h
    exact skip (.inl hblanks.1) (ih hblanks.2 h)

/-- A statement, and others behind it. -/
theorem statement {part : List Mark} (hne : part ≠ [])
    (h : Placed (front ++ part) ms spans statements) :
    Placed front (part ++ ms) (.behind (unmark front) (unmark part) :: spans)
      (unmark part :: statements) where
  parts := by
    have hpart := Span.part?_behind (unmark front) (unmark part) (unmark ms)
    rw [← unmark_append, ← unmark_append] at hpart
    rw [List.map_cons, List.map_cons, hpart, ← h.parts, List.append_assoc]
  apart := by
    refine List.pairwise_cons.2 ⟨fun span hspan => ?_, h.apart⟩
    have hle := h.behind span hspan
    have hpos := Text.size_pos (t := unmark part) (by simpa [unmark] using hne)
    rw [unmark_append, Text.size_append] at hle
    simp only [Span.behind]
    omega
  behind span hspan := by
    rcases List.mem_cons.1 hspan with rfl | hspan
    · exact Nat.le_refl _
    · have hle := h.behind span hspan
      rw [unmark_append, Text.size_append] at hle
      omega
  outside before m after heq := by
    have hbehind : ∀ more, ms = more ++ m :: after → before = part ++ more →
        (∃ span ∈ Span.behind (unmark front) (unmark part) :: spans,
          span.contains (Text.size (unmark (front ++ before))) = true) ∨
            m.isDropped (front ++ before) := by
      rintro more hms rfl
      rw [← List.append_assoc]
      rcases h.outside more m after hms with ⟨span, hspan, hin⟩ | hdropped
      · exact .inl ⟨span, List.mem_cons_of_mem _ hspan, hin⟩
      · exact .inr hdropped
    rcases List.append_eq_append_iff.1 heq with ⟨more, hbefore, hms⟩ | ⟨more, hpart, hmore⟩
    · exact hbehind more hms hbefore
    · cases more with
      | nil => exact hbehind [] hmore.symm (by rw [hpart, List.append_nil, List.append_nil])
      | cons a more =>
        -- the character belongs to the statement
        obtain ⟨rfl, -⟩ := List.cons.inj hmore
        refine .inl ⟨_, List.mem_cons_self, ?_⟩
        rw [unmark_append]
        have htext : unmark part = unmark before ++ m.char :: unmark more := by
          rw [hpart, unmark_append, unmark_cons]
        exact Span.contains_behind _ htext

end Placed

/-- The statements of a text are in their places wherever the text is read from code mode outside
brackets. -/
theorem exists_placed (t : Text) (front : List Mark) (hfront : t ≠ [] → depthAfter 0 front = 0) :
    ∃ spans, Placed front (marks t) spans (splitStatements t) := by
  induction t using statement_induction generalizing front with
  | nil => exact ⟨[], Placed.nil front⟩
  | blank c t hblank ih =>
    have hbracket := not_bracket_of_holds (by decide) hblank
    obtain ⟨spans, hspans⟩ := ih (front ++ [codeMark c]) fun _ => by
      rw [depthAfter_append, hfront (List.cons_ne_nil c t), depthAfter_cons,
        Mark.depth_of_char hbracket.1 hbracket.2, depthAfter_nil]
    rw [marks_plain_cons (isPlain_of_isBlank c hblank), splitStatements_blank_cons hblank]
    exact ⟨spans, .skip (.inl hblank) hspans⟩
  | semicolon t ih =>
    have hzero := hfront (List.cons_ne_nil _ t)
    obtain ⟨spans, hspans⟩ := ih (front ++ [codeMark ';']) fun _ => by
      rw [depthAfter_append, hzero]
      rfl
    rw [marks_plain_cons (by decide), splitStatements_semicolon_cons]
    exact ⟨spans, .skip (.inr ⟨rfl, hzero⟩) hspans⟩
  | begins t s blanks rest h ih =>
    have ht : t ≠ [] := by
      rintro rfl
      exact absurd h.length_lt (Nat.not_lt_zero _)
    obtain ⟨spans, hspans⟩ := ih (front ++ marks s ++ blanks) fun hrest => by
      rw [depthAfter_append, depthAfter_append, hfront ht, h.depth hrest,
        depthAfter_of_isBlank h.isBlank]
    have hmarks : marks s ≠ [] := by
      intro hnil
      exact h.ne_nil (List.eq_nil_of_length_eq_zero (by rw [← length_marks, hnil]; rfl))
    have hplaced := Placed.statement hmarks (hspans.skip_blanks h.isBlank)
    rw [unmark_marks] at hplaced
    rw [h.reading, h.statements]
    exact ⟨_, hplaced⟩

/-- The statements of a text are parts of it that stand one behind the other. A character outside
them is a blank, or a semicolon of code outside brackets. No statement is empty or has blanks around
it, and each of them, cut again, is one statement. -/
theorem splitStatements_spans (t : Text) :
    ∃ spans : List Span,
      spans.map (·.part? t) = (splitStatements t).map some ∧
      (spans.Pairwise fun a b => a.start < b.start ∧ a.stop ≤ b.start) ∧
      (∀ before m after, marks t = before ++ m :: after →
        (∃ span ∈ spans, span.contains (Text.size (unmark before)) = true) ∨
          m.isDropped before) ∧
      ∀ s ∈ splitStatements t, s ≠ [] ∧ Text.IsTrimmed s ∧ splitStatements s = [s] := by
  obtain ⟨spans, h⟩ := exists_placed t [] fun _ => rfl
  have hparts := h.parts
  rw [List.nil_append, unmark_marks] at hparts
  refine ⟨spans, hparts, h.apart, h.outside, fun s hs => ?_⟩
  obtain ⟨hne, htrim, hwhole⟩ := isWhole_of_mem_splitStatements hs
  exact ⟨hne, htrim, hwhole.splitStatements_eq htrim hne⟩

end Parlance.Source
