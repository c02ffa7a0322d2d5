import Parlance.Proofs.Emission
import Parlance.Proofs.PerformedSteps

/-!
Code of several lines, written line by line. The blanks at the end of a line do not count, so a block
is determined by its code as it is cut at the line feeds; code put behind a block stands behind the
last line that is written.
-/

namespace Parlance

open Source

/-! ## 1. The lines of a text -/

namespace Text

/-- A text is cut into lines at its line feeds. -/
theorem exists_lines (t : Text) :
    ∃ first rest, t = first ++ List.flatMap ('\n' :: ·) rest ∧ ∀ l ∈ first :: rest, '\n' ∉ l := by
  induction t with
  | nil => exact ⟨[], [], rfl, by simp⟩
  | cons c t ih =>
    obtain ⟨first, rest, rfl, hlines⟩ := ih
    by_cases hc : c = '\n'
    · refine ⟨[], first :: rest, by simp [hc], ?_⟩
      simpa using hlines
    · refine ⟨c :: first, rest, rfl, ?_⟩
      rw [List.forall_mem_cons] at hlines ⊢
      exact ⟨by simp [hlines.1, Ne.symm hc], hlines.2⟩

/-- The line break behind a text without one. -/
theorem exists_break_behind {a t before after : Text} (ha : '\n' ∉ a)
    (h : a ++ t = before ++ '\n' :: after) :
    ∃ more, before = a ++ more ∧ t = more ++ '\n' :: after := by
  rcases List.append_eq_append_iff.1 h with ⟨more, hbefore, ht⟩ | ⟨more, rfl, ht⟩
  · exact ⟨more, hbefore, ht⟩
  · cases more with
    | nil => exact ⟨[], by simp, by simpa using ht.symm⟩
    | cons c more =>
      obtain ⟨rfl, -⟩ := List.cons.inj ht
      exact absurd (List.mem_append_right before List.mem_cons_self) ha

theorem last_of_break {a b : Text} (h : (a ++ '\n' :: b).getLast?.any (!isBlank ·) = true) :
    b.getLast?.any (!isBlank ·) = true := by
  rw [List.getLast?_append, List.getLast?_cons] at h
  cases hb : b.getLast? with
  | none =>
    rw [hb] at h
    exact h
  | some c =>
    rw [hb] at h
    exact h

theorem trimEnd_append_allBlank {w : Text} (hw : w.all isBlank = true) (t : Text) :
    trimEnd (t ++ w) = trimEnd t := by
  induction t with
  | nil => exact trimEnd_of_allBlank hw
  | cons c t ih =>
    rw [List.cons_append, trimEnd, ih]
    rfl

theorem trimEnd_endedLine (line : Text) : trimEnd (endedLine line) = trimEnd line.reverse := by
  unfold endedLine
  split
  · rw [List.reverse_cons, trimEnd_append_allBlank (by decide)]
  · rfl

theorem linesFrom_break {l : Text} (hl : '\n' ∉ l) (line t : Text) :
    linesFrom line (l ++ '\n' :: t) = endedLine (l.reverse ++ line) :: lines t := by
  induction l generalizing line with
  | nil => rfl
  | cons c l ih =>
    simp only [List.mem_cons, not_or] at hl
    rw [List.cons_append, linesFrom, if_neg (Ne.symm hl.1), ih hl.2, List.reverse_cons,
      List.append_assoc]
    rfl

/-- Up to the blanks at their ends, the lines of a text are the pieces between its line feeds. -/
theorem trimEnd_lines {first : Text} {rest : List Text}
    (hlines : ∀ l ∈ first :: rest, '\n' ∉ l)
    (hlast : (first ++ rest.flatMap ('\n' :: ·)).getLast?.any (!isBlank ·) = true) :
    (lines (first ++ rest.flatMap ('\n' :: ·))).map trimEnd = (first :: rest).map trimEnd := by
  induction rest generalizing first with
  | nil =>
    have hne : first ≠ [] := by
      rintro rfl
      exact absurd hlast (by decide)
    rw [List.flatMap_nil, List.append_nil, lines, linesFrom_of_line (hlines _ (by simp)) (.inr hne)]
    rfl
  | cons second rest ih =>
    rw [List.forall_mem_cons] at hlines
    rw [List.flatMap_cons, List.cons_append] at hlast ⊢
    rw [lines, linesFrom_break hlines.1, List.map_cons, ih hlines.2 (last_of_break hlast),
      List.append_nil, trimEnd_endedLine, List.reverse_reverse]
    rfl

end Text

namespace Route

/-! ## 2. The lines of a block -/

theorem stripMargin_append {c : Char} (hc : isBlank c = false) (margin : Nat) {w : Text}
    (hw : w.all isBlank = true) (t : Text) :
    stripMargin margin (w ++ c :: t) = stripMargin margin w ++ c :: t := by
  induction w generalizing margin with
  | nil => cases margin <;> simp [stripMargin, hc]
  | cons d w ih =>
    rw [List.all_cons, Bool.and_eq_true] at hw
    cases margin with
    | zero => rfl
    | succ n =>
      rw [List.cons_append, stripMargin, if_pos hw.1, ih _ hw.2, stripMargin, if_pos hw.1]

theorem stripMargin_suffix (margin : Nat) (t : Text) : stripMargin margin t <:+ t := by
  induction t generalizing margin with
  | nil => cases margin <;> exact List.suffix_rfl
  | cons c t ih =>
    cases margin with
    | zero => exact List.suffix_rfl
    | succ n =>
      rw [stripMargin]
      split
      · exact (ih _).trans (List.suffix_cons c t)
      · exact List.suffix_rfl

theorem margin_append {c : Char} (hc : isBlank c = false) {w : Text}
    (hw : w.all isBlank = true) (t : Text) : margin (w ++ c :: t) = w.size := by
  have hstart : Text.trimStart (w ++ c :: t) = c :: t := by
    rw [Text.trimStart_append_cons hc, Text.trimStart_of_allBlank hw]
    rfl
  rw [margin, hstart, Text.size_append, Nat.add_sub_cancel]

/-- A line with code in it: the blanks before the code, the code, and the blanks behind it. -/
structure CodeLine (line before code after : Text) : Prop where
  eq : line = before ++ (code ++ after)
  before : before.all isBlank = true
  after : after.all isBlank = true
  trimmed : Text.IsTrimmed code
  ne_nil : code ≠ []

theorem exists_codeLine {l : Text} (hl : Text.allBlank l = false) :
    ∃ before code after, CodeLine l before code after := by
  obtain ⟨before, after, hbefore, hafter, h⟩ := Text.exists_trim l
  have hne : Text.trim l ≠ [] := fun h => by
    rw [Text.trim_eq_nil_iff.1 h] at hl
    exact absurd hl (by decide)
  rw [List.append_assoc] at h
  exact ⟨before, Text.trim l, after, h, hbefore, hafter, Text.isTrimmed_trim l, hne⟩

namespace CodeLine

variable {l before code after : Text} (h : CodeLine l before code after)
include h

theorem exists_head : ∃ c rest, code = c :: rest ∧ isBlank c = false := by
  cases code with
  | nil => exact absurd rfl h.ne_nil
  | cons c rest => exact ⟨c, rest, rfl, by simpa using h.trimmed.first⟩

theorem head_code : code.head?.any (!isBlank ·) = true := by
  obtain ⟨c, rest, rfl, hc⟩ := h.exists_head
  simp [hc]

theorem not_allBlank : Text.allBlank l = false := by
  obtain ⟨c, rest, rfl, hc⟩ := h.exists_head
  simp [h.eq, Text.allBlank, hc]

theorem trimEnd_eq : Text.trimEnd l = before ++ code := by
  rw [h.eq, ← List.append_assoc, Text.trimEnd_append_allBlank h.after, Text.trimEnd_of_last]
  exact Text.last_append h.ne_nil h.trimmed.last

theorem trim_eq : Text.trim l = code := by
  obtain ⟨c, rest, rfl, hc⟩ := h.exists_head
  rw [h.eq, Text.trim, List.cons_append, Text.trimStart_append_cons hc,
    Text.trimStart_of_allBlank h.before, List.nil_append, ← List.cons_append,
    Text.trimEnd_append_allBlank h.after, Text.trimEnd_of_last h.trimmed.last]

theorem margin_eq : margin l = before.size := by
  obtain ⟨c, rest, rfl, hc⟩ := h.exists_head
  rw [h.eq]
  exact margin_append hc h.before _

theorem stripMargin_eq (margin : Nat) :
    stripMargin margin l = stripMargin margin before ++ (code ++ after) := by
  obtain ⟨c, rest, rfl, hc⟩ := h.exists_head
  rw [h.eq]
  exact stripMargin_append hc margin h.before _

/-- The line without the blanks at its end. -/
theorem bare : CodeLine (Text.trimEnd l) before code [] :=
  ⟨by rw [h.trimEnd_eq, List.append_nil], h.before, rfl, h.trimmed, h.ne_nil⟩

/-- The line with more code in the place of the blanks at its end. -/
theorem append {e : Text} (he : e.getLast?.all (!isBlank ·) = true) :
    CodeLine (Text.trimEnd l ++ e) before (code ++ e) [] :=
  ⟨by rw [h.trimEnd_eq]; simp, h.before, rfl, h.trimmed.append h.ne_nil he, by simp [h.ne_nil]⟩

end CodeLine

variable (r : Route) (level : Nat)

/-- A line behind the first line of a block as it is written. -/
def laterLine (margin : Nat) (line : Text) : Text :=
  if Text.allBlank line then []
  else r.style.indentation level ++ Text.trimEnd (stripMargin margin line)

theorem laterLine_code {l before code after : Text} (h : CodeLine l before code after)
    (margin : Nat) :
    r.laterLine level margin l =
      r.style.indentation level ++ (stripMargin margin before ++ code) := by
  have hline : Text.trimEnd (stripMargin margin before ++ (code ++ after)) =
      stripMargin margin before ++ code := by
    rw [← List.append_assoc, Text.trimEnd_append_allBlank h.after, Text.trimEnd_of_last]
    exact Text.last_append h.ne_nil h.trimmed.last
  rw [laterLine, h.not_allBlank, h.stripMargin_eq, hline]
  rfl

/-! The blanks at the end of a line do not count. -/

theorem trim_trimEnd (l : Text) : Text.trim (Text.trimEnd l) = Text.trim l := by
  cases hl : Text.allBlank l with
  | true => rw [Text.trimEnd_of_allBlank hl, Text.trim_of_allBlank hl]; rfl
  | false =>
    obtain ⟨before, code, after, h⟩ := exists_codeLine hl
    rw [h.bare.trim_eq, h.trim_eq]

theorem laterLine_trimEnd (margin : Nat) (l : Text) :
    r.laterLine level margin (Text.trimEnd l) = r.laterLine level margin l := by
  cases hl : Text.allBlank l with
  | true => rw [Text.trimEnd_of_allBlank hl, laterLine, laterLine, hl]; rfl
  | false =>
    obtain ⟨before, code, after, h⟩ := exists_codeLine hl
    rw [r.laterLine_code level h.bare, r.laterLine_code level h]

theorem sharedMargin_map_trimEnd (ls : List Text) :
    sharedMargin (ls.map Text.trimEnd) = sharedMargin ls := by
  have hmargins : ((ls.map Text.trimEnd).filter fun l => !Text.allBlank l).map margin =
      (ls.filter fun l => !Text.allBlank l).map margin := by
    -- blank lines have no margin, and a line of code keeps the blanks in front of it
    induction ls with
    | nil => rfl
    | cons l ls ih =>
      cases hl : Text.allBlank l with
      | true =>
        have hempty : Text.allBlank (Text.trimEnd l) = true := by
          rw [Text.trimEnd_of_allBlank hl]
          rfl
        simp [hl, hempty, ih]
      | false =>
        obtain ⟨before, code, after, h⟩ := exists_codeLine hl
        simp [hl, h.bare.not_allBlank, h.bare.margin_eq, h.margin_eq, ih]
  rw [sharedMargin, hmargins, sharedMargin]

/-- The text of a block by the lines of its code, up to the blanks at their ends. -/
theorem text_block_of_lines {code first : Text} {rest : List Text}
    (h : (Text.lines code).map Text.trimEnd = (first :: rest).map Text.trimEnd) :
    (r.block level code).text = r.style.indentation level ++ (Text.trim first ++
      (rest.flatMap ('\n' :: r.laterLine level (sharedMargin rest) ·) ++ ['\n'])) := by
  cases hlines : Text.lines code with
  | nil =>
    rw [hlines] at h
    exact absurd h (by simp)
  | cons l ls =>
    rw [hlines] at h
    obtain ⟨hfirst, hrest⟩ := List.cons.inj h
    have htrim : Text.trim l = Text.trim first := by
      rw [← trim_trimEnd l, hfirst, trim_trimEnd]
    have hmargin : sharedMargin ls = sharedMargin rest := by
      rw [← sharedMargin_map_trimEnd ls, hrest, sharedMargin_map_trimEnd]
    have hlater (m : Nat) : ls.flatMap (r.laterLine level m · ++ ['\n']) =
        rest.flatMap (r.laterLine level m · ++ ['\n']) := by
      have hmap (xs : List Text) : xs.flatMap (r.laterLine level m · ++ ['\n']) =
          (xs.map Text.trimEnd).flatMap (r.laterLine level m · ++ ['\n']) := by
        simp only [List.flatMap_map, laterLine_trimEnd]
      rw [hmap ls, hrest, ← hmap rest]
    -- the line feed that ends a line is put in front of the next one
    have hshift (f : Text → Text) (xs : List Text) :
        '\n' :: xs.flatMap (f · ++ ['\n']) = xs.flatMap ('\n' :: f ·) ++ ['\n'] := by
      induction xs with
      | nil => rfl
      | cons x xs ih => simp [← ih]
    have hdraft (l : Text) : (if Text.allBlank l then Draft.blankLine
        else r.line level (Text.trimEnd (stripMargin (sharedMargin ls) l))).text =
          r.laterLine level (sharedMargin ls) l ++ ['\n'] := by
      unfold laterLine
      split <;> rfl
    unfold block
    rw [hlines]
    simp only [Draft.text_append, Draft.text_concat, List.flatMap_map, hdraft]
    rw [hlater, hmargin, htrim, ← hshift, line]
    simp

section OpenLine

variable {l e : Text} (hl : l.getLast?.any (!isBlank ·) = true)
  (he : e.getLast?.all (!isBlank ·) = true)
include hl he

/-- A line that ends with code, and the same line with more code behind it. -/
theorem exists_openLine :
    ∃ before code, CodeLine l before code [] ∧ CodeLine (l ++ e) before (code ++ e) [] := by
  rcases List.eq_nil_or_concat l with rfl | ⟨front, c, rfl⟩
  · exact absurd hl (by decide)
  · rw [List.concat_eq_append] at hl ⊢
    have hc : isBlank c = false := by simpa using hl
    obtain ⟨before, code, after, h⟩ :=
      exists_codeLine (l := front ++ [c]) (by simp [Text.allBlank, hc])
    have hend : Text.trimEnd (front ++ [c]) = front ++ [c] := Text.trimEnd_append_cons hc front []
    have hbare := h.bare
    have happend := h.append he
    rw [hend] at hbare happend
    exact ⟨before, code, hbare, happend⟩

theorem trim_append_code : Text.trim (l ++ e) = Text.trim l ++ e := by
  obtain ⟨before, code, h, h'⟩ := exists_openLine hl he
  rw [h.trim_eq, h'.trim_eq]

theorem sharedMargin_append_code (ls : List Text) :
    sharedMargin (ls ++ [l ++ e]) = sharedMargin (ls ++ [l]) := by
  obtain ⟨before, code, h, h'⟩ := exists_openLine hl he
  rw [sharedMargin, sharedMargin]
  simp only [List.filter_append, List.filter_cons, List.filter_nil, h.not_allBlank,
    h'.not_allBlank, Bool.not_false, if_true, List.map_append, List.map_cons, List.map_nil,
    h.margin_eq, h'.margin_eq]

theorem laterLine_append_code (margin : Nat) :
    r.laterLine level margin (l ++ e) = r.laterLine level margin l ++ e := by
  obtain ⟨before, code, h, h'⟩ := exists_openLine hl he
  rw [r.laterLine_code level h, r.laterLine_code level h']
  simp only [List.append_assoc]

end OpenLine

/-- Code behind the last line of a block stands behind its last line as it is written. -/
theorem text_block_append {first e : Text} {rest : List Text}
    (hlines : ∀ l ∈ first :: rest, '\n' ∉ l)
    (hlast : (first ++ rest.flatMap ('\n' :: ·)).getLast?.any (!isBlank ·) = true)
    (he : e.getLast?.all (!isBlank ·) = true) (hbreak : '\n' ∉ e) :
    (r.block level (first ++ rest.flatMap ('\n' :: ·) ++ e)).text =
      r.style.indentation level ++ (Text.trim first ++
        (rest.flatMap ('\n' :: r.laterLine level (sharedMargin rest) ·) ++ (e ++ ['\n']))) := by
  have hends : (first ++ rest.flatMap ('\n' :: ·) ++ e).getLast?.any (!isBlank ·) = true := by
    rw [List.getLast?_append]
    cases hc : e.getLast? with
    | none => exact hlast
    | some c =>
      rw [hc] at he
      exact he
  -- the code is put behind the only line or behind the last of several
  rcases List.eq_nil_or_concat rest with rfl | ⟨init, l, rfl⟩
  · rw [List.flatMap_nil, List.append_nil] at hlast hends ⊢
    have hlines' : ∀ l ∈ [first ++ e], '\n' ∉ l := by simpa [hbreak] using hlines
    have hpieces := Text.trimEnd_lines hlines' (by simpa using hends)
    rw [List.flatMap_nil, List.append_nil] at hpieces
    rw [r.text_block_of_lines level hpieces, trim_append_code hlast he]
    simp
  · rw [List.concat_eq_append] at hlines hlast hends ⊢
    have hcode : first ++ (init ++ [l]).flatMap ('\n' :: ·) ++ e =
        first ++ (init ++ [l ++ e]).flatMap ('\n' :: ·) := by simp
    have hlines' : ∀ x ∈ first :: (init ++ [l ++ e]), '\n' ∉ x := by
      simp_all [or_imp, forall_and]
    have hcut : first ++ (init ++ [l]).flatMap ('\n' :: ·) =
        first ++ init.flatMap ('\n' :: ·) ++ '\n' :: l := by simp
    have hl : l.getLast?.any (!isBlank ·) = true := Text.last_of_break (hcut ▸ hlast)
    have hpieces := Text.trimEnd_lines hlines' (by rwa [← hcode])
    rw [hcode, r.text_block_of_lines level hpieces, sharedMargin_append_code hl he]
    simp [r.laterLine_append_code level hl he]

/-- The text of a kept statement by its lines. -/
theorem exists_text_verbatim {first : Text} {rest : List Text}
    (hlines : ∀ l ∈ first :: rest, '\n' ∉ l)
    (hlast : (first ++ rest.flatMap ('\n' :: ·)).getLast?.any (!isBlank ·) = true) :
    ∃ e : Text, (e = [] ∨ e = [';']) ∧
      (r.verbatim level (first ++ rest.flatMap ('\n' :: ·))).text =
        r.style.indentation level ++ (Text.trim first ++
          (rest.flatMap ('\n' :: r.laterLine level (sharedMargin rest) ·) ++ (e ++ ['\n']))) := by
  unfold verbatim
  dsimp only
  split
  · refine ⟨[], .inl rfl, ?_⟩
    have htext := r.text_block_append level (e := []) hlines hlast rfl List.not_mem_nil
    rwa [List.append_nil] at htext
  · exact ⟨[';'], .inr rfl, r.text_block_append level hlines hlast (by decide) (by decide)⟩

end Route

end Parlance
