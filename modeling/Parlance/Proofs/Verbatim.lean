import Parlance.Proofs.BlockLines
import Parlance.Proofs.Literals
import Parlance.Proofs.StatementCuts

/-!
Statements that are kept as they are. Their lines are indented anew and lose the blanks at their ends
whether or not a literal goes on from one line to the next, so the literals of a statement come out
as they were exactly when none is left open and every line break inside one stands between lines
that this does not change.
-/

namespace Parlance.Route

open Source

variable (r : Route) (level : Nat)

/-! ## 1. Literals over several lines -/

/-- Whether a line break comes out as it is together with what stands around it: no blanks in front
of it are cut off, and the line behind it is blank or gets the indentation it has. -/
def KeepsBreak (margin : Nat) (before after : Text) : Prop :=
  let line := after.takeWhile (· ≠ '\n')
  before.getLast?.all (fun c => c = '\n' || !isBlank c) = true ∧
    (Text.allBlank line = true ∨ r.style.indentation level ++ stripMargin margin line = line)

/-- Whether a text read from a mode leaves no literal open and every line break inside a literal
comes out as it is. -/
structure KeepsLiterals (margin : Nat) (mode : Mode) (t : Text) : Prop where
  closed : (read mode t).2.isLiteral = false
  breaks : ∀ before after, t = before ++ '\n' :: after → (read mode before).2.isLiteral = true →
    r.KeepsBreak level margin before after

theorem keepsBreak_append {margin : Nat} {a : Text}
    (ha : a.getLast?.all (fun c => c = '\n' || !isBlank c) = true) (before after : Text) :
    r.KeepsBreak level margin (a ++ before) after ↔ r.KeepsBreak level margin before after := by
  unfold KeepsBreak
  cases h : before.getLast? with
  | none =>
    rw [List.getLast?_eq_none_iff.1 h, List.append_nil, ha]
    rfl
  | some c => rw [List.getLast?_append, h]; rfl

/-- Code at the front of a text holds no line break that could be lost. -/
theorem keepsLiterals_append {margin : Nat} {mode : Mode} {a t : Text} (hproper : mode.IsProper)
    (ha : '\n' ∉ a) (hlast : a.getLast?.all (!isBlank ·) = true)
    (ht : t.head?.all isInert = true) :
    r.KeepsLiterals level margin mode (a ++ t) ↔
      r.KeepsLiterals level margin (read mode a).2 t := by
  have hread {b after : Text} (hb : t = b ++ after) :
      (read mode (a ++ b)).2 = (read (read mode a).2 b).2 := by
    apply (strokes_append hproper _).2
    cases b with
    | nil => rfl
    | cons c b => rw [hb] at ht; exact ht
  have hkeeps (before after : Text) : r.KeepsBreak level margin (a ++ before) after ↔
      r.KeepsBreak level margin before after := by
    apply r.keepsBreak_append level
    cases hc : a.getLast? with
    | none => rfl
    | some c =>
      rw [hc] at hlast
      simp [show isBlank c = false by simpa using hlast]
  -- every break of the whole is one of the second part, read from the mode that the first leaves
  constructor
  · intro h
    refine ⟨hread (List.append_nil t).symm ▸ h.closed, fun before after hcut hliteral => ?_⟩
    rw [← hkeeps]
    refine h.breaks _ _ (by rw [hcut, List.append_assoc]) ?_
    rwa [hread hcut]
  · intro h
    refine ⟨(hread (List.append_nil t).symm).symm ▸ h.closed, fun before after hcut hliteral => ?_⟩
    obtain ⟨more, rfl, hmore⟩ := Text.exists_break_behind ha hcut
    rw [hkeeps]
    refine h.breaks _ _ hmore ?_
    rwa [← hread hmore]

theorem keepsLiterals_blanks {margin : Nat} {mode : Mode} {w : Text} (hproper : mode.IsProper)
    (hw : w.all isLineBlank = true) :
    r.KeepsLiterals level margin mode w ↔ mode.isLiteral = false := by
  have hread := (strokes_blanks_append hproper hw []).2
  rw [List.append_nil] at hread
  refine ⟨fun h => ?_, fun h => ⟨hread ▸ h, fun before after hcut _ => ?_⟩⟩
  · have hclosed := h.closed
    rwa [hread] at hclosed
  · rw [hcut] at hw
    exact absurd hw (by simp [isLineBlank])

/-- The line breaks of a text are the first one and those behind it. -/
theorem keepsLiterals_break {margin : Nat} {mode : Mode} {w t : Text} (hproper : mode.IsProper)
    (hw : w.all isLineBlank = true) :
    r.KeepsLiterals level margin mode (w ++ '\n' :: t) ↔
      (mode.isLiteral = true → r.KeepsBreak level margin w t) ∧
        r.KeepsLiterals level margin (mode.afterInert '\n') t := by
  have hread (u : Text) : (read mode (w ++ '\n' :: u)).2 = (read (mode.afterInert '\n') u).2 :=
    (strokes_blanks_append hproper hw _).2.trans (strokes_inert_cons hproper (by decide) u).2
  have hfirst : (read mode w).2 = mode := by
    have h := (strokes_blanks_append hproper hw []).2
    rwa [List.append_nil] at h
  have hkeeps (before after : Text) : r.KeepsBreak level margin (w ++ '\n' :: before) after ↔
      r.KeepsBreak level margin before after := by
    rw [show w ++ '\n' :: before = (w ++ ['\n']) ++ before by simp]
    exact r.keepsBreak_append level (by simp) before after
  constructor
  · intro h
    refine ⟨fun hliteral => h.breaks w t rfl (by rwa [hfirst]), hread t ▸ h.closed, ?_⟩
    intro before after hcut hliteral
    rw [← hkeeps]
    exact h.breaks _ _ (by rw [hcut, List.append_assoc]; rfl) (by rwa [hread])
  · rintro ⟨hbreak, h⟩
    refine ⟨(hread t).symm ▸ h.closed, fun before after hcut hliteral => ?_⟩
    have hnone : '\n' ∉ w := fun hmem => by
      have hblank := List.all_eq_true.1 hw _ hmem
      exact absurd hblank (by decide)
    obtain ⟨more, rfl, hmore⟩ := Text.exists_break_behind hnone hcut
    cases more with
    -- the first break, or one behind it
    | nil =>
      obtain ⟨-, rfl⟩ := List.cons.inj hmore
      rw [List.append_nil] at hliteral ⊢
      exact hbreak (hfirst ▸ hliteral)
    | cons c more =>
      obtain ⟨rfl, rfl⟩ := List.cons.inj hmore
      rw [hkeeps]
      exact h.breaks more after rfl (by rwa [hread] at hliteral)

/-! ## 2. The literals of a kept statement -/

theorem all_isLineBlank {w : Text} (hw : w.all isBlank = true) (hbreak : '\n' ∉ w) :
    w.all isLineBlank = true := by
  rw [List.all_eq_true] at hw ⊢
  intro c hc
  simp [isLineBlank, hw c hc, show c ≠ '\n' from fun h => hbreak (h ▸ hc)]

theorem head?_lines {f : Text → Text} (rest : List Text) {x : Text}
    (hx : x.head?.all isInert = true) :
    (rest.flatMap ('\n' :: f ·) ++ x).head?.all isInert = true := by
  cases rest with
  | nil => exact hx
  | cons l rest => rfl

/-- What follows a break: the line up to the next one. -/
theorem keepsBreak_lines {margin : Nat} {w l : Text} (hw : w.all isLineBlank = true)
    (hl : '\n' ∉ l) (rest : List Text) :
    r.KeepsBreak level margin w (l ++ rest.flatMap ('\n' :: ·)) ↔ w = [] ∧
      (Text.allBlank l = true ∨ r.style.indentation level ++ stripMargin margin l = l) := by
  have hline : (l ++ rest.flatMap ('\n' :: ·)).takeWhile (· ≠ '\n') = l := by
    rw [List.takeWhile_append_of_pos]
    · cases rest <;> simp
    · intro c hc
      exact decide_eq_true fun h => hl (h ▸ hc)
  have hempty : w.getLast?.all (fun c => c = '\n' || !isBlank c) = true ↔ w = [] := by
    rcases List.eq_nil_or_concat w with rfl | ⟨w, c, rfl⟩
    · simp
    · have hc : isBlank c = true ∧ c ≠ '\n' := by
        simp only [List.concat_eq_append, List.all_append, List.all_cons, isLineBlank] at hw
        simp_all
      simp [hc]
  unfold KeepsBreak
  rw [hline, hempty]

/-- What ends a written statement is part of a literal that is left open. -/
theorem strokes_end_iff {e : Text} (he : e = [] ∨ e = [';']) {mode : Mode} {w : Text}
    (hproper : mode.IsProper) (hw : w.all isLineBlank = true) :
    strokes mode (e ++ ['\n']) = strokes mode w ↔ mode.isLiteral = false := by
  have hend : strokes mode (e ++ ['\n']) =
      if mode.isLiteral then (e ++ ['\n']).map (⟨·, false⟩) else [] := by
    have hbreak := (strokes_inert_cons hproper (c := '\n') (by decide) []).1
    rcases he with rfl | rfl
    · simpa [strokes] using hbreak
    · have hmode : mode.afterInert ';' = mode := if_neg (by simp)
      have hsemicolon := (strokes_inert_cons hproper (c := ';') (by decide) ['\n']).1
      rw [hmode, hbreak] at hsemicolon
      cases hliteral : mode.isLiteral <;> simpa [strokes, hliteral] using hsemicolon
  have hblanks := (strokes_blanks_append hproper hw []).1
  rw [List.append_nil] at hblanks
  rw [hblanks, hend]
  cases hliteral : mode.isLiteral with
  | false => simp [strokes]
  | true =>
    -- the blanks hold no line break
    simp only [if_true, Bool.true_eq_false, iff_false, strokes, List.append_nil]
    intro h
    have hchars := congrArg (List.map Stroke.char) h
    simp only [List.map_map, Function.comp_def, List.map_id'] at hchars
    rw [← hchars] at hw
    exact absurd hw (by simp [isLineBlank])

section CodeLine

variable {l before code after : Text} (h : CodeLine l before code after)
include h

theorem CodeLine.head_after {t : Text} (ht : t.head?.all isInert = true) :
    (after ++ t).head?.all isInert = true := by
  cases after with
  | nil => exact ht
  | cons c after => exact isInert_of_isBlank (List.all_eq_true.1 h.after c List.mem_cons_self)

variable (hbreak : '\n' ∉ l)
include hbreak

theorem CodeLine.all_before : before.all isLineBlank = true :=
  all_isLineBlank h.before fun hmem => hbreak (by simp [h.eq, hmem])

theorem CodeLine.all_after : after.all isLineBlank = true :=
  all_isLineBlank h.after fun hmem => hbreak (by simp [h.eq, hmem])

variable {margin : Nat} {mode : Mode} (hproper : mode.IsProper)
include hproper

/-- A line with code in it has the same literals when it is indented anew, unless it goes on with a
literal and is indented otherwise. -/
theorem strokes_codeLine_iff {x t : Text} (hx : x.head?.all isInert = true)
    (ht : t.head?.all isInert = true) :
    strokes mode (r.laterLine level margin l ++ x) = strokes mode (l ++ t) ↔
      (mode.isLiteral = true → r.style.indentation level ++ stripMargin margin l = l) ∧
        strokes (read mode code).2 x = strokes (read mode code).2 (after ++ t) := by
  have hbefore := h.all_before hbreak
  have hindented : (r.style.indentation level ++ stripMargin margin before).all isLineBlank =
      true := by
    rw [List.all_append, Bool.and_eq_true]
    refine ⟨r.style.all_indentation rfl rfl level, ?_⟩
    rw [List.all_eq_true] at hbefore ⊢
    exact fun c hc => hbefore c ((stripMargin_suffix margin before).subset hc)
  have hsame : r.style.indentation level ++ stripMargin margin l = l ↔
      r.style.indentation level ++ stripMargin margin before = before := by
    rw [h.stripMargin_eq, h.eq, ← List.append_assoc, List.append_left_inj]
  have hline : l ++ t = before ++ (code ++ (after ++ t)) := by simp [h.eq]
  -- both lines are blanks and the same code, and the blanks count in a literal only
  rw [hsame, r.laterLine_code level h, hline, ← List.append_assoc (r.style.indentation level),
    List.append_assoc _ code]
  exact strokes_line_iff hproper hindented hbefore h.head_code hx (h.head_after ht)

theorem keepsLiterals_codeLine {t : Text} (ht : t.head?.all isInert = true) :
    r.KeepsLiterals level margin mode (l ++ t) ↔
      r.KeepsLiterals level margin (read mode code).2 (after ++ t) := by
  have hfront : '\n' ∉ before ++ code := fun hmem => hbreak (by
    rw [h.eq, ← List.append_assoc]
    exact List.mem_append_left after hmem)
  have hlast := Text.last_append (a := before) h.ne_nil h.trimmed.last
  have hmode := (strokes_blanks_append hproper (h.all_before hbreak) code).2
  have hline : l ++ t = before ++ code ++ (after ++ t) := by simp [h.eq]
  rw [hline, r.keepsLiterals_append level hproper hfront hlast (h.head_after ht), hmode]

end CodeLine

/-- Written line by line, a text read from a mode has the same literals exactly when it keeps
them. -/
theorem strokes_lines_iff (margin : Nat) {e : Text} (he : e = [] ∨ e = [';']) {mode : Mode}
    {w : Text} (hproper : mode.IsProper) (hw : w.all isLineBlank = true) {rest : List Text}
    (hlines : ∀ l ∈ rest, '\n' ∉ l) :
    strokes mode (rest.flatMap ('\n' :: r.laterLine level margin ·) ++ (e ++ ['\n'])) =
        strokes mode (w ++ rest.flatMap ('\n' :: ·)) ↔
      r.KeepsLiterals level margin mode (w ++ rest.flatMap ('\n' :: ·)) := by
  have hend : (e ++ ['\n']).head?.all isInert = true := by rcases he with rfl | rfl <;> decide
  -- a line hands on the mode behind its code and the blanks at its end, a blank line all it has
  induction rest generalizing mode w with
  | nil =>
    rw [List.flatMap_nil, List.flatMap_nil, List.append_nil, List.nil_append,
      r.keepsLiterals_blanks level hproper hw]
    exact strokes_end_iff he hproper hw
  | cons l rest ih =>
    rw [List.forall_mem_cons] at hlines
    have hnext := Mode.isProper_afterInert hproper '\n'
    rw [List.flatMap_cons, List.flatMap_cons, List.cons_append, List.cons_append,
      List.cons_append, List.append_assoc, strokes_break_iff hproper hw,
      r.keepsLiterals_break level hproper hw, r.keepsBreak_lines level hw hlines.1]
    cases hl : Text.allBlank l with
    | true =>
      have hrest := ih hnext (all_isLineBlank hl hlines.1) hlines.2
      rw [laterLine, if_pos hl, List.nil_append]
      exact and_congr (by simp) hrest
    | false =>
      obtain ⟨before, code, after, h⟩ := exists_codeLine hl
      have htail : (rest.flatMap ('\n' :: ·)).head?.all isInert = true := by
        simpa using head?_lines (f := id) rest (x := []) rfl
      have hrest := ih (Mode.isProper_read hnext code) (h.all_after hlines.1) hlines.2
      rw [r.strokes_codeLine_iff level h hlines.1 hnext (head?_lines rest hend) htail,
        r.keepsLiterals_codeLine level h hlines.1 hnext htail, Mode.isLiteral_afterInert, ← and_assoc]
      exact and_congr (by simp [imp_and]) hrest

/-- A statement that is kept has its literals as they were exactly when none is left open and every
line break inside one comes out as it is. -/
theorem literals_verbatim_iff {body s : Text} (h : s ∈ splitStatements body) :
    literals (r.verbatim level s).text = literals s ↔
      r.KeepsLiterals level (sharedMargin (Text.lines s).tail) .code s := by
  obtain ⟨hne, htrim, -⟩ := isWhole_of_mem_splitStatements h
  obtain ⟨first, rest, rfl, hlines⟩ := Text.exists_lines s
  have hlast : (first ++ rest.flatMap ('\n' :: ·)).getLast?.any (!isBlank ·) = true := by
    have hall := htrim.last
    rw [List.getLast?_eq_some_getLast hne] at hall ⊢
    exact hall
  have hmargin : sharedMargin (Text.lines (first ++ rest.flatMap ('\n' :: ·))).tail =
      sharedMargin rest := by
    rw [← sharedMargin_map_trimEnd, List.map_tail, Text.trimEnd_lines hlines hlast, List.map_cons,
      List.tail_cons, sharedMargin_map_trimEnd]
  -- a trimmed statement does not begin with an empty line
  have hfirst : Text.allBlank first = false := by
    cases first with
    | nil =>
      cases rest with
      | nil => exact absurd rfl hne
      | cons l rest =>
        have hbreak : isBlank '\n' = false := by simpa using htrim.first
        exact absurd hbreak (by decide)
    | cons c first =>
      have hc : isBlank c = false := by simpa using htrim.first
      simp [Text.allBlank, hc]
  obtain ⟨before, code, after, hcode⟩ := exists_codeLine hfirst
  obtain ⟨e, he, htext⟩ := r.exists_text_verbatim level hlines hlast
  rw [List.forall_mem_cons] at hlines
  have hproper : Mode.code.IsProper := trivial
  have hindent := r.style.all_indentation (p := isLineBlank) rfl rfl level
  have hend : (e ++ ['\n']).head?.all isInert = true := by rcases he with rfl | rfl <;> decide
  have hbreak : (rest.flatMap ('\n' :: ·)).head?.all isInert = true := by
    simpa using head?_lines (f := id) rest (x := []) rfl
  have hrest := r.strokes_lines_iff level (sharedMargin rest) he
    (Mode.isProper_read hproper code) (hcode.all_after hlines.1) hlines.2
  have hline : first ++ rest.flatMap ('\n' :: ·) =
      before ++ (code ++ (after ++ rest.flatMap ('\n' :: ·))) := by simp [hcode.eq]
  -- outside a literal the blanks in front of the first line do not count
  rw [literals_eq_iff, htext, hcode.trim_eq, hmargin,
    r.keepsLiterals_codeLine level hcode hlines.1 hproper hbreak, hline,
    strokes_line_iff hproper hindent (hcode.all_before hlines.1) hcode.head_code
      (head?_lines rest hend) (hcode.head_after hbreak)]
  exact (and_iff_right fun h => absurd h (by decide)).trans hrest

/-- A template literal whose second line is indented by one level. -/
def templateStatement : Text := "const q = \x60a\n    b\x60".toList

theorem keepsLiterals_templateStatement :
    templateStatement ∈ splitStatements templateStatement ∧
      Route.KeepsLiterals ⟨.cypress, .playwright, {}⟩ 1
        (sharedMargin (Text.lines templateStatement).tail) .code templateStatement :=
  have h : templateStatement ∈ splitStatements templateStatement := by decide +kernel
  ⟨h, (literals_verbatim_iff ⟨.cypress, .playwright, {}⟩ 1 h).1 (by decide +kernel)⟩

/-- Kept at the top level, the literal loses the blanks at the start of its second line. -/
theorem literals_verbatim_templateStatement :
    templateStatement ∈ splitStatements templateStatement ∧
      isComment templateStatement = false ∧
      literals templateStatement = ["\x60a\n    b\x60".toList] ∧
      literals (Route.verbatim ⟨.cypress, .playwright, {}⟩ 0 templateStatement).text =
        ["\x60a\nb\x60".toList] := by
  decide +kernel

end Parlance.Route
