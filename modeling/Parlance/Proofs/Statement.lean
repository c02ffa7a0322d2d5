import Parlance.Proofs.Nesting
import Parlance.Source.Statement

/-!
Statements one after another: behind a semicolon outside brackets the rest of a text is cut into
statements on its own, and blanks make no statement. Inside brackets no statement ends.
-/

namespace Parlance.Source

/-! ## 1. Where a statement ends -/

/-- A line break sees no further than the next character that is not blank. -/
theorem continuesChain_append {before t : Text} {c : Char} (hc : isBlank c = false)
    (rest : Text) : continuesChain before (t ++ c :: rest) = continuesChain before (t ++ [c]) := by
  have h := Text.startsWith_singleton_append (@Text.trimStart_ne_nil t c hc) '.' rest
  rw [← Text.trimStart_append hc] at h
  unfold continuesChain
  rw [show (".".toList : Text) = ['.'] from rfl, h]

theorem endsStatement_append {m c : Mark} {piece : Text} {depth : Nat} {ms : List Mark}
    (hc : isBlank c.char = false) (rest : List Mark) :
    m.endsStatement piece depth (ms ++ c :: rest) = m.endsStatement piece depth (ms ++ [c]) := by
  -- only a line break looks ahead, and not beyond `c`
  have hu (rest : List Mark) : unmark (ms ++ c :: rest) = unmark ms ++ c.char :: unmark rest := by
    simp [unmark]
  unfold Mark.endsStatement
  rw [hu, hu, continuesChain_append hc]
  rfl

theorem Mark.depth_of_not_code {m : Mark} (h : m.kind ≠ .code) (depth : Nat) :
    m.depth depth = depth := by
  simp [Mark.depth, Mark.opens, Mark.closes, h]

theorem Mark.depth_of_char {m : Mark} (ho : isOpener m.char = false) (hc : isCloser m.char = false)
    (depth : Nat) : m.depth depth = depth := by
  simp [Mark.depth, Mark.opens, Mark.closes, ho, hc]

theorem depthAfter_of_isBlank {ms : List Mark} (h : (unmark ms).all isBlank = true)
    (depth : Nat) : depthAfter depth ms = depth := by
  induction ms with
  | nil => rfl
  | cons m ms ih =>
    rw [unmark_cons, List.all_cons, Bool.and_eq_true] at h
    have hbracket := not_bracket_of_holds (by decide) h.1
    rw [depthAfter_cons, Mark.depth_of_char hbracket.1 hbracket.2, ih h.2]

theorem Mark.kind_of_isCode {m : Mark} {c : Char} (h : m.isCode c = true) : m.kind = .code := by
  simp only [Mark.isCode, Bool.and_eq_true, decide_eq_true_eq] at h
  exact h.1

theorem Mark.char_of_isCode {m : Mark} {c : Char} (h : m.isCode c = true) : m.char = c := by
  simp only [Mark.isCode, Bool.and_eq_true, decide_eq_true_eq] at h
  exact h.2

theorem Mark.depth_of_endsStatement {m : Mark} {piece : Text} {depth : Nat} {rest : List Mark}
    (h : m.endsStatement piece depth rest = true) : m.depth depth = depth := by
  simp only [Mark.endsStatement, Bool.and_eq_true, Bool.or_eq_true] at h
  obtain ⟨-, h | ⟨h, -⟩⟩ := h
  · exact Mark.depth_of_char (by rw [Mark.char_of_isCode h]; rfl)
      (by rw [Mark.char_of_isCode h]; rfl) depth
  · exact Mark.depth_of_char (by rw [Mark.char_of_isCode h]; rfl)
      (by rw [Mark.char_of_isCode h]; rfl) depth

theorem Mark.depth_of_startsComment {m : Mark} {last : Kind} {depth depth' : Nat}
    (h : m.startsComment last depth = true) : m.depth depth' = depth' := by
  simp only [Mark.startsComment, Bool.and_eq_true, decide_eq_true_eq] at h
  refine Mark.depth_of_not_code ?_ depth'
  rw [h.1.1]
  decide

/-! ## 2. Texts one after another -/

/-- Behind a semicolon outside brackets the rest is cut on its own. -/
theorem splitMarks_append {piece : Text} {depth : Nat} {last : Kind} {ms : List Mark} {m : Mark}
    (hm : m.isCode ';' = true) (hdepth : depthAfter depth ms = 0) (rest : List Mark) :
    splitMarks piece depth last (ms ++ m :: rest) =
      splitMarks piece depth last (ms ++ [m]) ++ splitMarks [] 0 .code rest := by
  have hkind := Mark.kind_of_isCode hm
  have hblank : isBlank m.char = false := by
    rw [Mark.char_of_isCode hm]
    rfl
  induction ms generalizing piece depth last with
  | nil =>
    obtain rfl : depth = 0 := hdepth
    simp [splitMarks, Mark.startsComment, hkind, Mark.endsStatement, hm, statement, Text.trim,
      Text.trimStart, Text.trimEnd]
  | cons a ms ih =>
    rw [depthAfter_cons] at hdepth
    simp only [List.cons_append, splitMarks, endsStatement_append hblank rest]
    split
    -- a comment is no bracket, so the depth is the same behind it
    · rename_i hc
      rw [Bool.and_eq_true] at hc
      rw [Mark.depth_of_startsComment hc.1] at hdepth
      rw [ih hdepth, List.append_assoc]
    · split
      · rename_i he
        rw [Mark.depth_of_endsStatement he] at hdepth
        rw [ih hdepth, List.append_assoc]
      · exact ih hdepth

theorem splitMarks_lineBreak (ms : List Mark) :
    splitMarks [] 0 .code (codeMark '\n' :: ms) = splitMarks [] 0 .code ms := by
  simp [splitMarks, Mark.startsComment, codeMark, Mark.endsStatement, Mark.isCode, continuesChain,
    Text.trimEnd, statement, Text.trim, Text.trimStart]

theorem statement_blank_cons {c : Char} (hc : isBlank c = true) (t : Text) :
    statement (c :: t) = statement t := by
  rw [statement, statement, Text.trim, Text.trimStart, List.dropWhile_cons, if_pos hc]
  rfl

theorem continuesChain_blank_cons {c : Char} (hc : isBlank c = true) (t after : Text) :
    continuesChain (c :: t) after = continuesChain t after := by
  unfold continuesChain
  rw [Text.trimEnd]
  cases Text.trimEnd t with
  | nil => rw [if_pos hc]
  | cons d kept =>
    simp only [List.isEmpty_cons, Bool.false_or, List.getLast?_cons_cons]
    rw [Text.trimStart, List.dropWhile_cons, if_pos hc]
    rfl

/-- A blank before the first character of a statement is no part of it. -/
theorem splitMarks_concat_blank {c : Char} (hc : isBlank c = true) (piece : Text) (depth : Nat)
    (last : Kind) (ms : List Mark) :
    splitMarks (piece ++ [c]) depth last ms = splitMarks piece depth last ms := by
  have hreverse (piece : Text) : (piece ++ [c]).reverse = c :: piece.reverse := by simp
  induction ms generalizing piece depth last with
  | nil => rw [splitMarks, splitMarks, hreverse, statement_blank_cons hc]
  | cons m ms ih =>
    have hblank : Text.allBlank (piece ++ [c]) = Text.allBlank piece := by
      rw [Text.allBlank, Text.allBlank, List.all_append, List.all_cons, hc]
      simp
    have hends : m.endsStatement (piece ++ [c]) depth ms = m.endsStatement piece depth ms := by
      rw [Mark.endsStatement, Mark.endsStatement, hreverse, continuesChain_blank_cons hc]
    rw [splitMarks, splitMarks, hblank, hends, hreverse, statement_blank_cons hc,
      ← List.cons_append, ih]

theorem splitStatements_blank_cons {c : Char} (hc : isBlank c = true) (t : Text) :
    splitStatements (c :: t) = splitStatements t := by
  rw [splitStatements, splitStatements, marks_plain_cons (isPlain_of_isBlank c hc)]
  -- a line break ends an empty statement, all other blanks begin one
  by_cases hbreak : c = '\n'
  · rw [hbreak]
    exact splitMarks_lineBreak _
  · have hends : (codeMark c).endsStatement [] 0 (marks t) = false := by
      have hsemi : c ≠ ';' := of_decide_eq_true (Text.ne_of_holds (by decide) c hc)
      simp [Mark.endsStatement, Mark.isCode, codeMark, hbreak, hsemi]
    have hbracket := not_bracket_of_holds (by decide) hc
    have hdepth : (codeMark c).depth 0 = 0 := Mark.depth_of_char hbracket.1 hbracket.2 0
    rw [splitMarks, if_neg (by simp [Mark.startsComment, codeMark]), if_neg (by simp [hends]),
      hdepth]
    exact splitMarks_concat_blank hc [] 0 .code _

theorem splitStatements_semicolon_cons (t : Text) :
    splitStatements (';' :: t) = splitStatements t := by
  rw [splitStatements, marks_plain_cons (by decide), splitMarks,
    if_neg (by simp [Mark.startsComment, codeMark]),
    if_pos (by simp [Mark.endsStatement, Mark.isCode, codeMark])]
  rfl

theorem splitStatements_blanks_append {w : Text} (hw : w.all isBlank = true) (t : Text) :
    splitStatements (w ++ t) = splitStatements t := by
  induction w with
  | nil => rfl
  | cons c w ih =>
    rw [List.all_cons, Bool.and_eq_true] at hw
    rw [List.cons_append, splitStatements_blank_cons hw.1, ih hw.2]

theorem splitStatements_blanks {t : Text} (h : t.all isBlank = true) : splitStatements t = [] := by
  have hnil := splitStatements_blanks_append h []
  rwa [List.append_nil] at hnil

/-! ## 3. Comments -/

def commentMark (c : Char) : Mark := ⟨c, .comment⟩

theorem read_lineComment {x : Text} (hx : x.all (· ≠ '\n') = true) (t : Text) :
    read .lineComment (x ++ '\n' :: t) =
      (x.map commentMark ++ codeMark '\n' :: marks t, finalMode t) := by
  induction x with
  | nil =>
    rw [List.nil_append, read, if_pos rfl]
    rfl
  | cons c x ih =>
    simp only [List.all_cons, Bool.and_eq_true, decide_eq_true_eq] at hx
    rw [List.cons_append, read, if_neg hx.1, ih hx.2]
    rfl

theorem read_lineComment_end {x : Text} (hx : x.all (· ≠ '\n') = true) :
    read .lineComment x = (x.map commentMark, .lineComment) := by
  induction x with
  | nil => rfl
  | cons c x ih =>
    simp only [List.all_cons, Bool.and_eq_true, decide_eq_true_eq] at hx
    rw [read, if_neg hx.1, ih hx.2]
    rfl

theorem splitMarks_comment (piece x : Text) (rest : List Mark) :
    splitMarks piece 0 .comment (x.map commentMark ++ rest) =
      splitMarks (x.reverse ++ piece) 0 .comment rest := by
  induction x generalizing piece with
  | nil => rfl
  | cons c x ih =>
    rw [List.map_cons, List.cons_append, splitMarks, if_neg (by simp [Mark.startsComment]),
      if_neg (by simp [Mark.endsStatement, Mark.isCode, commentMark]),
      Mark.depth_of_not_code (by simp [commentMark])]
    show splitMarks (c :: piece) 0 .comment _ = _
    rw [ih]
    simp

/-- A comment up to the end of its line is a statement. -/
theorem splitStatements_comment {x : Text} (hx : x.all (· ≠ '\n') = true) (t : Text) :
    splitStatements ('/' :: '/' :: x ++ '\n' :: t) =
      statement ('/' :: '/' :: x) ++ splitStatements t := by
  have hmarks : marks ('/' :: '/' :: x ++ '\n' :: t) =
      commentMark '/' :: (('/' :: x).map commentMark ++ codeMark '\n' :: marks t) := by
    rw [marks, List.cons_append, List.cons_append, read, read_lineComment hx]
    rfl
  rw [splitStatements, hmarks, splitMarks, if_neg (by simp [Text.allBlank]),
    if_neg (by simp [Mark.endsStatement, Mark.isCode, commentMark]),
    Mark.depth_of_not_code (by simp [commentMark])]
  show splitMarks ['/'] 0 .comment _ = _
  rw [splitMarks_comment]
  -- the line break ends the comment, whatever stands in the next line
  have hends : (codeMark '\n').endsStatement (('/' :: x).reverse ++ ['/']) 0 (marks t) = true := by
    have hpiece : (('/' :: x).reverse ++ ['/']).reverse = '/' :: '/' :: x := by simp
    simp only [Mark.endsStatement, hpiece, continuesChain]
    rw [Text.trimEnd_cons (by decide), Text.trimEnd_cons (by decide)]
    simp [Mark.isCode, codeMark, Text.trimStart, Text.startsWith, List.isPrefixOf,
      show isBlank '/' = false from rfl]
  rw [splitMarks, if_neg (by simp [Mark.startsComment, codeMark]), if_pos hends]
  simp [splitStatements, codeMark]

/-! ## 4. Texts that are not cut -/

/-- Marked characters whose brackets are properly nested, and none outside of them at which a text
may be cut. -/
inductive Unbroken (cuts : Mark → Bool) : List Mark → Prop
  | nil : Unbroken cuts []
  | plain {m : Mark} {rest : List Mark} (ho : m.opens = false) (hc : m.closes = false)
      (hm : cuts m = false) (hrest : Unbroken cuts rest) : Unbroken cuts (m :: rest)
  | bracket {o c : Mark} {inner rest : List Mark} (ho : o.opens = true)
      (hc : c.closesOf o = true) (hinner : Nested inner) (hrest : Unbroken cuts rest) :
      Unbroken cuts (o :: (inner ++ c :: rest))

section Unbroken

variable {cuts : Mark → Bool}

theorem Unbroken.nested {ms : List Mark} (h : Unbroken cuts ms) : Nested ms := by
  induction h with
  | nil => exact .nil
  | plain ho hc _ _ ih => exact .plain ho hc ih
  | bracket ho hc hinner _ ih => exact .bracket ho hc hinner ih

theorem Unbroken.append {ms ns : List Mark} (h : Unbroken cuts ms) (hn : Unbroken cuts ns) :
    Unbroken cuts (ms ++ ns) := by
  induction h with
  | nil => exact hn
  | plain ho hc hm _ ih => exact .plain ho hc hm ih
  | @bracket o c inner rest ho hc hinner _ ih =>
    have h := Unbroken.bracket ho hc hinner ih
    simpa using h

theorem unbroken_of_flat {ms : List Mark}
    (h : ∀ m ∈ ms, m.opens = false ∧ m.closes = false ∧ cuts m = false) : Unbroken cuts ms := by
  induction ms with
  | nil => exact .nil
  | cons m ms ih =>
    obtain ⟨ho, hc, hm⟩ := h m List.mem_cons_self
    exact .plain ho hc hm (ih fun n hn => h n (List.mem_cons_of_mem m hn))

end Unbroken

theorem Mark.depth_of_plain {m : Mark} (ho : m.opens = false) (hc : m.closes = false)
    (depth : Nat) : m.depth depth = depth := by
  simp [Mark.depth, ho, hc]

theorem Mark.depth_of_not_closes {m : Mark} (h : m.closes = false) (depth : Nat) :
    m.depth (depth + 1) = (if m.opens then depth + 1 else depth) + 1 := by
  cases ho : m.opens <;> simp [Mark.depth, ho, h]

theorem Mark.isCode_of_opens {m : Mark} (h : m.opens = true) {d : Char}
    (hd : isOpener d = false) : m.isCode d = false := by
  simp only [Mark.opens, Bool.and_eq_true] at h
  have hne : m.char ≠ d := of_decide_eq_true (Text.ne_of_holds hd m.char h.2)
  simp [Mark.isCode, hne]

theorem Mark.kind_of_opens {m : Mark} (h : m.opens = true) : m.kind = .code := by
  simp only [Mark.opens, Bool.and_eq_true, decide_eq_true_eq] at h
  exact h.1

/-- Whether a statement may end at a marked character, or another one begin with it. -/
def Mark.boundsStatement (m : Mark) : Bool :=
  m.kind = .comment || m.isCode ';' || m.isCode '\n'

theorem splitMarks_inside (piece : Text) (depth : Nat) (last : Kind) (m : Mark)
    (rest : List Mark) :
    splitMarks piece (depth + 1) last (m :: rest) =
      splitMarks (m.char :: piece) (m.depth (depth + 1)) m.kind rest := by
  rw [splitMarks, if_neg (by simp [Mark.startsComment]), if_neg (by simp [Mark.endsStatement])]

/-- Nothing ends a statement up to a bracket that closes one of those open; `k` stay open. -/
theorem splitMarks_height? {depth k : Nat} {ms : List Mark}
    (h : allBrackets.height? depth ms = some k) {c : Mark} (hc : c.closes = true) (piece : Text)
    (last : Kind) (rest : List Mark) :
    splitMarks piece (depth + 1) last (ms ++ c :: rest) =
      splitMarks (c.char :: ((unmark ms).reverse ++ piece)) k .code rest := by
  fun_induction Brackets.height? allBrackets depth ms generalizing piece last with
  | case1 depth =>
    obtain rfl := Option.some.inj h
    rw [List.nil_append, splitMarks_inside, Mark.depth_of_closes hc, Mark.kind_of_closes hc]
    rfl
  | case2 => exact absurd h (by simp)
  | case3 m ms hm depth ih =>
    -- the depth of the splitter is one more than the height, so it never comes down to zero
    have hm : m.closes = true := hm
    rw [List.cons_append, splitMarks_inside, Mark.depth_of_closes hm, Nat.add_sub_cancel, ih h]
    simp
  | case4 depth m ms hm ih =>
    have hm : m.closes = false := by simpa [allBrackets] using hm
    rw [List.cons_append, splitMarks_inside, Mark.depth_of_not_closes hm]
    exact (ih h (m.char :: piece) m.kind).trans (by simp)

theorem splitMarks_bracket {inner : List Mark} (h : Nested inner) {c : Mark}
    (hc : c.closes = true) (piece : Text) (depth : Nat) (last : Kind) (rest : List Mark) :
    splitMarks piece (depth + 1) last (inner ++ c :: rest) =
      splitMarks (c.char :: ((unmark inner).reverse ++ piece)) depth .code rest :=
  splitMarks_height? (h.height?_allBrackets depth) hc piece last rest

theorem splitMarks_outside {m : Mark} (h : m.boundsStatement = false) (piece : Text)
    (last : Kind) (rest : List Mark) :
    splitMarks piece 0 last (m :: rest) =
      splitMarks (m.char :: piece) (m.depth 0) m.kind rest := by
  simp only [Mark.boundsStatement, Bool.or_eq_false_iff, decide_eq_false_iff_not] at h
  rw [splitMarks, if_neg (by simp [Mark.startsComment, h]),
    if_neg (by simp [Mark.endsStatement, h])]

/-- A text without a place to cut is one statement up to the semicolon behind it. -/
theorem splitMarks_unbroken {ms : List Mark} (h : Unbroken Mark.boundsStatement ms) {m : Mark}
    (hm : m.isCode ';' = true) (piece : Text) (last : Kind) (rest : List Mark) :
    splitMarks piece 0 last (ms ++ m :: rest) =
      statement (piece.reverse ++ unmark ms) ++ splitMarks [] 0 .code rest := by
  induction h generalizing piece last with
  | nil =>
    have hkind := Mark.kind_of_isCode hm
    rw [List.nil_append, splitMarks, if_neg (by simp [Mark.startsComment, hkind]),
      if_pos (by simp [Mark.endsStatement, hm]), hkind]
    simp [unmark]
  | @plain a ms ho hc ha _ ih =>
    rw [List.cons_append, splitMarks_outside ha, Mark.depth_of_plain ho hc, ih]
    simp [unmark]
  | @bracket o c inner ms ho hc hinner _ ih =>
    -- an opening bracket ends nothing, and inside it nothing does
    have hbounds : o.boundsStatement = false := by
      simp [Mark.boundsStatement, Mark.kind_of_opens ho,
        Mark.isCode_of_opens ho (show isOpener ';' = false from rfl),
        Mark.isCode_of_opens ho (show isOpener '\n' = false from rfl)]
    rw [List.cons_append, splitMarks_outside hbounds, Mark.depth_of_opens ho, List.append_assoc,
      List.cons_append, splitMarks_bracket hinner (Mark.closes_of_closesOf hc), ih]
    simp [unmark]

/-! ## 5. Lines -/

theorem statement_concat_blank {c : Char} (hc : isBlank c = true) (t : Text) :
    statement (t ++ [c]) = statement t := by
  have htrim : Text.trim (t ++ [c]) = Text.trim t := by
    obtain ⟨before, after, hb, ha, ht⟩ := Text.exists_trim t
    have hblanks : (after ++ [c]).all isBlank = true := by
      rw [List.all_append, ha, List.all_cons, hc]
      rfl
    have hcut : t ++ [c] = before ++ (Text.trim t ++ (after ++ [c])) :=
      (congrArg (· ++ [c]) ht).trans (by simp only [List.append_assoc])
    rw [hcut, Text.trim, Text.trimStart, List.dropWhile_append_of_pos (List.all_eq_true.1 hb)]
    exact (Text.isTrimmed_trim t).trim_append_blanks hblanks
  rw [statement, statement, htrim]

/-- Blanks at the end are no statement and no part of one. -/
theorem splitMarks_blanks {w : Text} (hw : w.all isBlank = true) (piece : Text) (depth : Nat)
    (last : Kind) : splitMarks piece depth last (w.map codeMark) = statement piece.reverse := by
  induction w generalizing piece depth last with
  | nil => rfl
  | cons c w ih =>
    rw [List.all_cons, Bool.and_eq_true] at hw
    rw [List.map_cons, splitMarks, if_neg (by simp [Mark.startsComment, codeMark])]
    split
    · rw [ih hw.2]
      exact List.append_nil _
    · rw [ih hw.2]
      show statement (List.reverse (c :: piece)) = _
      rw [List.reverse_cons, statement_concat_blank hw.1]

/-- Blanks behind a line change nothing in it. -/
theorem splitMarks_line {ms : List Mark} (hms : ∀ m ∈ ms, m.char ≠ '\n') {w : Text}
    (hw : w.all isBlank = true) (piece : Text) (depth : Nat) (last : Kind) :
    splitMarks piece depth last (ms ++ w.map codeMark) = splitMarks piece depth last ms := by
  induction ms generalizing piece depth last with
  | nil => exact splitMarks_blanks hw piece depth last
  | cons m ms ih =>
    have hbreak : m.isCode '\n' = false := by
      simp [Mark.isCode, hms m List.mem_cons_self]
    -- only a line break looks at what follows it
    have hends (rest : List Mark) :
        m.endsStatement piece depth rest = (decide (depth = 0) && m.isCode ';') := by
      simp [Mark.endsStatement, hbreak]
    have ih := ih fun n hn => hms n (List.mem_cons_of_mem m hn)
    rw [List.cons_append, splitMarks, splitMarks, hends, hends]
    simp only [ih]

theorem splitStatements_line {t w : Text} (ht : '\n' ∉ t) (hmode : finalMode t = .code)
    (hw : w.all isBlank = true) : splitStatements (t ++ w) = splitStatements t := by
  have hms : ∀ m ∈ marks t, m.char ≠ '\n' := by
    intro m hm hc
    have hmem : m.char ∈ unmark (marks t) := List.mem_map_of_mem hm
    rw [unmark_marks, hc] at hmem
    exact ht hmem
  rw [splitStatements, splitStatements, marks_append hmode (.of_blanks hw t),
    marks_plain (Text.all_mono isPlain_of_isBlank hw), splitMarks_line hms hw]

end Parlance.Source
