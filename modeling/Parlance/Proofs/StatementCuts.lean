import Parlance.Proofs.Statement

/-!
Where statements are cut. A cut stands in code mode, so what follows it is read and cut like a text
of its own, and a statement that is cut out of a text is cut nowhere when it stands alone.
-/

namespace Parlance.Source

/-! ## 1. Between two characters -/

/-- What the splitter knows between two characters: the statement being read, last character first,
the bracket depth, and what the character before belongs to. -/
structure Splitting where
  piece : Text
  depth : Nat
  last : Kind

namespace Splitting

variable {σ : Splitting} {m : Mark} {ms rest : List Mark}

def start : Splitting := ⟨[], 0, .code⟩

def next (σ : Splitting) (m : Mark) : Splitting := ⟨m.char :: σ.piece, m.depth σ.depth, m.kind⟩

def after (σ : Splitting) (ms : List Mark) : Splitting := ms.foldl next σ

/-- Whether a comment that begins with a character ends the statement before it. -/
def cutsBefore (σ : Splitting) (m : Mark) : Bool :=
  m.startsComment σ.last σ.depth && !Text.allBlank σ.piece

def cutsAt (σ : Splitting) (m : Mark) (rest : List Mark) : Bool :=
  m.endsStatement σ.piece σ.depth rest

def statements (σ : Splitting) (ms : List Mark) : List Text :=
  splitMarks σ.piece σ.depth σ.last ms

theorem statements_end (σ : Splitting) : σ.statements [] = statement σ.piece.reverse := rfl

theorem statements_cutBefore (h : σ.cutsBefore m = true) :
    σ.statements (m :: rest) =
      statement σ.piece.reverse ++ splitMarks [m.char] σ.depth m.kind rest := by
  rw [statements, splitMarks]
  exact if_pos h

theorem statements_cutAt (hc : σ.cutsBefore m = false) (he : σ.cutsAt m rest = true) :
    σ.statements (m :: rest) =
      statement σ.piece.reverse ++ splitMarks [] σ.depth m.kind rest := by
  have hc : ¬(m.startsComment σ.last σ.depth && !Text.allBlank σ.piece) = true :=
    Bool.eq_false_iff.1 hc
  rw [statements, splitMarks, if_neg hc]
  exact if_pos he

theorem statements_next (hc : σ.cutsBefore m = false) (he : σ.cutsAt m rest = false) :
    σ.statements (m :: rest) = (σ.next m).statements rest := by
  have hc : ¬(m.startsComment σ.last σ.depth && !Text.allBlank σ.piece) = true :=
    Bool.eq_false_iff.1 hc
  have he : ¬m.endsStatement σ.piece σ.depth rest = true := Bool.eq_false_iff.1 he
  rw [statements, splitMarks, if_neg hc, if_neg he]
  rfl

theorem piece_after (σ : Splitting) (ms : List Mark) :
    (σ.after ms).piece = (unmark ms).reverse ++ σ.piece := by
  induction ms generalizing σ with
  | nil => rfl
  | cons m ms ih => exact (ih (σ.next m)).trans (by simp [next])

theorem depth_after (σ : Splitting) (ms : List Mark) :
    (σ.after ms).depth = depthAfter σ.depth ms := by
  induction ms generalizing σ with
  | nil => rfl
  | cons m ms ih => exact ih (σ.next m)

theorem last_after (σ : Splitting) (ms : List Mark) :
    (σ.after ms).last = lastKind σ.last ms := by
  induction ms generalizing σ with
  | nil => rfl
  | cons m ms ih => exact ih (σ.next m)

theorem piece_after_start (ms : List Mark) : (start.after ms).piece.reverse = unmark ms := by
  rw [piece_after, show start.piece = [] from rfl, List.append_nil, List.reverse_reverse]

/-! ## 2. Marks at which nothing is cut -/

/-- Some marked characters at none of which a statement is cut, if `rest` stands behind them. -/
inductive Uncut (rest : List Mark) : Splitting → List Mark → Prop
  | nil {σ : Splitting} : Uncut rest σ []
  | cons {σ : Splitting} {m : Mark} {ms : List Mark} (hc : σ.cutsBefore m = false)
      (he : σ.cutsAt m (ms ++ rest) = false) (h : Uncut rest (σ.next m) ms) :
      Uncut rest σ (m :: ms)

theorem uncut_cons_iff : Uncut rest σ (m :: ms) ↔
    σ.cutsBefore m = false ∧ σ.cutsAt m (ms ++ rest) = false ∧ Uncut rest (σ.next m) ms := by
  constructor
  · rintro (_ | ⟨hc, he, h⟩)
    exact ⟨hc, he, h⟩
  · rintro ⟨hc, he, h⟩
    exact .cons hc he h

theorem Uncut.statements_append (h : Uncut rest σ ms) :
    σ.statements (ms ++ rest) = (σ.after ms).statements rest := by
  induction h with
  | nil => rfl
  | cons hc he _ ih => rw [List.cons_append, statements_next hc he, ih]; rfl

theorem Uncut.front {ns : List Mark} (h : Uncut rest σ (ms ++ ns)) : Uncut (ns ++ rest) σ ms := by
  induction ms generalizing σ with
  | nil => exact .nil
  | cons m ms ih =>
    rw [List.cons_append, uncut_cons_iff, List.append_assoc] at h
    obtain ⟨hc, he, h⟩ := h
    exact .cons hc he (ih h)

/-- Behind a last character that is not blank nothing matters: only a line break looks ahead, and
no further than to the next such character. -/
theorem Uncut.of_last {last : Mark} (h : Uncut rest σ (ms ++ [last]))
    (hlast : isBlank last.char = false) (rest' : List Mark) : Uncut rest' σ (ms ++ [last]) := by
  have hbreak : last.isCode '\n' = false := by
    have hne : last.char ≠ '\n' := by
      intro hc
      rw [hc] at hlast
      exact absurd hlast (by decide)
    simp [Mark.isCode, hne]
  induction ms generalizing σ with
  | nil =>
    obtain ⟨hc, he, -⟩ := uncut_cons_iff.1 h
    refine .cons hc ?_ .nil
    simpa [cutsAt, Mark.endsStatement, hbreak] using he
  | cons m ms ih =>
    rw [List.cons_append, uncut_cons_iff, List.append_assoc, List.singleton_append] at h
    obtain ⟨hc, he, h⟩ := h
    rw [cutsAt, endsStatement_append hlast rest] at he
    rw [List.cons_append, uncut_cons_iff, List.append_assoc, List.singleton_append]
    refine ⟨hc, ?_, ih h⟩
    rw [cutsAt, endsStatement_append hlast rest', he]

/-- The first cut of some marked characters: before a comment, or at a character that ends a
statement. -/
theorem exists_cut (σ : Splitting) (ms : List Mark) :
    ∃ front rest, ms = front ++ rest ∧ Uncut rest σ front ∧
      (rest = [] ∨ ∃ m more, rest = m :: more ∧
        ((σ.after front).cutsBefore m = true ∨
          (σ.after front).cutsBefore m = false ∧ (σ.after front).cutsAt m more = true)) := by
  induction ms generalizing σ with
  | nil => exact ⟨[], [], rfl, .nil, .inl rfl⟩
  | cons m ms ih =>
    -- the splitter asks for a comment first
    cases hc : σ.cutsBefore m with
    | true => exact ⟨[], m :: ms, rfl, .nil, .inr ⟨m, ms, rfl, .inl hc⟩⟩
    | false =>
      cases he : σ.cutsAt m ms with
      | true => exact ⟨[], m :: ms, rfl, .nil, .inr ⟨m, ms, rfl, .inr ⟨hc, he⟩⟩⟩
      | false =>
        obtain ⟨front, rest, rfl, huncut, hcut⟩ := ih (σ.next m)
        exact ⟨m :: front, rest, rfl, .cons hc he huncut, hcut⟩

end Splitting

/-! ## 3. Statements that stand alone -/

open Splitting (Uncut start)

/-- A text that is cut nowhere: one statement, or none if it is blank. -/
def IsWhole (s : Text) : Prop := Uncut [] start (marks s)

theorem statement_eq {t : Text} (h : Text.trim t ≠ []) : statement t = [Text.trim t] :=
  if_neg (by simpa using h)

theorem IsWhole.splitStatements_eq {s : Text} (h : IsWhole s) (htrim : Text.IsTrimmed s)
    (hne : s ≠ []) : splitStatements s = [s] := by
  have hcut := h.statements_append
  rw [List.append_nil, Splitting.statements_end, Splitting.piece_after_start, unmark_marks,
    statement_eq (by rwa [htrim.trim_eq]), htrim.trim_eq] at hcut
  exact hcut

/-! ## 4. Reading at a cut -/

/-- What stands before and behind a cut is read like a text of its own. -/
theorem marks_at_cut {t : Text} {front more : List Mark} {m : Mark}
    (h : marks t = front ++ m :: more)
    (hcut : (start.after front).cutsBefore m = true ∨ (start.after front).cutsAt m more = true) :
    marks (unmark front) = front ∧ marks (unmark (m :: more)) = m :: more := by
  have hread : read .code t = (front ++ m :: more, finalMode t) := Prod.ext h rfl
  -- a cut stands before a comment, or at a semicolon or line break of code
  rcases hcut with hcut | hcut
  · simp only [Splitting.cutsBefore, Mark.startsComment, Bool.and_eq_true, decide_eq_true_eq,
      Splitting.last_after] at hcut
    obtain ⟨hfront, hmore⟩ := read_at_comment hread hcut.1.1.1 hcut.1.1.2 (by simp [Mode.IsComment])
    exact ⟨congrArg Prod.fst hfront, congrArg Prod.fst hmore⟩
  · simp only [Splitting.cutsAt, Mark.endsStatement, Bool.and_eq_true, Bool.or_eq_true] at hcut
    have hm : m.kind = .code ∧ isPlain m.char = true := by
      rcases hcut.2 with hc | ⟨hc, -⟩
      · exact ⟨Mark.kind_of_isCode hc, by rw [Mark.char_of_isCode hc]; rfl⟩
      · exact ⟨Mark.kind_of_isCode hc, by rw [Mark.char_of_isCode hc]; rfl⟩
    exact ⟨marks_before_code h hm.1, congrArg Prod.fst (read_of_code h hm.1 hm.2)⟩

/-- Behind a cut the text is cut like a text of its own. -/
theorem statements_at_cut {σ : Splitting} {m : Mark} {more : List Mark}
    (hmore : marks (unmark (m :: more)) = m :: more)
    (hcut : σ.cutsBefore m = true ∨ σ.cutsBefore m = false ∧ σ.cutsAt m more = true) :
    σ.depth = 0 ∧
      σ.statements (m :: more) =
        statement σ.piece.reverse ++ splitStatements (unmark (m :: more)) := by
  rcases hcut with hcut | ⟨hc, hcut⟩
  · -- a comment is the beginning of the next statement
    have hcomment := hcut
    simp only [Splitting.cutsBefore, Mark.startsComment, Bool.and_eq_true, decide_eq_true_eq]
      at hcomment
    obtain ⟨⟨⟨hkind, -⟩, hdepth⟩, -⟩ := hcomment
    refine ⟨hdepth, ?_⟩
    have hnext : splitMarks [] 0 .code (m :: more) = splitMarks [m.char] 0 m.kind more := by
      rw [splitMarks, if_neg (by simp [Text.allBlank]),
        if_neg (by simp [Mark.endsStatement, Mark.isCode, hkind]),
        Mark.depth_of_not_code (by rw [hkind]; decide)]
    rw [Splitting.statements_cutBefore hcut, hdepth, splitStatements, hmore, hnext]
  · have hends := hcut
    simp only [Splitting.cutsAt, Mark.endsStatement, Bool.and_eq_true, Bool.or_eq_true,
      decide_eq_true_eq] at hends
    obtain ⟨hdepth, hend⟩ := hends
    refine ⟨hdepth, ?_⟩
    have hkind : m.kind = .code := by
      rcases hend with hm | ⟨hm, -⟩ <;> exact Mark.kind_of_isCode hm
    have hmarks : marks (unmark more) = more :=
      @marks_after_code (unmark (m :: more)) [] more m hmore hkind
    have hdropped : splitStatements (unmark (m :: more)) = splitStatements (unmark more) := by
      rw [unmark_cons]
      rcases hend with hm | ⟨hm, -⟩
      · rw [Mark.char_of_isCode hm, splitStatements_semicolon_cons]
      · rw [Mark.char_of_isCode hm, splitStatements_blank_cons (by decide)]
    rw [Splitting.statements_cutAt hc hcut, hdepth, hkind, hdropped, splitStatements, hmarks]

/-! ## 5. The first statement of a text -/

/-- A text that begins with a statement. Blanks and the rest of the text follow it, and the rest is
read and cut like a text of its own. -/
structure BeginsWith (t s : Text) (blanks : List Mark) (rest : Text) : Prop where
  ne_nil : s ≠ []
  isTrimmed : Text.IsTrimmed s
  isWhole : IsWhole s
  isBlank : (unmark blanks).all isBlank = true
  reading : marks t = marks s ++ (blanks ++ marks rest)
  depth : rest ≠ [] → depthAfter 0 (marks s) = 0
  statements : splitStatements t = s :: splitStatements rest

theorem BeginsWith.length_lt {t s rest : Text} {blanks : List Mark}
    (h : BeginsWith t s blanks rest) : rest.length < t.length := by
  have hlength := congrArg List.length h.reading
  have hpos := List.length_pos_iff.2 h.ne_nil
  simp only [List.length_append, length_marks] at hlength
  omega

theorem marks_trimEnd {u : Text} {front back : List Mark} (h : marks u = front ++ back)
    (hback : (unmark back).all isBlank = true) : marks (unmark front) = front := by
  have hu : u = unmark front ++ unmark back := by rw [← unmark_append, ← h, unmark_marks]
  obtain ⟨tail, htail, -⟩ := marks_append_blanks hback (unmark front)
  rw [← hu, h] at htail
  exact (List.append_inj htail (by rw [length_marks, unmark, List.length_map])).1.symm

/-- What stands before the first cut of a text: `front` is read alone as it is read there, and so is
`rest`, which begins at the cut. -/
structure FirstCut (t : Text) (front rest : List Mark) : Prop where
  reading : marks t = front ++ rest
  front_alone : marks (unmark front) = front
  rest_alone : marks (unmark rest) = rest
  uncut : Uncut rest start front
  cut : ∀ m more, rest = m :: more →
    (start.after front).cutsBefore m = true ∨ (start.after front).cutsAt m more = true
  depth : rest ≠ [] → depthAfter 0 front = 0
  statements : splitStatements t = statement (unmark front) ++ splitStatements (unmark rest)

theorem exists_firstCut (t : Text) : ∃ front rest, FirstCut t front rest := by
  obtain ⟨front, rest, hms, huncut, hcut⟩ := Splitting.exists_cut start (marks t)
  have hpiece := Splitting.piece_after_start front
  have hstatements : splitStatements t = (start.after front).statements rest := by
    rw [← huncut.statements_append, ← hms]
    rfl
  refine ⟨front, rest, ?_⟩
  -- without a cut all of the text is the first statement
  rcases hcut with rfl | ⟨m, more, rfl, hcut⟩
  · rw [List.append_nil] at hms
    refine ⟨by rw [List.append_nil, hms], by rw [← hms, unmark_marks], rfl, huncut, by simp,
      fun h => absurd rfl h, ?_⟩
    rw [hstatements, Splitting.statements_end, hpiece]
    exact (List.append_nil _).symm
  · have hends := hcut.imp_right And.right
    obtain ⟨hfront, hrest⟩ := marks_at_cut hms hends
    obtain ⟨hdepth, hbehind⟩ := statements_at_cut hrest hcut
    rw [Splitting.depth_after] at hdepth
    refine ⟨hms, hfront, hrest, huncut, ?_, fun _ => hdepth, by rw [hstatements, hbehind, hpiece]⟩
    rintro m' more' heq
    obtain ⟨rfl, rfl⟩ := List.cons.inj heq
    exact hends

/-- The first character of a text ends no statement if it is neither a blank nor a semicolon, so
something stands before the first cut. -/
theorem FirstCut.exists_unmark {c : Char} {t : Text} {front rest : List Mark}
    (h : FirstCut (c :: t) front rest) (hblank : isBlank c = false) (hsemi : c ≠ ';') :
    ∃ u, unmark front = c :: u := by
  have htext : unmark front ++ unmark rest = c :: t := by
    rw [← unmark_append, ← h.reading, unmark_marks]
  cases front with
  | cons m front =>
    obtain ⟨hm, -⟩ := List.cons.inj htext
    exact ⟨unmark front, by rw [unmark_cons, hm]⟩
  | nil =>
    exfalso
    cases rest with
    | nil => simp at htext
    | cons m more =>
      obtain ⟨hm, -⟩ := List.cons.inj htext
      have hbreak : c ≠ '\n' := by
        rintro rfl
        exact absurd hblank (by decide)
      rcases h.cut m more rfl with hcut | hcut
      · simp [Splitting.cutsBefore, Splitting.after, start, Text.allBlank] at hcut
      · simp [Splitting.cutsAt, Mark.endsStatement, Mark.isCode, hm, hsemi, hbreak] at hcut

/-- Marks of which the first is not blank, without the blanks at their end. -/
theorem exists_trim_unmark {c : Char} {u : Text} {front : List Mark} (h : unmark front = c :: u)
    (hblank : isBlank c = false) :
    ∃ ms last blanks, front = ms ++ [last] ++ blanks ∧ isBlank last.char = false ∧
      unmark (ms ++ [last]) = Text.trim (unmark front) ∧ (unmark blanks).all isBlank = true := by
  have htrim : Text.trim (unmark front) = c :: Text.trimEnd u := by
    rw [h, Text.trim, Text.trimStart, List.dropWhile_cons, if_neg (by simp [hblank]),
      Text.trimEnd_cons hblank]
  obtain ⟨blanks, hblanks, hu⟩ := Text.exists_trimEnd u
  have hsplit : unmark front = Text.trim (unmark front) ++ blanks := by
    rw [htrim, h, List.cons_append, ← hu]
  obtain ⟨kept, back, hfront, hkept, hback⟩ := List.map_eq_append_iff.1 hsplit
  rcases List.eq_nil_or_concat kept with rfl | ⟨ms, last, rfl⟩
  · rw [htrim] at hkept
    exact absurd hkept (by simp)
  rw [List.concat_eq_append] at hfront hkept
  refine ⟨ms, last, back, hfront, ?_, hkept, ?_⟩
  · have hlast := (Text.isTrimmed_trim (unmark front)).last
    rw [← hkept, List.map_append, List.map_singleton, List.getLast?_concat] at hlast
    simpa using hlast
  · rw [show unmark back = blanks from hback]
    exact hblanks

/-- A text that begins neither with a blank nor with a semicolon begins with a statement. -/
theorem exists_beginsWith {c : Char} (hblank : isBlank c = false) (hsemi : c ≠ ';') (t : Text) :
    ∃ s blanks rest, BeginsWith (c :: t) s blanks rest := by
  obtain ⟨front, rest, hfirst⟩ := exists_firstCut (c :: t)
  obtain ⟨u, hu⟩ := hfirst.exists_unmark hblank hsemi
  obtain ⟨ms, last, blanks, hfront, hlast, htext, hblanks⟩ := exists_trim_unmark hu hblank
  have hne : Text.trim (unmark front) ≠ [] := by
    rw [← htext]
    simp
  -- the statement is read in front of the blanks as it is read alone
  have hmarks : marks (Text.trim (unmark front)) = ms ++ [last] := by
    rw [← htext]
    exact marks_trimEnd (hfirst.front_alone.trans hfront) hblanks
  refine ⟨Text.trim (unmark front), blanks, unmark rest, hne, Text.isTrimmed_trim _, ?_, hblanks,
    ?_, ?_, ?_⟩
  · have huncut := hfirst.uncut
    rw [hfront] at huncut
    rw [IsWhole, hmarks]
    exact huncut.front.of_last hlast []
  · rw [hfirst.reading, hmarks, hfirst.rest_alone, hfront, List.append_assoc]
  · intro hrest
    have hdepth := hfirst.depth (by rintro rfl; exact hrest rfl)
    rwa [hfront, depthAfter_append, depthAfter_of_isBlank hblanks, ← hmarks] at hdepth
  · rw [hfirst.statements, statement_eq hne]
    rfl

/-- A text is nothing, a blank or a semicolon with a text behind it, or a statement with a text
behind it. -/
theorem statement_induction {P : Text → Prop} (nil : P [])
    (blank : ∀ c t, isBlank c = true → P t → P (c :: t)) (semicolon : ∀ t, P t → P (';' :: t))
    (begins : ∀ t s blanks rest, BeginsWith t s blanks rest → P rest → P t) (t : Text) : P t := by
  match t with
  | [] => exact nil
  | c :: t =>
    by_cases hblank : isBlank c = true
    · exact blank c t hblank (statement_induction nil blank semicolon begins t)
    by_cases hsemi : c = ';'
    · rw [hsemi]
      exact semicolon t (statement_induction nil blank semicolon begins t)
    obtain ⟨s, blanks, rest, h⟩ := exists_beginsWith (by simpa using hblank) hsemi t
    have hshorter : rest.length < (c :: t).length := h.length_lt
    exact begins _ s blanks rest h (statement_induction nil blank semicolon begins rest)
termination_by t.length
decreasing_by
  · exact Nat.lt_succ_self _
  · exact Nat.lt_succ_self _
  · exact hshorter

/-- Every statement of a text is cut nowhere when it stands alone. -/
theorem isWhole_of_mem_splitStatements {t s : Text} (h : s ∈ splitStatements t) :
    s ≠ [] ∧ Text.IsTrimmed s ∧ IsWhole s := by
  induction t using statement_induction with
  | nil => exact absurd h List.not_mem_nil
  | blank c t hblank ih =>
    rw [splitStatements_blank_cons hblank] at h
    exact ih h
  | semicolon t ih =>
    rw [splitStatements_semicolon_cons] at h
    exact ih h
  | begins t first blanks rest hfirst ih =>
    rw [hfirst.statements] at h
    rcases List.mem_cons.1 h with rfl | h
    · exact ⟨hfirst.ne_nil, hfirst.isTrimmed, hfirst.isWhole⟩
    · exact ih h

/-- Nothing but blanks and semicolons stands before the first statement. -/
theorem exists_first {t s : Text} (h : (splitStatements t).head? = some s) :
    ∃ lead rest, t = lead ++ rest ∧ lead.all (fun c => isBlank c || c = ';') = true ∧
      s <+: rest := by
  induction t using statement_induction with
  | nil =>
    rw [@splitStatements_blanks [] rfl] at h
    exact absurd h (by simp)
  | blank c t hblank ih =>
    rw [splitStatements_blank_cons hblank] at h
    obtain ⟨lead, rest, rfl, hlead, hs⟩ := ih h
    exact ⟨c :: lead, rest, rfl, by simp [hblank, hlead], hs⟩
  | semicolon t ih =>
    rw [splitStatements_semicolon_cons] at h
    obtain ⟨lead, rest, rfl, hlead, hs⟩ := ih h
    exact ⟨';' :: lead, rest, rfl, by simp [hlead], hs⟩
  | begins t first blanks rest hfirst ih =>
    rw [hfirst.statements] at h
    obtain rfl := Option.some.inj h
    -- a statement begins the text as it is read there
    refine ⟨[], t, rfl, rfl, unmark (blanks ++ marks rest), ?_⟩
    rw [← unmark_marks t, hfirst.reading, unmark_append (marks first), unmark_marks]

/-- A line whose reading ends in code does not begin with a comment up to the end of the line. -/
theorem after?_eq_none_of_line {t s : Text} (ht : '\n' ∉ t) (hmode : finalMode t = .code)
    (h : (splitStatements t).head? = some s) : Text.after? "//" s = none := by
  cases hs : Text.after? "//" s with
  | none => rfl
  | some x =>
    obtain ⟨lead, rest, rfl, hlead, more, rfl⟩ := exists_first h
    have hplain : lead.all isPlain = true :=
      Text.all_mono (isPlain_of_holds (by decide) (by decide) (by decide) (by decide)) hlead
    rw [Text.eq_append_of_after? hs] at ht hmode
    have hx : (x ++ more).all (· ≠ '\n') = true := by
      rw [List.all_eq_true]
      intro c hc
      have hne : c ≠ '\n' := by
        rintro rfl
        exact ht (by simp [List.mem_append.1 hc])
      simpa using hne
    rw [finalMode_plain_append hplain] at hmode
    -- no line feed closes the comment, so the text would end in it
    have hopen : finalMode ("//".toList ++ x ++ more) = .lineComment := by
      show (read .code ('/' :: '/' :: x ++ more)).2 = _
      simp only [List.cons_append, read, read_lineComment_end hx]
    rw [hopen] at hmode
    exact absurd hmode (by decide)

end Parlance.Source
