import Parlance.Proofs.Chain

/-!
Calls whose arguments balance. The parenthesis behind such arguments is the one that closes the
call, so the call is read back as it is written, is one statement up to the semicolon behind it, and
a bracketed text among the arguments is no place to cut them.
-/

namespace Parlance.Source

/-! ## 1. Reading a call -/

def callText (name args : Text) : Text := name ++ ('(' :: args ++ [')'])

section Call

variable {name args : Text}

/-- A call begins with its name, so that a chain skips no blanks before it. -/
theorem readChain_callText_eq (hname : isName name = true) (args : Text) :
    readChain (callText name args) = readLinks (callText name args) ∧
      splitName (callText name args) = some (name, '(' :: args ++ [')']) := by
  refine ⟨?_, @splitName_append name [] ('(' :: args ++ [')']) hname rfl rfl⟩
  cases name with
  | nil => exact absurd hname Bool.false_ne_true
  | cons c name =>
    simp only [isName, Bool.and_eq_true] at hname
    have hblank := isCodeBlank_of_isNamePart (isNamePart_of_isNameStart hname.1)
    unfold readChain callText
    rw [List.cons_append, skipBlanks, List.dropWhile_cons, if_neg (by simp [hblank])]

theorem readChain_callText (hname : isName name = true) (hargs : IsArgumentList args) :
    readChain (callText name args) = some [⟨name, some args⟩] := by
  obtain ⟨hchain, hsplit⟩ := readChain_callText_eq hname args
  have hcall : splitCall ('(' :: args ++ [')']) = some (some args, []) := by
    rw [List.cons_append, splitCall, hargs.enclosed?_append (show isCloser ')' = true by decide)]
    rfl
  rw [hchain, readLinks_of_end hsplit hcall]

/-- A call that is read as one has the arguments that are written between its parentheses, and they
balance. -/
theorem of_readChain_callText (hname : isName name = true) {l : Link} {written : Text}
    (h : readChain (callText name args) = some [l]) (hl : l.args = some written) :
    written = args ∧ IsArgumentList args := by
  obtain ⟨hchain, hsplit⟩ := readChain_callText_eq hname args
  rw [hchain] at h
  obtain ⟨k, after, rest, more, heq, hn, hc, htail⟩ := readLinks_cases h
  obtain ⟨rfl, rfl⟩ := List.cons.inj heq
  rw [hsplit] at hn
  obtain ⟨-, rfl⟩ := Prod.mk.inj (Option.some.inj hn)
  -- nothing follows the only link
  obtain rfl : rest = [] := by
    rcases htail with ⟨hrest, -⟩ | ⟨tail, -, hmore⟩
    · exact hrest
    · obtain ⟨k, -, -, more, hnil, -⟩ := readLinks_cases hmore
      exact absurd hnil (by simp)
  rcases splitCall_cases hc with ⟨hnone, -⟩ | ⟨inner, tail, behind, gap, hsome, hopen, hs, hgap, rfl⟩
  · rw [hnone] at hl
    exact absurd hl (by simp)
  · rw [hsome] at hl
    obtain rfl := Option.some.inj hl
    rw [List.append_nil] at hs
    obtain ⟨-, rfl⟩ := List.cons.inj hopen
    obtain ⟨hlist, c, hcloser, htext⟩ := of_enclosed? hs
    -- only blanks follow the closer, so it is the parenthesis at the end
    obtain ⟨rfl, -, -⟩ := Text.cut_last_unique htext rfl
      (Text.all_mono (fun _ => isBlank_of_isCodeBlank) hgap) (by decide)
      (isBlank_of_isCloser hcloser)
    exact ⟨rfl, hlist⟩

/-- The arguments of a call balance wherever it has been read in a chain. -/
theorem isArgumentList_of_readLinks {t : Text} {links : List Link} (h : readLinks t = some links)
    {l : Link} (hl : l ∈ links) (hargs : l.args = some args) : IsArgumentList args := by
  -- along the links, since only the first is read from this text
  induction links generalizing t with
  | nil => exact absurd hl List.not_mem_nil
  | cons first links ih =>
    obtain ⟨k, after, rest, more, heq, -, hc, htail⟩ := readLinks_cases h
    obtain ⟨rfl, rfl⟩ := List.cons.inj heq
    rcases List.mem_cons.1 hl with rfl | hl
    · rcases splitCall_cases hc with ⟨hnone, -⟩ | ⟨inner, tail, behind, gap, hsome, -, hs, -, -⟩
      · rw [hnone] at hargs
        exact absurd hargs (by simp)
      · rw [hsome] at hargs
        obtain rfl := Option.some.inj hargs
        exact (of_enclosed? hs).1
    · rcases htail with ⟨-, rfl⟩ | ⟨tail, -, hmore⟩
      · exact absurd hl List.not_mem_nil
      · exact ih hmore hl

/-! ## 2. A call as a statement -/

theorem isTrimmed_of_isName (hname : isName name = true) : Text.IsTrimmed name := by
  have hblank (c : Char) (hc : c ∈ name) : isBlank c = false :=
    isBlank_of_isNamePart (List.all_eq_true.1 (all_isNamePart hname) c hc)
  refine ⟨?_, ?_⟩
  · rw [Option.all_eq_true]
    intro c hc
    rw [hblank c (List.mem_of_head? hc)]
    rfl
  · rw [Option.all_eq_true]
    intro c hc
    rw [hblank c (List.mem_of_getLast? hc)]
    rfl

theorem isTrimmed_callText (hname : isName name = true) (args : Text) :
    Text.IsTrimmed (callText name args) := by
  have hne : name ≠ [] := by
    rintro rfl
    exact absurd hname Bool.false_ne_true
  apply (isTrimmed_of_isName hname).append hne
  rw [List.getLast?_concat]
  rfl

theorem splitMarks_flat {s : Text} (hs : s.all isFlat = true) (piece : Text) (rest : List Mark) :
    splitMarks piece 0 .code (s.map codeMark ++ rest) =
      splitMarks (s.reverse ++ piece) 0 .code rest := by
  induction s generalizing piece with
  | nil => rfl
  | cons c s ih =>
    simp only [List.all_cons, Bool.and_eq_true] at hs
    obtain ⟨hc, hs⟩ := hs
    simp only [isFlat, Bool.and_eq_true, Bool.not_eq_true', ne_eq, decide_eq_true_eq] at hc
    obtain ⟨⟨⟨⟨-, hopen⟩, hclose⟩, hsemi⟩, hline⟩ := hc
    have hbounds : (codeMark c).boundsStatement = false := by
      simp [Mark.boundsStatement, Mark.isCode, codeMark, hsemi, hline]
    rw [List.map_cons, List.cons_append, splitMarks_outside hbounds,
      Mark.depth_of_char hopen hclose 0]
    exact (ih hs (c :: piece)).trans (by simp)

/-- A call is a statement up to the semicolon behind it. -/
theorem splitStatements_callText (hname : isName name = true) (hargs : IsArgumentList args)
    (rest : Text) :
    splitStatements (callText name args ++ ';' :: rest) =
      callText name args :: splitStatements rest := by
  have hpart := all_isNamePart hname
  have hflat : name.all isFlat = true := Text.all_mono isFlat_of_isNamePart hpart
  have htext : callText name args ++ ';' :: rest =
      name ++ '(' :: (args ++ ')' :: ';' :: rest) := by
    simp [callText]
  have hmarks : marks (callText name args ++ ';' :: rest) =
      name.map codeMark ++
        codeMark '(' :: (marks args ++ codeMark ')' :: codeMark ';' :: marks rest) := by
    rw [htext, marks_plain_append (Text.all_mono isPlain_of_isNamePart hpart),
      marks_plain_cons (by decide), marks_append_cons hargs.mode (by decide) (by decide),
      marks_plain_cons (by decide)]
  have hdepth : (codeMark '(').depth 0 = 0 + 1 := by decide
  have hclose : (codeMark ')').closes = true := by decide
  -- the whole call is the piece that has been read when the semicolon comes
  have hpiece : ((codeMark ')').char :: ((unmark (marks args)).reverse ++
      (codeMark '(').char :: (name.reverse ++ []))).reverse = callText name args := by
    simp [callText, codeMark]
  have hcall : statement (callText name args) = [callText name args] := by
    have hne : callText name args ≠ [] := by simp [callText]
    simp [statement, (isTrimmed_callText hname args).trim_eq, hne]
  rw [splitStatements, hmarks, splitMarks_flat hflat, splitMarks_outside (by decide), hdepth,
    splitMarks_height? (hargs.balanced.height? 0) hclose, splitMarks,
    if_neg (by simp [Mark.startsComment, codeMark]),
    if_pos (by simp [Mark.endsStatement, Mark.isCode, codeMark]), hpiece, hcall]
  rfl

end Call

end Parlance.Source
