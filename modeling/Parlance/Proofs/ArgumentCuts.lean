import Parlance.Proofs.Statement

/-!
Where argument lists are cut. An argument is read on its own as it is read in its list, but for a
line comment at its end: the line feed that ends the comment is trimmed away. Arguments that leave
nothing open, joined by commas, are cut where they were joined, and no others are.
-/

namespace Parlance.Source

/-! ## 1. Commas outside brackets -/

/-- Whether a comma stands outside brackets, `depth` of which are open before. -/
def hasComma (depth : Nat) : List Mark → Bool
  | [] => false
  | m :: rest => m.isCode ',' && depth = 0 || hasComma (m.depth depth) rest

theorem Mark.depth_of_comma {m : Mark} (h : m.isCode ',' = true) (depth : Nat) :
    m.depth depth = depth :=
  Mark.depth_of_char (by rw [Mark.char_of_isCode h]; rfl) (by rw [Mark.char_of_isCode h]; rfl) depth

theorem hasComma_append (depth : Nat) (ms ns : List Mark) :
    hasComma depth (ms ++ ns) = (hasComma depth ms || hasComma (depthAfter depth ms) ns) := by
  induction ms generalizing depth with
  | nil => rfl
  | cons m ms ih => rw [List.cons_append, hasComma, hasComma, ih, depthAfter_cons, Bool.or_assoc]

theorem hasComma_of_isCode {ms : List Mark} (h : ∀ m ∈ ms, m.isCode ',' = false) (depth : Nat) :
    hasComma depth ms = false := by
  induction ms generalizing depth with
  | nil => rfl
  | cons m ms ih =>
    rw [hasComma, h m List.mem_cons_self, ih fun n hn => h n (List.mem_cons_of_mem m hn)]
    rfl

/-- No comma stands outside brackets while one of them stays open. -/
theorem hasComma_height? {depth k : Nat} {ms : List Mark}
    (h : allBrackets.height? depth ms = some k) : hasComma (depth + 1) ms = false := by
  fun_induction Brackets.height? allBrackets depth ms with
  | case1 depth => rfl
  | case2 => exact absurd h (by simp)
  | case3 m ms hm depth ih =>
    have hm : m.closes = true := hm
    rw [hasComma, Mark.depth_of_closes hm, Nat.add_sub_cancel, ih h]
    simp
  | case4 depth m ms hm ih =>
    have hm : m.closes = false := by simpa [allBrackets] using hm
    -- one bracket more is open here than there, so the depth is not zero at a comma
    have hnext : hasComma ((if m.opens then depth + 1 else depth) + 1) ms = false := ih h
    rw [hasComma, Mark.depth_of_not_closes hm, hnext]
    simp

theorem splitCommas_append {depth : Nat} {ms : List Mark} (h : hasComma depth ms = false)
    (piece : Text) (rest : List Mark) :
    splitCommas piece depth (ms ++ rest) =
      splitCommas ((unmark ms).reverse ++ piece) (depthAfter depth ms) rest := by
  induction ms generalizing piece depth with
  | nil => rfl
  | cons m ms ih =>
    rw [hasComma, Bool.or_eq_false_iff] at h
    rw [List.cons_append, splitCommas, if_neg (by rw [h.1]; decide), ih h.2]
    simp

theorem exists_comma {depth : Nat} {ms : List Mark} (h : hasComma depth ms = true) :
    ∃ front m rest, ms = front ++ m :: rest ∧ m.isCode ',' = true ∧
      hasComma depth front = false ∧ depthAfter depth front = 0 := by
  induction ms generalizing depth with
  | nil => exact absurd h Bool.false_ne_true
  | cons m ms ih =>
    cases hm : m.isCode ',' && depth = 0 with
    | true =>
      simp only [Bool.and_eq_true, decide_eq_true_eq] at hm
      exact ⟨[], m, ms, rfl, hm.1, rfl, hm.2⟩
    | false =>
      rw [hasComma, hm, Bool.false_or] at h
      obtain ⟨front, c, rest, rfl, hc, hfront, hdepth⟩ := ih h
      exact ⟨m :: front, c, rest, rfl, hc, by rw [hasComma, hm, hfront]; rfl, hdepth⟩

theorem hasComma_of_isBlank {ms : List Mark} (h : (unmark ms).all isBlank = true) (depth : Nat) :
    hasComma depth ms = false := by
  refine hasComma_of_isCode (fun m hm => ?_) depth
  have hblank := List.all_eq_true.1 h m.char (List.mem_map_of_mem hm)
  have hne : m.char ≠ ',' := of_decide_eq_true (Text.ne_of_holds (by decide) _ hblank)
  simp [Mark.isCode, hne]

/-! ## 2. Brackets around a comma -/

theorem depthAfter_of_height? {depth k : Nat} {ms : List Mark}
    (h : allBrackets.height? depth ms = some k) : depthAfter depth ms = k := by
  fun_induction Brackets.height? allBrackets depth ms with
  | case1 depth => exact Option.some.inj h
  | case2 => exact absurd h (by simp)
  | case3 m ms hm depth ih =>
    have hm : m.closes = true := hm
    rw [depthAfter_cons, Mark.depth_of_closes hm]
    exact ih h
  | case4 depth m ms hm ih =>
    have hm : m.closes = false := by simpa [allBrackets] using hm
    rw [depthAfter_cons, Mark.depth, hm]
    exact ih h

theorem balanced_of_isBlank {ms : List Mark} (h : (unmark ms).all isBlank = true) :
    allBrackets.Balanced ms := by
  refine Brackets.balanced_of_other fun m hm => ?_
  have hbracket := not_bracket_of_holds (by decide)
    (List.all_eq_true.1 h m.char (List.mem_map_of_mem hm))
  simp [allBrackets, Mark.opens, Mark.closes, hbracket]

/-- What balances on both sides of a place outside brackets. -/
theorem balanced_at_depth {ms ns : List Mark} (h : allBrackets.Balanced (ms ++ ns))
    (hdepth : depthAfter 0 ms = 0) : allBrackets.Balanced ms ∧ allBrackets.Balanced ns := by
  have hheight := Brackets.balanced_iff_height?.1 h
  rw [Brackets.height?_append] at hheight
  obtain ⟨k, hms, hns⟩ := Option.bind_eq_some_iff.1 hheight
  obtain rfl : 0 = k := hdepth.symm.trans (depthAfter_of_height? hms)
  exact ⟨Brackets.balanced_iff_height?.2 hms, Brackets.balanced_iff_height?.2 hns⟩

/-! ## 3. One argument -/

/-- A text that belongs to one argument: its brackets balance, and no comma stands outside them.
Nothing is left open at its end but a line comment. -/
structure IsArgument (t : Text) : Prop where
  mode : finalMode t = .code ∨ finalMode t = .lineComment
  balanced : allBrackets.Balanced (marks t)
  single : hasComma 0 (marks t) = false

instance (t : Text) : Decidable (IsArgument t) :=
  decidable_of_iff ((finalMode t = .code ∨ finalMode t = .lineComment) ∧
      allBrackets.Balanced (marks t) ∧ hasComma 0 (marks t) = false)
    ⟨fun h => ⟨h.1, h.2.1, h.2.2⟩, fun h => ⟨h.mode, h.balanced, h.single⟩⟩

theorem IsArgumentList.isArgument {t : Text} (h : IsArgumentList t)
    (hsingle : hasComma 0 (marks t) = false) : IsArgument t :=
  ⟨.inl h.mode, h.balanced, hsingle⟩

namespace IsArgument

variable {t : Text}

theorem isArgumentList (h : IsArgument t) (hmode : finalMode t = .code) : IsArgumentList t :=
  ⟨hmode, h.balanced⟩

theorem splitCommas_eq (h : IsArgument t) : splitCommas [] 0 (marks t) = [Text.trim t] := by
  have hcut := splitCommas_append h.single [] []
  rw [List.append_nil, unmark_marks] at hcut
  rw [hcut, splitCommas, List.append_nil, List.reverse_reverse]

/-- A comma behind text that leaves nothing open ends an argument. -/
theorem splitCommas_comma (h : IsArgument t) (hmode : finalMode t = .code) (rest : Text) :
    splitCommas [] 0 (marks (t ++ ',' :: rest)) =
      Text.trim t :: splitCommas [] 0 (marks rest) := by
  rw [marks_append_cons hmode (by decide) (by decide), splitCommas_append h.single,
    depthAfter_of_height? (Brackets.balanced_iff_height?.1 h.balanced), splitCommas,
    if_pos (by decide), unmark_marks, List.append_nil, List.reverse_reverse]

/-- Without the blanks around it an argument reads as before, but the line feed may be missing that
ends its last comment. -/
theorem trim (h : IsArgument t) (hmode : finalMode t = .code) : IsArgument (Text.trim t) := by
  obtain ⟨before, after, hbefore, hafter, ht⟩ := Text.exists_trim t
  have hplain := Text.all_mono isPlain_of_isBlank hbefore
  obtain ⟨tail, htail, htailText, hfinal⟩ := marks_append_blanks hafter (Text.trim t)
  have hmarks : marks t = before.map codeMark ++ (marks (Text.trim t) ++ tail) := by
    conv => lhs; rw [ht]
    rw [List.append_assoc, marks_plain_append hplain, htail]
  have hfront : (unmark (before.map codeMark)).all isBlank = true := by
    rwa [unmark_map_codeMark]
  have hback : (unmark tail).all isBlank = true := by rwa [htailText]
  -- blanks neither open a bracket nor hold a comma, so both facts pass to what is between them
  have hdepth := depthAfter_of_isBlank hfront 0
  obtain ⟨mode, balanced, single⟩ := h
  rw [hmarks] at balanced single
  rw [hasComma_append, hdepth, hasComma_append, Bool.or_eq_false_iff, Bool.or_eq_false_iff]
    at single
  have hinner := (balanced_at_depth balanced hdepth).2
  have hlevel : depthAfter 0 (marks (Text.trim t)) = 0 := by
    have hend := depthAfter_of_height? (Brackets.balanced_iff_height?.1 hinner)
    rwa [depthAfter_append, depthAfter_of_isBlank hback] at hend
  refine ⟨hfinal ?_, (balanced_at_depth hinner hlevel).1, single.2.1⟩
  rw [ht, List.append_assoc, finalMode_plain_append hplain] at hmode
  exact hmode

end IsArgument

/-! ## 4. Lists of arguments -/

theorem IsArgument.comma {t rest : Text} (h : IsArgument t) (hmode : finalMode t = .code)
    (hrest : IsArgumentList rest) : IsArgumentList (t ++ ',' :: rest) where
  mode := by rw [finalMode_append_cons hmode (by decide) (by decide), hrest.mode]
  balanced := by
    rw [marks_append_cons hmode (by decide) (by decide), Brackets.balanced_iff_height?,
      Brackets.height?_append, h.balanced.height? 0]
    exact (Brackets.height?_other (by decide) (by decide) 0 (marks rest)).trans
      (hrest.balanced.height? 0)

/-- An argument list is one argument, or one with a comma and a list behind it. -/
theorem argument_induction {P : (t : Text) → IsArgumentList t → Prop}
    (last : ∀ t (h : IsArgument t) (hmode : finalMode t = .code), P t (h.isArgumentList hmode))
    (comma : ∀ t rest (h : IsArgument t) (hmode : finalMode t = .code)
      (hrest : IsArgumentList rest), P rest hrest → P (t ++ ',' :: rest) (h.comma hmode hrest))
    (t : Text) (h : IsArgumentList t) : P t h := by
  cases hcomma : hasComma 0 (marks t) with
  | false => exact last t (h.isArgument hcomma) h.mode
  | true =>
    obtain ⟨front, m, rest, hms, hm, hfront, hdepth⟩ := exists_comma hcomma
    -- the comma is code, so what stands on each side of it is read alone as it is read there
    have hkind := Mark.kind_of_isCode hm
    have hchar := Mark.char_of_isCode hm
    obtain ⟨hleft, hright⟩ := balanced_at_depth (hms ▸ h.balanced) hdepth
    have hrest : allBrackets.Balanced rest := by
      have hlevel : depthAfter 0 [m] = 0 := Mark.depth_of_comma hm 0
      exact (balanced_at_depth (@List.singleton_append _ m rest ▸ hright) hlevel).2
    have hmode := finalMode_before_code hms hkind (by rw [hchar]; decide)
    have hmarks := marks_before_code hms hkind
    have hargument : IsArgument (unmark front) :=
      ⟨.inl hmode, by rwa [hmarks], by rwa [hmarks]⟩
    have hlist : IsArgumentList (unmark rest) :=
      ⟨(finalMode_after_code hms hkind).trans h.mode, by rwa [marks_after_code hms hkind]⟩
    have htext : t = unmark front ++ ',' :: unmark rest := by
      rw [← unmark_marks t, hms, unmark_append, unmark_cons, hchar]
    have hshorter : (unmark rest).length < t.length := by
      rw [htext]
      simp only [List.length_append, List.length_cons]
      omega
    have hbehind := argument_induction last comma (unmark rest) hlist
    clear hshorter hms hcomma
    subst htext
    exact comma (unmark front) (unmark rest) hargument hmode hlist hbehind
termination_by t.length
decreasing_by exact hshorter

theorem isArgument_of_mem_splitCommas {t v : Text} (h : IsArgumentList t)
    (hv : v ∈ splitCommas [] 0 (marks t)) : Text.IsTrimmed v ∧ IsArgument v := by
  induction t, h using argument_induction with
  | last t h hmode =>
    rw [h.splitCommas_eq] at hv
    rw [List.mem_singleton.1 hv]
    exact ⟨Text.isTrimmed_trim t, h.trim hmode⟩
  | comma t rest h hmode _ ih =>
    rw [h.splitCommas_comma hmode] at hv
    rcases List.mem_cons.1 hv with rfl | hv
    · exact ⟨Text.isTrimmed_trim t, h.trim hmode⟩
    · exact ih hv

theorem isArgument_of_mem_splitArguments {t v : Text} (h : IsArgumentList t)
    (hv : v ∈ splitArguments t) : Text.IsTrimmed v ∧ IsArgument v := by
  unfold splitArguments at hv
  split at hv
  · exact absurd hv List.not_mem_nil
  · exact isArgument_of_mem_splitCommas h hv

theorem splitCommas_ne_nil (piece : Text) (depth : Nat) (ms : List Mark) :
    splitCommas piece depth ms ≠ [] := by
  fun_induction splitCommas piece depth ms with
  | case1 piece depth => simp
  | case2 piece depth m rest h => simp
  | case3 piece depth m rest h ih => exact ih

/-! ## 5. Joined arguments -/

theorem IsArgument.blanks_append {gap t : Text} (hgap : gap.all isBlank = true)
    (h : IsArgument t) : IsArgument (gap ++ t) ∧ finalMode (gap ++ t) = finalMode t := by
  have hplain := Text.all_mono isPlain_of_isBlank hgap
  have hblank : (unmark (gap.map codeMark)).all isBlank = true := by rwa [unmark_map_codeMark]
  have hmode := finalMode_plain_append hplain t
  refine ⟨⟨by rw [hmode]; exact h.mode, ?_, ?_⟩, hmode⟩
  · rw [marks_plain_append hplain]
    exact (balanced_of_isBlank hblank).append h.balanced
  · rw [marks_plain_append hplain, hasComma_append, hasComma_of_isBlank hblank,
      depthAfter_of_isBlank hblank, h.single]
    rfl

theorem IsArgument.append_blanks {gap t : Text} (hgap : gap.all isBlank = true)
    (h : IsArgument t) (hmode : finalMode t = .code) : IsArgument (t ++ gap) := by
  have hplain := Text.all_mono isPlain_of_isBlank hgap
  have hblank : (unmark (gap.map codeMark)).all isBlank = true := by rwa [unmark_map_codeMark]
  have hmeet := MeetApart.of_blanks hgap t
  have hmarks : marks (t ++ gap) = marks t ++ gap.map codeMark := by
    rw [marks_append hmode hmeet, marks_plain hplain]
  refine ⟨.inl ?_, ?_, ?_⟩
  · rw [finalMode_append hmode hmeet, finalMode_plain hplain]
  · rw [hmarks]
    exact h.balanced.append (balanced_of_isBlank hblank)
  · rw [hmarks, hasComma_append, h.single, hasComma_of_isBlank hblank]
    rfl

/-- Arguments that leave nothing open, joined by commas, are cut where they were joined. -/
theorem splitCommas_join_arguments {vs : List Text} (hne : vs ≠ [])
    (hvs : ∀ v ∈ vs, IsArgument v ∧ finalMode v = .code) {gap : Text}
    (hgap : gap.all isBlank = true) :
    IsArgumentList (gap ++ Text.join ", " vs) ∧
      splitCommas [] 0 (marks (gap ++ Text.join ", " vs)) = vs.map Text.trim := by
  induction vs generalizing gap with
  | nil => exact absurd rfl hne
  | cons v vs ih =>
    obtain ⟨hv, hmode⟩ := hvs v List.mem_cons_self
    obtain ⟨hv, hsame⟩ := hv.blanks_append hgap
    have hmode := hsame.trans hmode
    have htrim : Text.trim (gap ++ v) = Text.trim v := by
      -- the blanks before it are dropped first
      rw [Text.trim, Text.trimStart, List.dropWhile_append_of_pos (List.all_eq_true.1 hgap)]
      rfl
    cases vs with
    | nil =>
      rw [Text.join, List.intercalate_singleton, List.map_singleton, ← htrim]
      exact ⟨hv.isArgumentList hmode, hv.splitCommas_eq⟩
    | cons w vs =>
      -- the blank behind a comma stands before the next argument
      have htext : gap ++ Text.join ", " (v :: w :: vs) =
          gap ++ v ++ ',' :: ([' '] ++ Text.join ", " (w :: vs)) := by
        unfold Text.join
        rw [List.intercalate_cons_cons]
        simp
      obtain ⟨hlist, hcut⟩ := @ih (by simp) (fun u hu => hvs u (List.mem_cons_of_mem v hu))
        [' '] (by decide)
      rw [htext, List.map_cons, ← htrim, ← hcut]
      exact ⟨hv.comma hmode hlist, hv.splitCommas_comma hmode _⟩

/-- Joined arguments that are cut where they were joined leave nothing open. -/
theorem finalMode_of_splitCommas_join {t : Text} (h : IsArgumentList t) {gap : Text}
    {vs : List Text} (hgap : gap.all isBlank = true) (ht : t = gap ++ Text.join ", " vs)
    (hcut : splitCommas [] 0 (marks t) = vs) : ∀ v ∈ vs, finalMode v = .code := by
  have hplain := Text.all_mono isPlain_of_isBlank hgap
  induction t, h using argument_induction generalizing gap vs with
  | last t h hmode =>
    rw [h.splitCommas_eq] at hcut
    intro v hv
    rw [← hcut] at hv ht
    rw [Text.join, List.intercalate_singleton, ← List.mem_singleton.1 hv] at ht
    rwa [ht, finalMode_plain_append hplain] at hmode
  | comma t rest h hmode hrest ih =>
    rw [h.splitCommas_comma hmode] at hcut
    cases vs with
    | nil => exact absurd hcut (by simp)
    | cons v vs =>
      obtain ⟨hv, hvs⟩ := List.cons.inj hcut
      cases vs with
      | nil => exact absurd hvs (splitCommas_ne_nil _ _ _)
      | cons w vs =>
        have hjoin : t ++ ',' :: rest =
            gap ++ v ++ ',' :: ([' '] ++ Text.join ", " (w :: vs)) := by
          rw [ht, Text.join, List.intercalate_cons_cons]
          simp [Text.join]
        -- the first comma is the one that was written, since both arguments trim to the same
        have htrim : Text.trim t = Text.trim (gap ++ v) := by
          rw [← hv, Text.trim_blanks_append hgap (Text.isTrimmed_trim t)]
        obtain ⟨rfl, hbehind⟩ := Text.cut_trim_unique hjoin (by decide) htrim
        intro u hu
        rcases List.mem_cons.1 hu with rfl | hu
        · rwa [finalMode_plain_append hplain] at hmode
        · exact @ih [' '] (w :: vs) (by decide) hbehind hvs (by decide) u hu

/-! ## 6. Argument lists that are cut where they were joined -/

theorem splitCommas_of_allBlank {t : Text} (h : Text.allBlank t = true) :
    splitCommas [] 0 (marks t) = [[]] := by
  have hplain : t.all isPlain = true := Text.all_mono isPlain_of_isBlank h
  have hblank : (unmark (t.map codeMark)).all isBlank = true := by rwa [unmark_map_codeMark]
  have hargument : IsArgument t := by
    refine ⟨.inl (finalMode_plain hplain), ?_, ?_⟩
    · rw [marks_plain hplain]
      exact balanced_of_isBlank hblank
    · rw [marks_plain hplain]
      exact hasComma_of_isBlank hblank 0
  rw [hargument.splitCommas_eq, Text.trim_of_allBlank h]

theorem trim_of_splitCommas_singleton {piece v : Text} {depth : Nat} {ms : List Mark}
    (h : splitCommas piece depth ms = [v]) : v = Text.trim (piece.reverse ++ unmark ms) := by
  fun_induction splitCommas piece depth ms with
  | case1 piece depth => simpa using (List.cons.inj h).1.symm
  | case2 piece depth m rest hm => exact absurd (List.cons.inj h).2 (splitCommas_ne_nil _ _ _)
  | case3 piece depth m rest hm ih => simpa using ih h

theorem splitArguments_ne_singleton_nil (t : Text) : splitArguments t ≠ [[]] := by
  intro h
  unfold splitArguments at h
  split at h
  · exact absurd h (by simp)
  · rename_i hblank
    have htrim := trim_of_splitCommas_singleton h
    rw [unmark_marks, List.reverse_nil, List.nil_append] at htrim
    exact hblank (Text.trim_eq_nil_iff.1 htrim.symm)

/-- Arguments joined to a list are the arguments of that list exactly if none of them ends in a line
comment. -/
theorem splitArguments_join_iff {vs : List Text} (hne : vs ≠ [[]])
    (hvs : ∀ v ∈ vs, Text.IsTrimmed v ∧ IsArgument v) :
    (IsArgumentList (Text.join ", " vs) ∧ splitArguments (Text.join ", " vs) = vs) ↔
      ∀ v ∈ vs, finalMode v = .code := by
  constructor
  · rintro ⟨hlist, hcut⟩ v hv
    unfold splitArguments at hcut
    split at hcut
    · rw [← hcut] at hv
      exact absurd hv List.not_mem_nil
    · exact @finalMode_of_splitCommas_join _ hlist [] _ rfl rfl hcut v hv
  · intro hmode
    cases vs with
    | nil => exact ⟨by decide, rfl⟩
    | cons v vs =>
      obtain ⟨hlist, hcut⟩ := @splitCommas_join_arguments (v :: vs) (by simp)
        (fun u hu => ⟨(hvs u hu).2, hmode u hu⟩) [] rfl
      have htrim : (v :: vs).map Text.trim = v :: vs :=
        (List.map_congr_left fun u hu => (hvs u hu).1.trim_eq).trans (List.map_id _)
      rw [List.nil_append] at hlist hcut
      refine ⟨hlist, ?_⟩
      unfold splitArguments
      split
      · -- only the list of one empty argument is written as a blank list
        rename_i hblank
        rw [splitCommas_of_allBlank hblank, htrim] at hcut
        exact absurd hcut.symm hne
      · rw [hcut, htrim]

end Parlance.Source
