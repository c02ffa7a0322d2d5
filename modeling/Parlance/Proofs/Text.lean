import Parlance.Text.Blank

/-!
Cutting texts: at the first character of a class, and at the blanks around a text. Two ways to cut a
text by the same rule are one.
-/

namespace Parlance.Text

/-! ## 1. Classes of characters -/

theorem all_mono {p q : Char → Bool} (h : ∀ c, p c = true → q c = true) {t : Text}
    (ht : t.all p = true) : t.all q = true := by
  rw [List.all_eq_true] at ht ⊢
  exact fun c hc => h c (ht c hc)

theorem ne_of_holds {p : Char → Bool} {d : Char} (hd : p d = false) (c : Char)
    (h : p c = true) : decide (c ≠ d) = true := by
  rw [decide_eq_true_eq]
  rintro rfl
  rw [h] at hd
  exact absurd hd (by decide)

/-- No character of a class stands first, so none is taken or dropped. -/
theorem splitWhile_of_head {p : Char → Bool} {t : Text} (h : t.head?.all (!p ·) = true) :
    t.takeWhile p = [] ∧ t.dropWhile p = t := by
  cases t with
  | nil => exact ⟨rfl, rfl⟩
  | cons c t =>
    have hc : p c = false := by simpa using h
    simp [hc]

/-! ## 2. One way to cut -/

/-- The first character outside a class cuts a text in one way only. -/
theorem cut_unique {p : Char → Bool} {a a' r r' : Text} {x x' : Char}
    (h : a ++ x :: r = a' ++ x' :: r') (ha : a.all p = true) (ha' : a'.all p = true)
    (hx : p x = false) (hx' : p x' = false) : a = a' ∧ x = x' ∧ r = r' := by
  induction a generalizing a' with
  | nil =>
    cases a' with
    | nil =>
      obtain ⟨rfl, rfl⟩ := List.cons.inj h
      exact ⟨rfl, rfl, rfl⟩
    | cons c a' =>
      obtain ⟨rfl, -⟩ := List.cons.inj h
      simp [hx] at ha'
  | cons c a ih =>
    simp only [List.all_cons, Bool.and_eq_true] at ha
    cases a' with
    | nil =>
      obtain ⟨rfl, -⟩ := List.cons.inj h
      rw [hx'] at ha
      exact absurd ha.1 (by decide)
    | cons c' a' =>
      simp only [List.all_cons, Bool.and_eq_true] at ha'
      obtain ⟨rfl, he⟩ := List.cons.inj h
      obtain ⟨rfl, rfl, rfl⟩ := ih he ha.2 ha'.2
      exact ⟨rfl, rfl, rfl⟩

/-- Blanks after a text without blanks are told from it. -/
theorem cut_blanks_unique {w w' b b' : Text} (h : w ++ b = w' ++ b')
    (hw : w.all (!isBlank ·) = true) (hw' : w'.all (!isBlank ·) = true)
    (hb : b.all isBlank = true) (hb' : b'.all isBlank = true) : w = w' ∧ b = b' := by
  induction w generalizing w' with
  | nil =>
    cases w' with
    | nil => exact ⟨rfl, h⟩
    | cons c w' =>
      rw [List.nil_append] at h
      subst h
      simp only [List.cons_append, List.all_cons, Bool.and_eq_true] at hb hw'
      simp [hb.1] at hw'
  | cons c w ih =>
    simp only [List.all_cons, Bool.and_eq_true] at hw
    cases w' with
    | nil =>
      rw [List.nil_append] at h
      subst h
      simp only [List.cons_append, List.all_cons, Bool.and_eq_true] at hb'
      simp [hb'.1] at hw
    | cons c' w' =>
      simp only [List.all_cons, Bool.and_eq_true] at hw'
      obtain ⟨rfl, he⟩ := List.cons.inj h
      obtain ⟨rfl, rfl⟩ := ih he hw.2 hw'.2
      exact ⟨rfl, rfl⟩

/-- The last character that is not blank cuts a text in one way only. -/
theorem cut_last_unique {a a' b b' : Text} {x x' : Char} (h : a ++ x :: b = a' ++ x' :: b')
    (hb : b.all isBlank = true) (hb' : b'.all isBlank = true) (hx : isBlank x = false)
    (hx' : isBlank x' = false) : a = a' ∧ x = x' ∧ b = b' := by
  -- read backwards, it is the first one
  have hr : b.reverse ++ x :: a.reverse = b'.reverse ++ x' :: a'.reverse := by
    have h := congrArg List.reverse h
    simpa using h
  obtain ⟨hback, hlast, hfront⟩ :=
    cut_unique hr (by rwa [List.all_reverse]) (by rwa [List.all_reverse]) hx hx'
  exact ⟨List.reverse_inj.1 hfront, hlast, List.reverse_inj.1 hback⟩

/-! ## 3. Blanks -/

theorem isBlank_of_isAlphanum {c : Char} (h : c.isAlphanum = true) : isBlank c = false := by
  change (decide (c.val ≥ 'A'.val ∧ c.val ≤ 'Z'.val) ||
    (decide (c.val ≥ 'a'.val) && decide (c.val ≤ 'z'.val)) ||
      (decide (c.val ≥ '0'.val) && decide (c.val ≤ '9'.val))) = true at h
  simp only [Bool.or_eq_true, Bool.and_eq_true, decide_eq_true_eq, UInt32.le_iff_toNat_le,
    ge_iff_le] at h
  change ((65 ≤ c.toNat ∧ c.toNat ≤ 90) ∨ (97 ≤ c.toNat ∧ c.toNat ≤ 122)) ∨
    (48 ≤ c.toNat ∧ c.toNat ≤ 57) at h
  -- the blanks lie below the digits, or above the letters
  unfold isBlank
  simp
  omega

theorem trimStart_of_allBlank {t : Text} (h : t.all isBlank = true) : trimStart t = [] := by
  induction t with
  | nil => rfl
  | cons c t ih =>
    simp only [List.all_cons, Bool.and_eq_true] at h
    rw [trimStart, List.dropWhile_cons, if_pos h.1]
    exact ih h.2

theorem trim_of_allBlank {t : Text} (h : t.all isBlank = true) : trim t = [] := by
  rw [trim, trimStart_of_allBlank h]
  rfl

theorem trim_cons_blank {c : Char} (hc : isBlank c = true) (t : Text) : trim (c :: t) = trim t := by
  rw [trim, trimStart, List.dropWhile_cons, if_pos hc]
  rfl

theorem trimStart_append_cons {c : Char} (hc : isBlank c = false) (a b : Text) :
    trimStart (a ++ c :: b) = trimStart a ++ c :: b := by
  unfold trimStart
  induction a with
  | nil => simp [hc]
  | cons d a ih =>
    by_cases hd : isBlank d = true
    · simpa [List.dropWhile_cons, hd] using ih
    · simp [hd]

theorem trimStart_append {t : Text} {c : Char} (hc : isBlank c = false) (rest : Text) :
    trimStart (t ++ c :: rest) = trimStart (t ++ [c]) ++ rest := by
  rw [trimStart_append_cons hc, trimStart_append_cons hc, List.append_assoc, List.singleton_append]

theorem trimStart_ne_nil {t : Text} {c : Char} (hc : isBlank c = false) :
    trimStart (t ++ [c]) ≠ [] := by
  rw [trimStart_append_cons hc]
  simp

theorem startsWith_singleton_append {t : Text} (ht : t ≠ []) (d : Char) (rest : Text) :
    startsWith (t ++ rest) [d] = startsWith t [d] := by
  cases t with
  | nil => exact absurd rfl ht
  | cons c t => simp [startsWith, List.isPrefixOf]

theorem trimEnd_cons {c : Char} (hc : isBlank c = false) (t : Text) :
    trimEnd (c :: t) = c :: trimEnd t := by
  rw [trimEnd]
  -- whether anything is kept behind it or not, `c` is
  cases trimEnd t with
  | nil => simp [hc]
  | cons d t => rfl

theorem trimEnd_of_allBlank {t : Text} (h : t.all isBlank = true) : trimEnd t = [] := by
  induction t with
  | nil => rfl
  | cons c t ih =>
    simp only [List.all_cons, Bool.and_eq_true] at h
    rw [trimEnd, ih h.2]
    exact if_pos h.1

/-- The trailing blanks of a text begin behind any other character. -/
theorem trimEnd_append_cons {c : Char} (hc : isBlank c = false) (a b : Text) :
    trimEnd (a ++ c :: b) = a ++ c :: trimEnd b := by
  induction a with
  | nil => exact trimEnd_cons hc b
  | cons d a ih =>
    rw [List.cons_append, trimEnd, ih]
    cases a <;> rfl

theorem trimEnd_append_blanks {a blanks : Text} (ha : a.getLast?.any (!isBlank ·) = true)
    (hb : blanks.all isBlank = true) : trimEnd (a ++ blanks) = a := by
  rcases List.eq_nil_or_concat a with rfl | ⟨a, c, rfl⟩
  · exact absurd ha (by decide)
  · have hc : isBlank c = false := by simpa using ha
    rw [List.concat_eq_append, List.append_assoc, List.singleton_append, trimEnd_append_cons hc,
      trimEnd_of_allBlank hb]

/-- A text that neither begins nor ends with a blank. -/
structure IsTrimmed (t : Text) : Prop where
  first : t.head?.all (!isBlank ·) = true
  last : t.getLast?.all (!isBlank ·) = true

theorem last_append {p : Char → Bool} {a b : Text} (hb : b ≠ []) (h : b.getLast?.all p = true) :
    (a ++ b).getLast?.all p = true := by
  cases hl : b.getLast? with
  | none => exact absurd (List.getLast?_eq_none_iff.1 hl) hb
  | some c =>
    rw [hl] at h
    rw [List.getLast?_append, hl]
    exact h

theorem IsTrimmed.append {a b : Text} (ha : IsTrimmed a) (hne : a ≠ [])
    (hb : b.getLast?.all (!isBlank ·) = true) : IsTrimmed (a ++ b) := by
  constructor
  · have hfirst := ha.first
    cases a with
    | nil => exact absurd rfl hne
    | cons c a => exact hfirst
  · cases b with
    | nil =>
      rw [List.append_nil]
      exact ha.last
    | cons c b => exact last_append (List.cons_ne_nil c b) hb

theorem trimEnd_of_last {t : Text} (h : t.getLast?.all (!isBlank ·) = true) : trimEnd t = t := by
  induction t with
  | nil => rfl
  | cons c t ih =>
    cases t with
    | nil =>
      have hc : isBlank c = false := by simpa using h
      exact trimEnd_cons hc []
    | cons d t =>
      rw [List.getLast?_cons_cons] at h
      unfold trimEnd
      rw [ih h]

theorem IsTrimmed.trim_eq {t : Text} (h : IsTrimmed t) : trim t = t := by
  have hstart : trimStart t = t := by
    cases t with
    | nil => rfl
    | cons c t =>
      have hc : isBlank c = false := by simpa using h.first
      simp [trimStart, hc]
  unfold trim
  rw [hstart, trimEnd_of_last h.last]

theorem IsTrimmed.not_allBlank {a b : Text} (h : IsTrimmed (a ++ b)) (hb : b ≠ []) :
    allBlank b = false := by
  rcases List.eq_nil_or_concat b with rfl | ⟨b, c, rfl⟩
  · exact absurd rfl hb
  · have hlast := h.last
    rw [List.concat_eq_append, ← List.append_assoc, List.getLast?_concat] at hlast
    have hc : isBlank c = false := by simpa using hlast
    simp [allBlank, hc]

theorem trim_blanks_append {blanks t : Text} (hb : blanks.all isBlank = true) (ht : IsTrimmed t) :
    trim (blanks ++ t) = t := by
  have hstart : trimStart (blanks ++ t) = trimStart t := by
    unfold trimStart
    exact List.dropWhile_append_of_pos (List.all_eq_true.1 hb)
  rw [trim, hstart]
  exact ht.trim_eq

theorem IsTrimmed.trim_append_blanks {t blanks : Text} (ht : IsTrimmed t)
    (hb : blanks.all isBlank = true) : trim (t ++ blanks) = t := by
  cases t with
  | nil => exact trim_of_allBlank hb
  | cons c t =>
    have hc : isBlank c = false := by simpa using ht.first
    have hlast : (c :: t).getLast?.any (!isBlank ·) = true := by
      have hall := ht.last
      rw [List.getLast?_cons] at hall ⊢
      exact hall
    rw [trim, trimStart, List.cons_append, List.dropWhile_cons, if_neg (by simp [hc]),
      ← List.cons_append, trimEnd_append_blanks hlast hb]

theorem last_trimEnd (t : Text) : (trimEnd t).getLast?.all (!isBlank ·) = true := by
  induction t with
  | nil => rfl
  | cons c t ih =>
    unfold trimEnd
    cases he : trimEnd t with
    | nil =>
      by_cases hc : isBlank c = true
      · rw [if_pos hc]
        rfl
      · rw [if_neg hc]
        simpa using hc
    | cons d kept =>
      rw [he] at ih
      exact ih

theorem isTrimmed_trim (t : Text) : IsTrimmed (trim t) := by
  refine ⟨?_, last_trimEnd _⟩
  have hfirst := List.head?_dropWhile_not isBlank t
  unfold trim trimStart
  cases hs : t.dropWhile isBlank with
  | nil => rfl
  | cons c rest =>
    rw [hs] at hfirst
    have hc : isBlank c = false := hfirst
    rw [trimEnd_cons hc]
    simpa using hc

/-- Trimming at the end takes nothing but blanks away. -/
theorem exists_trimEnd (t : Text) :
    ∃ blanks, blanks.all isBlank = true ∧ t = trimEnd t ++ blanks := by
  induction t with
  | nil => exact ⟨[], rfl, rfl⟩
  | cons c t ih =>
    obtain ⟨blanks, hb, ht⟩ := ih
    unfold trimEnd
    cases he : trimEnd t with
    | nil =>
      rw [he, List.nil_append] at ht
      by_cases hc : isBlank c = true
      · refine ⟨c :: t, ?_, by rw [if_pos hc, List.nil_append]⟩
        rw [List.all_cons, hc, ht, hb]
        rfl
      · exact ⟨blanks, hb, by rw [if_neg hc, ht]; rfl⟩
    | cons d kept =>
      rw [he] at ht
      exact ⟨blanks, hb, congrArg (c :: ·) ht⟩

theorem exists_trim (t : Text) :
    ∃ before after, before.all isBlank = true ∧ after.all isBlank = true ∧
      t = before ++ trim t ++ after := by
  obtain ⟨after, ha, ht⟩ := exists_trimEnd (trimStart t)
  refine ⟨t.takeWhile isBlank, after, List.all_takeWhile, ha, ?_⟩
  unfold trim
  rw [List.append_assoc, ← ht]
  exact List.takeWhile_append_dropWhile.symm

theorem trim_eq_nil_iff {t : Text} : trim t = [] ↔ allBlank t = true := by
  refine ⟨fun h => ?_, trim_of_allBlank⟩
  obtain ⟨before, after, hb, ha, ht⟩ := exists_trim t
  rw [h, List.append_nil] at ht
  rw [ht, allBlank, List.all_append, hb, ha]
  rfl

theorem length_trim (t : Text) : (trim t).length ≤ t.length := by
  obtain ⟨before, after, -, -, ht⟩ := exists_trim t
  have hlength := congrArg List.length ht
  simp only [List.length_append] at hlength
  omega

/-- A character that is not blank keeps the text before it. -/
theorem length_trim_append_cons {c : Char} (hc : isBlank c = false) (a b : Text) :
    (trim a).length < (trim (a ++ c :: b)).length := by
  -- both begin with the same blanks, and only the first one can end with some
  obtain ⟨blanks, -, ha⟩ := exists_trimEnd (trimStart a)
  have hlength := congrArg List.length ha
  rw [trim, trim, trimStart_append_cons hc, trimEnd_append_cons hc]
  simp only [List.length_append, List.length_cons] at hlength ⊢
  omega

/-- Text before a character that is not blank is cut off in one way only, if it is known what it
trims to. -/
theorem cut_trim_unique {a a' b b' : Text} {c : Char} (h : a ++ c :: b = a' ++ c :: b')
    (hc : isBlank c = false) (htrim : trim a = trim a') : a = a' ∧ b = b' := by
  -- a character that is not blank would make what is trimmed longer
  have hshort (a mid : Text) : trim a ≠ trim (a ++ c :: mid) := by
    intro heq
    have hlength := length_trim_append_cons hc a mid
    rw [← heq] at hlength
    exact Nat.lt_irrefl _ hlength
  rcases List.append_eq_append_iff.1 h with ⟨mid, rfl, hmid⟩ | ⟨mid, rfl, hmid⟩
  · cases mid with
    | nil => exact ⟨(List.append_nil a).symm, (List.cons.inj hmid).2⟩
    | cons d mid =>
      obtain ⟨rfl, -⟩ := List.cons.inj hmid
      exact absurd htrim (hshort a mid)
  · cases mid with
    | nil => exact ⟨List.append_nil a', (List.cons.inj hmid).2.symm⟩
    | cons d mid =>
      obtain ⟨rfl, -⟩ := List.cons.inj hmid
      exact absurd htrim.symm (hshort a' mid)

theorem trim_eq_of_length {t : Text} (h : t.length ≤ (trim t).length) : trim t = t := by
  obtain ⟨before, after, -, -, ht⟩ := exists_trim t
  have hlength := congrArg List.length ht
  simp only [List.length_append] at hlength
  obtain rfl : before = [] := List.eq_nil_of_length_eq_zero (by omega)
  obtain rfl : after = [] := List.eq_nil_of_length_eq_zero (by omega)
  rw [List.nil_append, List.append_nil] at ht
  exact ht.symm

/-! ## 4. Leads -/

theorem after?_append (lead t : Text) : after? lead (lead ++ t) = some t := by
  induction lead with
  | nil => rfl
  | cons c lead ih => simp [after?, ih]

theorem eq_append_of_after? {lead t rest : Text} (h : after? lead t = some rest) :
    t = lead ++ rest := by
  fun_induction after? lead t with
  | case1 t => exact Option.some.inj h
  | case2 => exact absurd h (by simp)
  | case3 lead c t ih => exact congrArg (c :: ·) (ih h)
  | case4 => exact absurd h (by simp)

theorem isSome_after? (lead t : Text) : (after? lead t).isSome = startsWith t lead := by
  fun_induction after? lead t with
  | case1 t => rfl
  | case2 => rfl
  | case3 lead c t ih =>
    rw [ih, startsWith, startsWith, List.isPrefixOf, beq_self_eq_true, Bool.true_and]
  | case4 a lead c t hac => simp [startsWith, List.isPrefixOf, hac]

/-! ## 5. Parts -/

theorem holds_iff_infix {part t : Text} : holds part t = true ↔ part <:+: t := by
  induction t with
  | nil => rw [holds, List.isEmpty_iff, List.infix_nil]
  | cons c t ih =>
    rw [holds, Bool.or_eq_true, ih, List.infix_cons_iff, startsWith, List.isPrefixOf_iff_prefix]

theorem splitLast?_eq_none_iff {part t : Text} : splitLast? part t = none ↔ holds part t = false := by
  induction t with
  | nil => cases part <;> simp [splitLast?, holds, after?]
  | cons c t ih =>
    have hstart := isSome_after? part (c :: t)
    rw [splitLast?, holds, Bool.or_eq_false_iff, ← ih, ← hstart, Option.isSome_eq_false_iff,
      Option.isNone_iff_eq_none]
    cases splitLast? part t with
    | none => simp
    | some cut => simp

theorem eq_append_of_splitLast? {part t before after : Text}
    (h : splitLast? part t = some (before, after)) : t = before ++ part ++ after := by
  induction t generalizing before with
  | nil =>
    obtain ⟨rest, hrest, he⟩ := Option.map_eq_some_iff.1 h
    obtain ⟨rfl, rfl⟩ := Prod.mk.inj he
    exact eq_append_of_after? hrest
  | cons c t ih =>
    rw [splitLast?] at h
    split at h
    · rename_i b a hcut
      obtain ⟨rfl, rfl⟩ := Prod.mk.inj (Option.some.inj h)
      exact congrArg (c :: ·) (ih hcut)
    · obtain ⟨rest, hrest, he⟩ := Option.map_eq_some_iff.1 h
      obtain ⟨rfl, rfl⟩ := Prod.mk.inj he
      exact eq_append_of_after? hrest

/-- The last place of a part is found behind anything. -/
theorem splitLast?_behind {part t before after : Text}
    (h : splitLast? part t = some (before, after)) (front : Text) :
    splitLast? part (front ++ t) = some (front ++ before, after) := by
  induction front with
  | nil => exact h
  | cons c front ih => rw [List.cons_append, splitLast?, ih]; rfl

/-- A part that does not begin again behind its first character stands there for the last time. -/
theorem splitLast?_append {c : Char} {part after : Text}
    (h : holds (c :: part) (part ++ after) = false) (before : Text) :
    splitLast? (c :: part) (before ++ c :: part ++ after) = some (before, after) := by
  -- the last place is looked for first
  have hlast : splitLast? (c :: part) (c :: part ++ after) = some ([], after) := by
    rw [List.cons_append, splitLast?, splitLast?_eq_none_iff.2 h, ← List.cons_append, after?_append]
    rfl
  have hcut := splitLast?_behind hlast before
  rwa [List.append_nil, ← List.append_assoc] at hcut

/-! ## 6. Words -/

/-- A text whose only blanks are single spaces. -/
structure IsSpaced (t : Text) : Prop where
  blanks : ∀ c ∈ t, isBlank c = true → c = ' '
  single : holds "  " t = false

theorem isSpaced_iff {t : Text} :
    t.all (fun c => !isBlank c || c = ' ') = true ∧ holds "  " t = false ↔ IsSpaced t := by
  constructor
  · rintro ⟨hall, hsingle⟩
    refine ⟨fun c hc hblank => ?_, hsingle⟩
    have hc := List.all_eq_true.1 hall c hc
    simpa [hblank] using hc
  · intro h
    refine ⟨List.all_eq_true.2 fun c hc => ?_, h.single⟩
    cases hblank : isBlank c with
    | false => rfl
    | true => simpa using h.blanks c hc hblank

instance (t : Text) : Decidable (IsSpaced t) := decidable_of_iff _ isSpaced_iff

theorem IsSpaced.tail {c : Char} {t : Text} (h : IsSpaced (c :: t)) : IsSpaced t := by
  have hsingle := h.single
  rw [holds, Bool.or_eq_false_iff] at hsingle
  exact ⟨fun d hd => h.blanks d (List.mem_cons_of_mem c hd), hsingle.2⟩

/-- Behind a space there is a word. -/
theorem IsSpaced.word_behind {t : Text} (h : IsSpaced (' ' :: t))
    (hlast : (' ' :: t).getLast?.all (!isBlank ·) = true) : t.head?.any (!isBlank ·) = true := by
  cases t with
  | nil => exact absurd hlast (by decide)
  | cons c t =>
    have hsingle := h.single
    rw [holds, Bool.or_eq_false_iff] at hsingle
    have hne : c ≠ ' ' := by
      rintro rfl
      exact absurd hsingle.1 (by simp [startsWith, List.isPrefixOf])
    have hc : isBlank c = false := by
      cases hb : isBlank c with
      | false => rfl
      | true => exact absurd (h.blanks c (by simp) hb) hne
    simp [hc]

/-- The words of such a text, written with single spaces, are the text. `run` is the part of the
first word that has been read. -/
theorem join_wordsFrom {run t : Text} (h : IsSpaced t)
    (hlast : t.getLast?.all (!isBlank ·) = true)
    (hrun : run = [] → t.head?.any (!isBlank ·) = true) :
    join [' '] (wordsFrom run t) = run.reverse ++ t := by
  induction t generalizing run with
  | nil =>
    cases run with
    | nil => exact absurd (hrun rfl) (by decide)
    | cons c run => simp [wordsFrom, join]
  | cons c t ih =>
    have htail : t.getLast?.all (!isBlank ·) = true := by
      cases t with
      | nil => rfl
      | cons d t => rwa [List.getLast?_cons_cons] at hlast
    rw [wordsFrom]
    by_cases hc : isBlank c = true
    · obtain rfl := h.blanks c List.mem_cons_self hc
      have hword := h.word_behind hlast
      have hjoin := @ih [] h.tail htail fun _ => hword
      -- a blank ends a word, since none stands before the first one
      have hne : run ≠ [] := fun hnil => absurd (hrun hnil) (by simp [hc])
      rw [if_pos hc, if_neg (by simpa using hne)]
      cases hw : wordsFrom [] t with
      | nil =>
        have ht : t = [] := by simpa [hw, join] using hjoin.symm
        rw [ht] at hword
        exact absurd hword Bool.false_ne_true
      | cons w ws =>
        rw [join, List.intercalate_cons_cons]
        rw [hw, join] at hjoin
        rw [hjoin]
        simp
    · rw [if_neg hc]
      exact (@ih (c :: run) h.tail htail fun hnil => absurd hnil (by simp)).trans (by simp)

theorem oneLine_of_isSpaced {t : Text} (h : IsSpaced t) (htrim : IsTrimmed t) : oneLine t = t := by
  cases t with
  | nil => rfl
  | cons c t =>
    refine join_wordsFrom h htrim.last fun _ => ?_
    have hfirst := htrim.first
    exact hfirst

end Parlance.Text
