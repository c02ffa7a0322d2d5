import Parlance.Proofs.Lexical
import Parlance.Source.Block

/-!
Brackets that are counted, whatever their kinds. Some marked characters balance if no front of them
closes more than it opens, and all of them together close as much as they open. The brace that ends
a block, and the closer of a bracket, is the first one before which the text balances.
-/

namespace Parlance.Source

/-! ## 1. Sorts of brackets -/

theorem Mark.opens_eq_false_of_closes {m : Mark} (h : m.closes = true) : m.opens = false := by
  simp only [Mark.closes, isCloser, Bool.and_eq_true, Bool.or_eq_true, decide_eq_true_eq] at h
  rcases h.2 with (hc | hc) | hc <;> simp [Mark.opens, isOpener, hc]

/-- Brackets that are counted together: what opens one and what closes one. -/
structure Brackets where
  opens : Mark → Bool
  closes : Mark → Bool
  disjoint : ∀ m, closes m = true → opens m = false

def braces : Brackets where
  opens m := m.isCode '\x7b'
  closes m := m.isCode '\x7d'
  disjoint m h := by
    simp only [Mark.isCode, Bool.and_eq_true, decide_eq_true_eq] at h
    simp [Mark.isCode, h]

def allBrackets : Brackets where
  opens := Mark.opens
  closes := Mark.closes
  disjoint _ := Mark.opens_eq_false_of_closes

namespace Brackets

variable {b : Brackets}

/-- Marked characters that never close a bracket which they did not open, and leave none open. -/
structure Balanced (b : Brackets) (ms : List Mark) : Prop where
  above : ∀ front, front <+: ms → front.countP b.closes ≤ front.countP b.opens
  level : ms.countP b.closes = ms.countP b.opens

/-! ## 2. Heights -/

/-- The number of brackets that are open after some marked characters, if none was closed that was
not open; `height` is the number of those open before. -/
def height? (b : Brackets) (height : Nat) : List Mark → Option Nat
  | [] => some height
  | m :: rest =>
    if b.closes m then
      match height with
      | 0 => none
      | height + 1 => b.height? height rest
    else
      b.height? (if b.opens m then height + 1 else height) rest

theorem height?_closes_zero {m : Mark} (h : b.closes m = true) (rest : List Mark) :
    b.height? 0 (m :: rest) = none := by
  simp [height?, h]

theorem height?_closes {m : Mark} (h : b.closes m = true) (height : Nat) (rest : List Mark) :
    b.height? (height + 1) (m :: rest) = b.height? height rest := by
  simp [height?, h]

theorem height?_of_not_closes {m : Mark} (h : b.closes m = false) (height : Nat)
    (rest : List Mark) :
    b.height? height (m :: rest) = b.height? (if b.opens m then height + 1 else height) rest := by
  cases height <;> simp [height?, h]

theorem height?_opens {m : Mark} (h : b.opens m = true) (height : Nat) (rest : List Mark) :
    b.height? height (m :: rest) = b.height? (height + 1) rest := by
  have hc : b.closes m = false := by
    cases hc : b.closes m with
    | false => rfl
    | true => rw [b.disjoint m hc] at h; exact absurd h (by decide)
  rw [height?_of_not_closes hc, if_pos h]

theorem height?_other {m : Mark} (hc : b.closes m = false) (ho : b.opens m = false)
    (height : Nat) (rest : List Mark) :
    b.height? height (m :: rest) = b.height? height rest := by
  rw [height?_of_not_closes hc, if_neg (by simp [ho])]

theorem height?_append (height : Nat) (ms ns : List Mark) :
    b.height? height (ms ++ ns) = (b.height? height ms).bind fun k => b.height? k ns := by
  fun_induction height? b height ms with
  | case1 height => rfl
  | case2 m rest hc => rw [List.cons_append, height?_closes_zero hc]; rfl
  | case3 m rest hc height ih => rw [List.cons_append, height?_closes hc, ih]
  | case4 height m rest hc ih =>
    rw [List.cons_append, height?_of_not_closes (by simpa using hc), ih]

theorem height?_add {height k : Nat} {ms : List Mark} (h : b.height? height ms = some k) (n : Nat) :
    b.height? (height + n) ms = some (k + n) := by
  fun_induction height? b height ms with
  | case1 height => rw [height?, Option.some.inj h]
  | case2 m rest hc => exact absurd h (by simp)
  | case3 m rest hc height ih =>
    rw [Nat.succ_add, height?_closes hc, ih h]
  | case4 height m rest hc ih =>
    have hc : b.closes m = false := by simpa using hc
    rw [height?_of_not_closes hc, ← ih h]
    split
    · rw [Nat.add_right_comm]
    · rfl

/-- What the counts of a text say at one height, those of its rest say at the height behind its
first mark. -/
theorem counts_cons {n height k : Nat} {m : Mark} {ms : List Mark}
    (hstep : n + [m].countP b.closes = height + [m].countP b.opens) :
    ((∀ front, front <+: ms → front.countP b.closes ≤ n + front.countP b.opens) ∧
        n + ms.countP b.opens = k + ms.countP b.closes) ↔
      (∀ front, front <+: m :: ms → front.countP b.closes ≤ height + front.countP b.opens) ∧
        height + (m :: ms).countP b.opens = k + (m :: ms).countP b.closes := by
  have hcons (p : Mark → Bool) (front : List Mark) :
      (m :: front).countP p = [m].countP p + front.countP p := by
    rw [← List.singleton_append, List.countP_append]
  have hopens := hcons b.opens
  have hcloses := hcons b.closes
  constructor
  · rintro ⟨habove, hlevel⟩
    refine ⟨fun front hfront => ?_, by rw [hopens ms, hcloses ms]; omega⟩
    rcases List.prefix_cons_iff.1 hfront with rfl | ⟨tail, rfl, htail⟩
    · exact Nat.zero_le _
    · have := habove tail htail
      rw [hopens tail, hcloses tail]
      omega
  · rintro ⟨habove, hlevel⟩
    rw [hopens ms, hcloses ms] at hlevel
    refine ⟨fun front hfront => ?_, by omega⟩
    have := habove (m :: front) ((List.prefix_cons_inj m).2 hfront)
    rw [hopens front, hcloses front] at this
    omega

/-- Heights are counts: no front goes below the ground, and what is open at the end is what was
opened and not closed. -/
theorem height?_eq_some_iff {height k : Nat} {ms : List Mark} :
    b.height? height ms = some k ↔
      (∀ front, front <+: ms → front.countP b.closes ≤ height + front.countP b.opens) ∧
        height + ms.countP b.opens = k + ms.countP b.closes := by
  induction ms generalizing height with
  | nil => simp [height?]
  | cons m ms ih =>
    by_cases hc : b.closes m = true
    · have ho := b.disjoint m hc
      cases height with
      | zero =>
        -- on the ground a closer goes below it
        rw [height?_closes_zero hc]
        refine ⟨fun h => by simp at h, fun h => ?_⟩
        have := h.1 [m] (by simp)
        simp [hc, ho] at this
      | succ height =>
        rw [height?_closes hc, ih]
        exact counts_cons (by simp [hc, ho])
    · have hc' : b.closes m = false := by simpa using hc
      by_cases ho : b.opens m = true
      · rw [height?_opens ho, ih]
        exact counts_cons (by simp [hc', ho])
      · have ho' : b.opens m = false := by simpa using ho
        rw [height?_other hc' ho', ih]
        exact counts_cons (by simp [hc', ho'])

theorem balanced_iff_height? {ms : List Mark} : b.Balanced ms ↔ b.height? 0 ms = some 0 := by
  rw [height?_eq_some_iff]
  simp only [Nat.zero_add]
  exact ⟨fun h => ⟨h.above, h.level.symm⟩, fun h => ⟨h.1, h.2.symm⟩⟩

instance (b : Brackets) (ms : List Mark) : Decidable (b.Balanced ms) :=
  decidable_of_iff _ balanced_iff_height?.symm

theorem Balanced.height? {ms : List Mark} (h : b.Balanced ms) (height : Nat) :
    b.height? height ms = some height := by
  have h := height?_add (balanced_iff_height?.1 h) height
  rwa [Nat.zero_add] at h

theorem Balanced.append {ms ns : List Mark} (hm : b.Balanced ms) (hn : b.Balanced ns) :
    b.Balanced (ms ++ ns) := by
  rw [balanced_iff_height?, height?_append, hm.height? 0]
  exact hn.height? 0

/-- Brackets around balanced text balance. -/
theorem Balanced.wrap {ms : List Mark} (h : b.Balanced ms) {o c : Mark} (ho : b.opens o = true)
    (hc : b.closes c = true) : b.Balanced (o :: ms ++ [c]) := by
  rw [balanced_iff_height?, List.cons_append, height?_opens ho, height?_append, h.height? 1]
  exact height?_closes hc 0 []

theorem balanced_of_other {ms : List Mark}
    (h : ∀ m ∈ ms, b.closes m = false ∧ b.opens m = false) : b.Balanced ms := by
  rw [balanced_iff_height?]
  induction ms with
  | nil => rfl
  | cons m ms ih =>
    obtain ⟨hc, ho⟩ := h m List.mem_cons_self
    rw [height?_other hc ho]
    exact ih fun n hn => h n (List.mem_cons_of_mem m hn)

end Brackets

/-! ## 3. Looking for the closing bracket -/

theorem splitBlock_closes {m : Mark} (h : m.isCode '\x7d' = true) (depth : Nat)
    (rest : List Mark) :
    splitBlock (depth + 1) (m :: rest) =
      (splitBlock depth rest).map fun (body, tail) => (m :: body, tail) := by
  simp [splitBlock, h]

theorem splitBlock_of_not_closes {m : Mark} (h : m.isCode '\x7d' = false) (depth : Nat)
    (rest : List Mark) :
    splitBlock depth (m :: rest) =
      (splitBlock (if m.isCode '\x7b' then depth + 1 else depth) rest).map
        fun (body, tail) => (m :: body, tail) := by
  cases depth <;> simp [splitBlock, h]

/-- The brace that ends a block is looked for behind the braces that were opened and closed. -/
theorem splitBlock_append {depth k : Nat} {ms : List Mark} (h : braces.height? depth ms = some k)
    (rest : List Mark) :
    splitBlock depth (ms ++ rest) =
      (splitBlock k rest).map fun (body, tail) => (ms ++ body, tail) := by
  -- along the heights, which the search follows as its depth
  fun_induction Brackets.height? braces depth ms with
  | case1 depth => rw [Option.some.inj h]; simp
  | case2 m ms hc => exact absurd h (by simp)
  | case3 m ms hc depth ih =>
    rw [List.cons_append, splitBlock_closes hc, ih h, Option.map_map]
    rfl
  | case4 depth m ms hc ih =>
    have hc : m.isCode '\x7d' = false := by simpa [braces] using hc
    rw [List.cons_append, splitBlock_of_not_closes hc]
    exact (congrArg _ (ih h)).trans (Option.map_map _ _ _)

theorem splitClose_closes {m : Mark} (h : m.closes = true) (depth : Nat) (rest : List Mark) :
    splitClose (depth + 2) (m :: rest) =
      (splitClose (depth + 1) rest).map fun (inner, tail) => (m :: inner, tail) := by
  simp [splitClose, h]

theorem splitClose_of_not_closes {m : Mark} (h : m.closes = false) (depth : Nat)
    (rest : List Mark) :
    splitClose (depth + 1) (m :: rest) =
      (splitClose ((if m.opens then depth + 1 else depth) + 1) rest).map
        fun (inner, tail) => (m :: inner, tail) := by
  cases ho : m.opens <;> cases depth <;> simp [splitClose, h, ho]

theorem splitClose_opener {m : Mark} (h : m.opens = true) (rest : List Mark) :
    splitClose 0 (m :: rest) =
      (splitClose 1 rest).map fun (inner, tail) => (m :: inner, tail) := by
  cases hc : m.closes with
  | true => exact absurd h (by rw [Mark.opens_eq_false_of_closes hc]; decide)
  | false => simp [splitClose, hc, h]

/-- The closer of a bracket is looked for behind the brackets that were opened and closed. -/
theorem splitClose_append {depth k : Nat} {ms : List Mark}
    (h : allBrackets.height? depth ms = some k) (rest : List Mark) :
    splitClose (depth + 1) (ms ++ rest) =
      (splitClose (k + 1) rest).map fun (inner, tail) => (ms ++ inner, tail) := by
  fun_induction Brackets.height? allBrackets depth ms with
  | case1 depth => rw [Option.some.inj h]; simp
  | case2 m ms hc => exact absurd h (by simp)
  | case3 m ms hc depth ih =>
    rw [List.cons_append, splitClose_closes hc, ih h, Option.map_map]
    rfl
  | case4 depth m ms hc ih =>
    have hc : m.closes = false := by simpa [allBrackets] using hc
    rw [List.cons_append, splitClose_of_not_closes hc]
    exact (congrArg _ (ih h)).trans (Option.map_map _ _ _)

/-- What stands before the closer of a bracket balances with the brackets that are open in front of
it. -/
theorem of_splitClose {depth : Nat} {ms inner tail : List Mark}
    (h : splitClose (depth + 1) ms = some (inner, tail)) :
    ∃ m, m.closes = true ∧ ms = inner ++ m :: tail ∧
      allBrackets.height? depth inner = some 0 := by
  generalize hopen : depth + 1 = opened at h
  fun_induction splitClose opened ms generalizing depth inner tail with
  | case1 => simp at h
  | case2 => simp at h
  | case3 m rest hm =>
    obtain ⟨rfl, rfl⟩ := Prod.mk.inj (Option.some.inj h)
    obtain rfl : depth = 0 := Nat.succ.inj hopen
    exact ⟨m, hm, rfl, rfl⟩
  | case4 m rest hm opened ih =>
    obtain ⟨⟨b, t⟩, hb, he⟩ := Option.map_eq_some_iff.1 h
    obtain ⟨rfl, rfl⟩ := Prod.mk.inj he
    obtain rfl : depth = opened + 1 := Nat.succ.inj hopen
    obtain ⟨c, hc, rfl, hheight⟩ := ih rfl hb
    exact ⟨c, hc, rfl, by rwa [allBrackets.height?_closes hm]⟩
  | case5 opened m rest hm ih =>
    obtain ⟨⟨b, t⟩, hb, he⟩ := Option.map_eq_some_iff.1 h
    obtain ⟨rfl, rfl⟩ := Prod.mk.inj he
    -- the search counts the bracket itself, and the height does not
    have hnext : (if m.opens then depth + 1 else depth) + 1 =
        if m.opens then opened + 1 else opened := by
      split <;> omega
    obtain ⟨c, hc, rfl, hheight⟩ := ih hnext hb
    refine ⟨c, hc, rfl, ?_⟩
    rw [allBrackets.height?_of_not_closes (by simpa [allBrackets] using hm)]
    exact hheight

theorem Mark.utf8Size_of_closes {m : Mark} (h : m.closes = true) : m.char.utf8Size = 1 := by
  simp only [Mark.closes, isCloser, Bool.and_eq_true, Bool.or_eq_true, decide_eq_true_eq] at h
  rcases h.2 with (hc | hc) | hc <;> rw [hc] <;> decide

/-- The body of a block balances with the braces that are open in front of it. -/
theorem of_splitBlock {depth : Nat} {ms body tail : List Mark}
    (h : splitBlock depth ms = some (body, tail)) :
    ∃ m, m.isCode '\x7d' = true ∧ ms = body ++ m :: tail ∧
      braces.height? depth body = some 0 := by
  fun_induction splitBlock depth ms generalizing body tail with
  | case1 => simp at h
  | case2 m rest hm =>
    obtain ⟨rfl, rfl⟩ := Prod.mk.inj (Option.some.inj h)
    exact ⟨m, hm, rfl, rfl⟩
  | case3 m rest hm depth ih =>
    obtain ⟨⟨b, t⟩, hb, he⟩ := Option.map_eq_some_iff.1 h
    obtain ⟨rfl, rfl⟩ := Prod.mk.inj he
    obtain ⟨c, hc, rfl, hheight⟩ := ih hb
    exact ⟨c, hc, rfl, by rwa [braces.height?_closes hm]⟩
  | case4 depth m rest hm ih =>
    obtain ⟨⟨b, t⟩, hb, he⟩ := Option.map_eq_some_iff.1 h
    obtain ⟨rfl, rfl⟩ := Prod.mk.inj he
    obtain ⟨c, hc, rfl, hheight⟩ := ih hb
    refine ⟨c, hc, rfl, ?_⟩
    rw [braces.height?_of_not_closes (by simpa [braces] using hm)]
    exact hheight

/-- The body of a block is what balances before the brace that ends it. -/
theorem splitBlock_eq_some_iff {ms body tail : List Mark} :
    splitBlock 0 ms = some (body, tail) ↔
      ∃ m, m.isCode '\x7d' = true ∧ ms = body ++ m :: tail ∧ braces.Balanced body := by
  constructor
  · intro h
    obtain ⟨m, hm, hms, hbody⟩ := of_splitBlock h
    exact ⟨m, hm, hms, Brackets.balanced_iff_height?.2 hbody⟩
  · rintro ⟨m, hm, rfl, hbody⟩
    rw [splitBlock_append (hbody.height? 0)]
    simp [splitBlock, hm]

/-- Nothing ends a block if no brace closes more than was opened. -/
theorem exists_height?_of_splitBlock {depth : Nat} {ms : List Mark}
    (h : splitBlock depth ms = none) : ∃ k, braces.height? depth ms = some k := by
  fun_induction splitBlock depth ms with
  | case1 depth => exact ⟨depth, rfl⟩
  | case2 => simp at h
  | case3 m rest hm depth ih =>
    obtain ⟨k, hk⟩ := ih (Option.map_eq_none_iff.1 h)
    exact ⟨k, by rwa [braces.height?_closes hm]⟩
  | case4 depth m rest hm ih =>
    obtain ⟨k, hk⟩ := ih (Option.map_eq_none_iff.1 h)
    refine ⟨k, ?_⟩
    rw [braces.height?_of_not_closes (by simpa [braces] using hm)]
    exact hk

/-- A brace that opens in balanced text is closed there. -/
theorem Brackets.Balanced.splitBlock_isSome {front rest : List Mark} {o : Mark}
    (h : braces.Balanced (front ++ o :: rest)) (ho : o.isCode '\x7b' = true) :
    (splitBlock 0 rest).isSome = true := by
  have hheight := balanced_iff_height?.1 h
  rw [height?_append] at hheight
  obtain ⟨k, -, hrest⟩ := Option.bind_eq_some_iff.1 hheight
  rw [height?_opens ho] at hrest
  cases hs : splitBlock 0 rest with
  | some p => rfl
  | none =>
    -- then the braces that were open before are still open at the end
    obtain ⟨j, hj⟩ := exists_height?_of_splitBlock hs
    have hopen := height?_add hj (k + 1)
    rw [Nat.zero_add, hrest] at hopen
    have := Option.some.inj hopen
    omega

/-! ## 4. Texts between parentheses -/

theorem isBlank_of_isCloser {c : Char} (h : isCloser c = true) : isBlank c = false := by
  simp only [isCloser, Bool.or_eq_true, decide_eq_true_eq] at h
  rcases h with (rfl | rfl) | rfl <;> decide

theorem isPlain_of_isCloser : ∀ c, isCloser c = true → isPlain c = true :=
  isPlain_of_holds (by decide) (by decide) (by decide) (by decide)

/-- A text that can stand between the parentheses of a call: read on its own it leaves no literal
and no comment open, and its brackets, all kinds counted together, balance. -/
structure IsArgumentList (t : Text) : Prop where
  mode : finalMode t = .code
  balanced : allBrackets.Balanced (marks t)

instance (t : Text) : Decidable (IsArgumentList t) :=
  decidable_of_iff (finalMode t = .code ∧ allBrackets.Balanced (marks t))
    ⟨fun h => ⟨h.1, h.2⟩, fun h => ⟨h.mode, h.balanced⟩⟩

namespace IsArgumentList

variable {t : Text}

theorem append {a b : Text} (ha : IsArgumentList a) (hb : IsArgumentList b)
    (hmeet : MeetApart a b) : IsArgumentList (a ++ b) where
  mode := by rw [finalMode_append ha.mode hmeet]; exact hb.mode
  balanced := by rw [marks_append ha.mode hmeet]; exact ha.balanced.append hb.balanced

theorem braced (h : IsArgumentList t) : IsArgumentList ('\x7b' :: t ++ ['\x7d']) where
  mode := by
    rw [List.cons_append, finalMode_plain_cons (by decide),
      finalMode_append_cons h.mode (by decide) (by decide)]
    rfl
  balanced := by
    rw [List.cons_append, marks_plain_cons (by decide),
      marks_append_cons h.mode (by decide) (by decide)]
    exact h.balanced.wrap (by decide) (by decide)

/-- A closer behind such a text closes the bracket in front of it. -/
theorem enclosed?_append (h : IsArgumentList t) {c : Char} (hc : isCloser c = true)
    (tail : Text) : enclosed? (t ++ c :: tail) = some (t, tail) := by
  have hstar : c ≠ '*' := of_decide_eq_true (Text.ne_of_holds (by decide) c hc)
  have hcloses : (codeMark c).closes = true := by simp [Mark.closes, codeMark, hc]
  unfold enclosed?
  rw [marks_append_cons h.mode (isPlain_of_isCloser c hc) hstar,
    splitClose_append (h.balanced.height? 0)]
  simp [splitClose, hcloses]

end IsArgumentList

/-- What stands between parentheses is such a text, with its closer behind it. -/
theorem of_enclosed? {t inner tail : Text} (h : enclosed? t = some (inner, tail)) :
    IsArgumentList inner ∧ ∃ c, isCloser c = true ∧ t = inner ++ c :: tail := by
  obtain ⟨⟨ms, ns⟩, hs, he⟩ := Option.map_eq_some_iff.1 h
  obtain ⟨rfl, rfl⟩ := Prod.mk.inj he
  obtain ⟨⟨c, kind⟩, hm, ht, hheight⟩ := of_splitClose hs
  simp only [Mark.closes, Bool.and_eq_true, decide_eq_true_eq] at hm
  obtain ⟨rfl, hc⟩ := hm
  have hbreak : c ≠ '\n' := of_decide_eq_true (Text.ne_of_holds (by decide) c hc)
  refine ⟨⟨finalMode_before_code ht rfl hbreak, ?_⟩, c, hc, ?_⟩
  · rw [marks_before_code ht rfl, Brackets.balanced_iff_height?]
    exact hheight
  · rw [← unmark_marks t, ht, unmark_append, unmark_cons]

end Parlance.Source
