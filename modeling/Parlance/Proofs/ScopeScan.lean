import Parlance.Proofs.ScopeSearch

/-!
What a scan reads. At every place the turns of a scan and the steps of the reader agree, so the scan
gives the tree of its text, and in each of its turns it moves on within the text.
-/

namespace Parlance

open Source

namespace Document

variable {f : Framework} {t : Text}

/-! ## 1. Turns at a place -/

section Place

variable {before after : Text}

theorem turn_end (f : Framework) (t : Text) : turn f t (Text.size t) = .ended := by
  -- what is found at the end of the text would have to be empty
  have hnone {d : Declaration} {before s rest : Text} (h : d.Stands t before s rest) (hs : s ≠ [])
      (hle : Text.size t ≤ d.start) : False := by
    have hstart := h.start_lt_stop hs
    have hstop := h.isBoundary_stop.le
    omega
  have hnext : Declaration.next? f t (Text.size t) = none := by
    apply Option.eq_none_iff_forall_ne_some.2
    intro d hd
    obtain ⟨_, _, _, hstands, hle, hheads⟩ := Declaration.exists_heads_of_next? hd
    exact hnone hstands hheads.ne_nil hle
  have hrejected : rejected? f t (Text.size t) = none := by
    apply Option.eq_none_iff_forall_ne_some.2
    intro c hc
    obtain ⟨_, _, _, hstands, hle, hs, -⟩ :=
      Declaration.exists_stands_of_candidate (Option.filter_eq_some_iff.1 hc).1
    exact hnone hstands hs hle
  rw [turn, hnext, hrejected]

/-- Where nothing stands, the turn is that of the next place. -/
theorem turn_idle {c : Char} (ho : Opening.at? f ⟨before.getLast?, c :: after⟩ = none)
    (hl : looksDeclared f ⟨before.getLast?, c :: after⟩ = false) :
    turn f (before ++ c :: after) (Text.size before) =
      turn f (before ++ c :: after) (Text.size (before ++ [c])) := by
  rw [turn, turn, rejected?, rejected?, Declaration.next?_of_at?_none ho,
    Declaration.candidate_of_not_looksDeclared hl]

/-- Nothing is rejected where a declaration can be read. -/
theorem rejected?_of_at? {o : Opening} (ho : Opening.at? f ⟨before.getLast?, after⟩ = some o) :
    rejected? f (before ++ after) (Text.size before) = none := by
  obtain ⟨d, hd, hstart⟩ := Declaration.next?_of_at? ho
  rw [rejected?, hd]
  apply Option.filter_eq_none_iff.2
  intro c hc
  obtain ⟨_, _, _, -, hle, -⟩ := Declaration.exists_stands_of_candidate hc
  simp only [Option.all_some, decide_eq_true_eq]
  omega

theorem rejected?_of_looksDeclared {c : Char}
    (ho : Opening.at? f ⟨before.getLast?, c :: after⟩ = none)
    (hl : looksDeclared f ⟨before.getLast?, c :: after⟩ = true) :
    ∃ found, rejected? f (before ++ c :: after) (Text.size before) = some found ∧
      found.start = Text.size before := by
  obtain ⟨found, hfound, hstart⟩ := Declaration.candidate_of_looksDeclared hl
  refine ⟨found, Option.filter_eq_some_iff.2 ⟨hfound, ?_⟩, hstart⟩
  -- a declaration that can be read stands behind the first character
  rw [Declaration.next?_of_at?_none ho]
  cases hd : Declaration.next? f (before ++ c :: after) (Text.size (before ++ [c])) with
  | none => rfl
  | some d =>
    obtain ⟨_, _, _, -, hle, -⟩ := Declaration.exists_heads_of_next? hd
    have hchar := c.utf8Size_pos
    simp only [Text.size_append, Text.size_cons, Text.size_nil] at hle
    simp only [Option.all_some, decide_eq_true_eq]
    omega

/-- What is hidden is passed by one character, and so is a place where nothing stands. -/
theorem scanFrom_one {c : Char} {gap : Nat}
    (h : inSpans (hiddenSpans (before ++ c :: after)) (Text.size before) = true ∨
      Opening.at? f ⟨before.getLast?, c :: after⟩ = none ∧
        looksDeclared f ⟨before.getLast?, c :: after⟩ = false) :
    scanFrom f (before ++ c :: after) (Text.size before) gap =
      scanFrom f (before ++ c :: after) (Text.size (before ++ [c])) gap := by
  -- what stands here is a head or a call that cannot be read, and is hidden, or it is nothing
  cases ho : Opening.at? f ⟨before.getLast?, c :: after⟩ with
  | some o =>
    have hhidden := h.resolve_right fun h => absurd (ho.symm.trans h.1) (by simp)
    obtain ⟨d, hd, hstart⟩ := Declaration.next?_of_at? ho
    have hturn : turn f (before ++ c :: after) (Text.size before) =
        .passed d (Text.size (before ++ [c])) := by
      rw [turn, rejected?_of_at? ho, hd]
      simp only [hstart, hhidden, if_true, advance_self]
    rw [scanFrom_passed hturn]
  | none =>
    cases hl : looksDeclared f ⟨before.getLast?, c :: after⟩ with
    | false => exact scanFrom_congr (turn_idle ho hl)
    | true =>
      have hhidden := h.resolve_right fun h => absurd (hl.symm.trans h.2) (by decide)
      obtain ⟨found, hfound, hstart⟩ := rejected?_of_looksDeclared ho hl
      have hturn : turn f (before ++ c :: after) (Text.size before) =
          .passed found (Text.size (before ++ [c])) := by
        rw [turn, hfound]
        simp only [hstart, hhidden, if_true, advance_self]
      rw [scanFrom_passed hturn]

/-- A call that cannot be read is passed to its end, or to the end of the text. -/
theorem scanFrom_call {c : Char} {gap : Nat}
    (hvisible : inSpans (hiddenSpans (before ++ c :: after)) (Text.size before) = false)
    (ho : Opening.at? f ⟨before.getLast?, c :: after⟩ = none)
    (hl : looksDeclared f ⟨before.getLast?, c :: after⟩ = true) :
    scanFrom f (before ++ c :: after) (Text.size before) gap =
      scanFrom f (before ++ c :: after) (Text.size before + Text.size ((c :: after).take
        ((callLength? (c :: after)).getD (c :: after).length))) gap := by
  obtain ⟨found, hfound, hstart⟩ := rejected?_of_looksDeclared ho hl
  have hnext : (callEnd? (before ++ c :: after) (Text.size before)).getD
      (Text.size (before ++ c :: after)) = Text.size before + Text.size ((c :: after).take
        ((callLength? (c :: after)).getD (c :: after).length)) := by
    rw [callEnd?_append]
    cases callLength? (c :: after) with
    | none => rw [Option.map_none, Option.getD_none, Option.getD_none, List.take_length,
        Text.size_append]
    | some n => rfl
  have hturn : turn f (before ++ c :: after) (Text.size before) =
      .passed found (Text.size before + Text.size ((c :: after).take
        ((callLength? (c :: after)).getD (c :: after).length))) := by
    rw [turn, hfound]
    simp only [hstart, hvisible, Bool.false_eq_true, if_false, hnext]
  rw [scanFrom_passed hturn]

end Place

/-! ## 2. Declarations at a place -/

/-- What the search finds where a head stands is that head. -/
theorem next?_eq_of_at? {before after : Text} {o : Opening}
    (ho : Opening.at? f ⟨before.getLast?, after⟩ = some o) :
    ∃ d, Declaration.next? f (before ++ after) (Text.size before) = some d ∧
      d.start = Text.size before ∧ d.slot = o.slot ∧ d.title.getD [] = o.title ∧
      d.stop = Text.size (before ++ after.take o.length) := by
  obtain ⟨s, rest, rfl, hs, hlength⟩ := Opening.at?_eq_some_iff.1 ho
  obtain ⟨d, hd, hstart⟩ := Declaration.next?_of_at? ho
  obtain ⟨before', s', rest', ⟨htext, hstart', hstop⟩, -, hs'⟩ :=
    Declaration.exists_heads_of_next? hd
  obtain ⟨rfl, hafter⟩ := Text.eq_of_size_eq htext (hstart.symm.trans hstart')
  obtain ⟨hslot, rfl, htitle⟩ := Slot.Heads.unique hafter hs hs'
  refine ⟨d, hd, hstart, hslot.symm, htitle.symm, ?_⟩
  rw [hstop, hlength, List.take_left, Text.size_append]

/-- Fewer characters take fewer bytes. -/
theorem size_take_lt {m n : Nat} (t : Text) (h : m < n) (hn : n ≤ t.length) :
    Text.size (t.take m) < Text.size (t.take n) := by
  have hsplit : t.take n = t.take m ++ (t.drop m).take (n - m) := by
    have htake : t.take m = (t.take n).take m := by
      rw [List.take_take, Nat.min_eq_left (by omega)]
    rw [← List.drop_take, htake, List.take_append_drop]
  have hne : (t.drop m).take (n - m) ≠ [] := by
    apply List.ne_nil_of_length_pos
    rw [List.length_take, List.length_drop]
    omega
  rw [hsplit, Text.size_append]
  have := Text.size_pos hne
  omega

theorem size_take_mono {m n : Nat} (t : Text) (h : m ≤ n) :
    Text.size (t.take m) ≤ Text.size (t.take n) := by
  rw [show t.take m = (t.take n).take m by rw [List.take_take, Nat.min_eq_left h]]
  exact Text.size_take_le m (t.take n)

/-- The block of a head at a place, and where it ends. -/
theorem blockAt_head (before after : Text) (length : Nat) :
    blockAt (before ++ after) (Text.size (before ++ after.take length)) =
      ⟨(Block.read (after.drop length)).body, Text.size before +
        Text.size (after.take (length + (Block.read (after.drop length)).length)),
        (Block.read (after.drop length)).closed⟩ := by
  have h := blockAt_append (before ++ after.take length) (after.drop length)
  rw [List.append_assoc, List.take_append_drop] at h
  rw [h, List.take_add, Text.size_append, Text.size_append, Nat.add_assoc]

/-- Counted in bytes, the search goes on behind a declaration where it does counted in
characters. -/
theorem behind_eq {before after : Text} {o : Opening} {d : Declaration} {block : BlockAt}
    (hpos : 0 < o.length) (hlength : o.length ≤ after.length)
    (hstart : d.start = Text.size before)
    (hstop : block.stop = Text.size before +
      Text.size (after.take (o.length + (Block.read (after.drop o.length)).length))) :
    behind (before ++ after) d block = Text.size before +
      Text.size (after.take (claimedLength after o (Block.read (after.drop o.length)))) := by
  have hblock := Block.length_le (after.drop o.length)
  rw [List.length_drop] at hblock
  generalize hl : o.length + (Block.read (after.drop o.length)).length = length at hstop
  have hbehind : Text.size before < block.stop := by
    have := size_take_lt after (show 0 < length by omega) (by omega)
    omega
  rw [behind, claimedLength, hstart, callEnd?_append, hl]
  -- the call counts only if it does not end before the block
  cases callLength? after with
  | none =>
    rw [Option.map_none, Option.filter_none, Option.getD_none, Option.getD_none,
      advance_of_lt hbehind, hstop, show max 1 (max length 0) = length by omega]
  | some n =>
    rw [Option.map_some, Option.getD_some]
    by_cases hn : length ≤ n
    · have hle := size_take_mono after hn
      rw [Option.filter_some, if_pos (by simp only [decide_eq_true_eq]; omega), Option.getD_some,
        advance_of_lt (by omega), show max 1 (max length n) = n by omega]
    · have hlt := size_take_lt after (show n < length by omega) (by omega)
      rw [Option.filter_some, if_neg (by simp only [decide_eq_true_eq]; omega), Option.getD_none,
        advance_of_lt hbehind, hstop, show max 1 (max length n) = length by omega]

/-- A head of code is taken with its block. -/
theorem turn_head {before after : Text} {o : Opening}
    (hvisible : inSpans (hiddenSpans (before ++ after)) (Text.size before) = false)
    (ho : Opening.at? f ⟨before.getLast?, after⟩ = some o) :
    ∃ d block, turn f (before ++ after) (Text.size before) = .taken d block (Text.size before +
        Text.size (after.take (claimedLength after o (Block.read (after.drop o.length))))) ∧
      d.start = Text.size before ∧ d.slot = o.slot ∧ d.title.getD [] = o.title ∧
      block.body = (Block.read (after.drop o.length)).body ∧
      block.closed = (Block.read (after.drop o.length)).closed := by
  obtain ⟨d, hd, hstart, hslot, htitle, hstop⟩ := next?_eq_of_at? ho
  have hblock := blockAt_head before after o.length
  have hlength : 0 < o.length ∧ o.length ≤ after.length := by
    obtain ⟨s, rest, rfl, hs, hl⟩ := Opening.at?_eq_some_iff.1 ho
    have := List.length_pos_iff.2 hs.ne_nil
    rw [List.length_append]
    omega
  refine ⟨d, blockAt (before ++ after) d.stop, ?_, hstart, hslot, htitle, ?_, ?_⟩
  · rw [turn, rejected?_of_at? ho, hd]
    simp only [hstart, hvisible, Bool.false_eq_true, if_false]
    rw [behind_eq hlength.1 hlength.2 hstart (by rw [hstop, hblock])]
  · rw [hstop, hblock]
  · rw [hstop, hblock]

/-! ## 3. The scan reads the tree -/

theorem rest_ofMarks (last : Option Char) (ms : List Mark) :
    (Cursor.ofMarks last ms).rest = unmark ms := rfl

theorem drop_behind (before : Text) (ms : List Mark) (n : Nat) :
    (Cursor.ofMarks before.getLast? ms).drop n =
      .ofMarks (before ++ unmark (ms.take n)).getLast? (ms.drop n) := by
  rw [Cursor.drop_ofMarks, List.getLast?_append]

theorem between_append (front gap rest : Text) :
    between (front ++ gap ++ rest) (Text.size front) (Text.size (front ++ gap)) = gap := by
  rw [between, List.append_assoc, Text.fromOffset_append, Text.size_append,
    Nat.add_sub_cancel_left, Text.cut?_size]
  rfl

theorem ofTaken_eq {d : Declaration} {block : BlockAt} {o : Opening} {read : Block}
    (hslot : d.slot = o.slot) (htitle : d.title.getD [] = o.title) (hbody : block.body = read.body)
    (hinner : scan f block.body = ofSource f block.body) :
    ofTaken f d block (if d.slot = .suite then scan f block.body else {}) =
      declared f o read := by
  rw [hinner, hbody, ofTaken, declared, htitle, hslot, hbody]
  cases o.slot <;> rfl

theorem ofOpen_eq {d : Declaration} {block : BlockAt} {o : Opening} {read : Block}
    (hslot : d.slot = o.slot) (htitle : d.title.getD [] = o.title)
    (hclosed : block.closed = read.closed) : ofOpen d block = ofUnclosed o read := by
  have hname : d.reportName = o.reportName := by
    cases hs : o.slot <;> simp [Declaration.reportName, Opening.reportName, hslot, htitle, hs]
  rw [ofOpen, ofUnclosed, hclosed, hname]

/-- The place before the marked characters `ms` of a text; `front` is what stands before the gap. -/
def IsPlace (t front gap : Text) (ms : List Mark) : Prop :=
  ∃ before, marks t = before ++ ms ∧ unmark before = front ++ gap

/-- From a place on, a scan and the reader read the same. -/
def ScansAlike (f : Framework) (t front gap : Text) (ms : List Mark) : Prop :=
  scanFrom f t (Text.size (front ++ gap)) (Text.size front) =
    readFrom f gap.reverse (.ofMarks (front ++ gap).getLast? ms)

section Places

variable {front gap : Text} {m : Mark} {ms : List Mark}

theorem IsPlace.text (h : IsPlace t front gap ms) : t = front ++ gap ++ unmark ms := by
  obtain ⟨before, hms, hbefore⟩ := h
  rw [← unmark_marks t, hms, unmark_append, hbefore]

theorem IsPlace.isHidden (h : IsPlace t front gap (m :: ms)) :
    inSpans (hiddenSpans t) (Text.size (front ++ gap)) = m.isHidden := by
  obtain ⟨before, hms, hbefore⟩ := h
  have hspan := inSpans_hiddenSpans hms m.char.utf8Size_pos
  rwa [hbefore] at hspan

/-- The place some characters on, with these in the gap. -/
theorem IsPlace.drop (h : IsPlace t front gap ms) (n : Nat) :
    IsPlace t front (gap ++ unmark (ms.take n)) (ms.drop n) := by
  obtain ⟨before, hms, hbefore⟩ := h
  refine ⟨before ++ ms.take n, ?_, ?_⟩
  · rw [List.append_assoc, List.take_append_drop, hms]
  · rw [unmark_append, hbefore, List.append_assoc]

/-- The place behind a gap that a declaration ends. -/
theorem IsPlace.closed (h : IsPlace t front gap ms) : IsPlace t (front ++ gap) [] ms := by
  obtain ⟨before, hms, hbefore⟩ := h
  exact ⟨before, hms, by rw [hbefore, List.append_nil]⟩

theorem scansAlike_end (h : IsPlace t front gap []) : ScansAlike f t front gap [] := by
  have ht := h.text
  rw [unmark_nil, List.append_nil] at ht
  rw [ScansAlike, ← ht, scanFrom_ended (turn_end f t), readFrom_nil, List.reverse_reverse, ht,
    Text.fromOffset_append]

/-- What the reader passes goes to the gap. -/
theorem scansAlike_passed {n : Nat} (hn : 0 < n)
    (hhead : head? f (.ofMarks (front ++ gap).getLast? (m :: ms)) = none)
    (hlength : passedLength f (.ofMarks (front ++ gap).getLast? (m :: ms)) = n)
    (hscan : scanFrom f t (Text.size (front ++ gap)) (Text.size front) = scanFrom f t
      (Text.size (front ++ gap) + Text.size ((unmark (m :: ms)).take n)) (Text.size front))
    (hnext : ScansAlike f t front (gap ++ unmark ((m :: ms).take n)) ((m :: ms).drop n)) :
    ScansAlike f t front gap (m :: ms) := by
  have hrest : (Cursor.ofMarks (front ++ gap).getLast? (m :: ms)).rest ≠ [] := by
    simp [Cursor.ofMarks]
  rw [ScansAlike, ← List.append_assoc, Text.size_append, List.reverse_append] at hnext
  rw [ScansAlike, hscan, readFrom_passed hrest hhead, hlength, show max 1 n = n by omega,
    drop_behind, rest_ofMarks, ← unmark_take, hnext]

/-- A hidden character is passed, and so is one where nothing is declared. -/
theorem scansAlike_one (h : IsPlace t front gap (m :: ms))
    (hone : m.kind ≠ .code ∨
      Opening.at? f ⟨(front ++ gap).getLast?, unmark (m :: ms)⟩ = none ∧
        looksDeclared f ⟨(front ++ gap).getLast?, unmark (m :: ms)⟩ = false)
    (hnext : ScansAlike f t front (gap ++ unmark ((m :: ms).take 1)) ((m :: ms).drop 1)) :
    ScansAlike f t front gap (m :: ms) := by
  have hhidden := h.isHidden
  have hspan : inSpans (hiddenSpans t) (Text.size (front ++ gap)) = true ∨
      Opening.at? f ⟨(front ++ gap).getLast?, m.char :: unmark ms⟩ = none ∧
        looksDeclared f ⟨(front ++ gap).getLast?, m.char :: unmark ms⟩ = false :=
    hone.imp_left fun hm => by rw [hhidden, Mark.isHidden, decide_eq_true hm]
  have hscan : scanFrom f t (Text.size (front ++ gap)) (Text.size front) = scanFrom f t
      (Text.size (front ++ gap) + Text.size ((unmark (m :: ms)).take 1)) (Text.size front) := by
    obtain rfl := h.text
    rw [← Text.size_append]
    exact scanFrom_one hspan
  refine scansAlike_passed Nat.one_pos ?_ ?_ hscan hnext
  · by_cases hm : m.kind = .code
    · rw [head?_of_code hm]
      exact (hone.resolve_left (not_not_intro hm)).1
    · exact head?_of_hidden hm
  · by_cases hm : m.kind = .code
    · rw [passedLength_of_code hm, (hone.resolve_left (not_not_intro hm)).2]
      rfl
    · exact passedLength_of_hidden hm

/-- A call of code that looks like a declaration is passed as a whole. -/
theorem scansAlike_call (h : IsPlace t front gap (m :: ms)) (hm : m.kind = .code)
    (ho : Opening.at? f ⟨(front ++ gap).getLast?, unmark (m :: ms)⟩ = none)
    (hl : looksDeclared f ⟨(front ++ gap).getLast?, unmark (m :: ms)⟩ = true)
    (hnext : ∀ n, 0 < n →
      ScansAlike f t front (gap ++ unmark ((m :: ms).take n)) ((m :: ms).drop n)) :
    ScansAlike f t front gap (m :: ms) := by
  have hvisible := h.isHidden
  rw [Mark.isHidden, hm] at hvisible
  obtain rfl := h.text
  have hpos : 0 < (callLength? (unmark (m :: ms))).getD (unmark (m :: ms)).length := by
    cases hlength : callLength? (unmark (m :: ms)) with
    | none => simp
    | some n => exact callLength?_pos hlength
  refine scansAlike_passed hpos ?_ ?_ (scanFrom_call hvisible ho hl) (hnext _ hpos)
  · rw [head?_of_code hm, ho]
  · rw [passedLength_of_code hm, if_pos hl, length_unmark, List.length_cons]

/-- A head of code is taken with its block. -/
theorem scansAlike_head (h : IsPlace t front gap (m :: ms)) (hm : m.kind = .code) {o : Opening}
    (ho : Opening.at? f ⟨(front ++ gap).getLast?, unmark (m :: ms)⟩ = some o)
    (hinner : ∀ body, Text.size body < Text.size t → scan f body = ofSource f body)
    (hnext : ∀ n, 0 < n →
      ScansAlike f t (front ++ (gap ++ unmark ((m :: ms).take n))) [] ((m :: ms).drop n)) :
    ScansAlike f t front gap (m :: ms) := by
  have hvisible := h.isHidden
  rw [Mark.isHidden, hm] at hvisible
  obtain rfl := h.text
  obtain ⟨d, block, hturn, hstart, hslot, htitle, hbody, hclosed⟩ := turn_head hvisible ho
  have hsmaller := (moves_taken hturn).2.2.2
  have hend := (moves_taken hturn).1.next.le
  have hrest : (Cursor.ofMarks (front ++ gap).getLast? (m :: ms)).rest ≠ [] := by
    simp [Cursor.ofMarks]
  have hhead : head? f (.ofMarks (front ++ gap).getLast? (m :: ms)) = some o := by
    rw [head?_of_code hm, ho]
  have hpos : 0 < claimedLength (unmark (m :: ms)) o
      (Block.read ((unmark (m :: ms)).drop o.length)) := by
    rw [claimedLength]
    omega
  have hnext := hnext _ hpos
  rw [ScansAlike, List.append_nil, ← List.append_assoc, Text.size_append, unmark_take] at hnext
  rw [ScansAlike, scanFrom_taken hturn, readFrom_declared hrest hhead, hstart, between_append,
    List.reverse_reverse, ofOpen_eq hslot htitle hclosed,
    ofTaken_eq hslot htitle hbody (hinner _ hsmaller), Nat.min_eq_left hend, hnext, drop_behind,
    unmark_take]
  rfl

end Places

/-- From any place on, a scan and the reader read the same. -/
theorem scansAlike (hinner : ∀ body, Text.size body < Text.size t → scan f body = ofSource f body)
    {front gap : Text} {ms : List Mark} (h : IsPlace t front gap ms) :
    ScansAlike f t front gap ms := by
  induction hn : ms.length using Nat.strongRecOn generalizing front gap ms with
  | ind n ih =>
    cases ms with
    | nil => exact scansAlike_end h
    | cons m ms =>
      have hshorter (k : Nat) (hk : 0 < k) : ((m :: ms).drop k).length < n := by
        rw [List.length_drop]
        simp only [List.length_cons] at hn ⊢
        omega
      have hpassed (k : Nat) (hk : 0 < k) :
          ScansAlike f t front (gap ++ unmark ((m :: ms).take k)) ((m :: ms).drop k) :=
        ih _ (hshorter k hk) (h.drop k) rfl
      have hclaimed (k : Nat) (hk : 0 < k) :
          ScansAlike f t (front ++ (gap ++ unmark ((m :: ms).take k))) [] ((m :: ms).drop k) :=
        ih _ (hshorter k hk) (h.drop k).closed rfl
      by_cases hm : m.kind = .code
      · cases ho : Opening.at? f ⟨(front ++ gap).getLast?, unmark (m :: ms)⟩ with
        | some o => exact scansAlike_head h hm ho hinner hclaimed
        | none =>
          cases hl : looksDeclared f ⟨(front ++ gap).getLast?, unmark (m :: ms)⟩ with
          | true => exact scansAlike_call h hm ho hl hpassed
          | false => exact scansAlike_one h (.inr ⟨ho, hl⟩) (hpassed 1 Nat.one_pos)
      · exact scansAlike_one h (.inl hm) (hpassed 1 Nat.one_pos)

/-- A scan of a text reads its tree. -/
theorem scan_eq (f : Framework) (t : Text) : scan f t = ofSource f t := by
  induction hn : Text.size t using Nat.strongRecOn generalizing t with
  | ind n ih =>
    have hplace : IsPlace t [] [] (marks t) := ⟨[], rfl, rfl⟩
    have h := scansAlike (fun body hbody => ih _ (hn ▸ hbody) body rfl) hplace
    rw [ScansAlike, List.append_nil, Text.size_nil, List.reverse_nil, List.getLast?_nil] at h
    rw [scan, h, ofSource_eq]

/-! ## 4. A run of turns -/

/-- A scan comes to a cursor and a gap after some turns. -/
inductive Reaches (f : Framework) (t : Text) : (turns cursor gap : Nat) → Prop
  | start : Reaches f t 0 0 0
  | passed {turns cursor gap next : Nat} {found : Declaration} (h : Reaches f t turns cursor gap)
      (hturn : turn f t cursor = .passed found next) : Reaches f t (turns + 1) next gap
  | taken {turns cursor gap next : Nat} {d : Declaration} {block : BlockAt}
      (h : Reaches f t turns cursor gap) (hturn : turn f t cursor = .taken d block next) :
      Reaches f t (turns + 1) next (min next (Text.size t))

/-- No turn is spent without going on, and the gap begins and ends between two characters. -/
theorem Reaches.within {turns cursor gap : Nat} (h : Reaches f t turns cursor gap) :
    turns ≤ cursor ∧ gap ≤ cursor ∧ Text.IsBoundary t gap ∧ Text.IsBoundary t cursor := by
  induction h with
  | start =>
    exact ⟨Nat.le_refl _, Nat.le_refl _, Text.isBoundary_start t, Text.isBoundary_start t⟩
  | passed h hturn ih =>
    obtain ⟨hturns, hle, hgap, -⟩ := ih
    have hmoves := moves_passed hturn
    have hforward := hmoves.forward
    exact ⟨by omega, by omega, hgap, hmoves.next⟩
  | taken h hturn ih =>
    obtain ⟨hturns, hle, -, -⟩ := ih
    have hmoves := (moves_taken hturn).1
    have hforward := hmoves.forward
    have hend := hmoves.next.le
    rw [Nat.min_eq_left hend]
    exact ⟨by omega, Nat.le_refl _, hmoves.next, hmoves.next⟩

/-- From every cursor that a scan comes to, it comes to its end. -/
theorem Reaches.exists_ended {turns cursor gap : Nat} (h : Reaches f t turns cursor gap) :
    ∃ turns' cursor' gap', Reaches f t turns' cursor' gap' ∧ turn f t cursor' = .ended := by
  induction hn : Text.size t - cursor using Nat.strongRecOn generalizing turns cursor gap with
  | ind n ih =>
    have hcursor := h.within.2.2.2.le
    cases hturn : turn f t cursor with
    | ended => exact ⟨turns, cursor, gap, h, hturn⟩
    | passed found next =>
      have hforward := (moves_passed hturn).forward
      have hend := (moves_passed hturn).next.le
      exact ih _ (by omega) (h.passed hturn) rfl
    | taken d block next =>
      have hforward := (moves_taken hturn).1.forward
      have hend := (moves_taken hturn).1.next.le
      exact ih _ (by omega) (h.taken hturn) rfl

/-- The tree of a text is read by a scan that comes to its end. Each turn moves the cursor forward,
takes a declaration only behind the gap, and uses offsets of the text that fall between two
characters; the body of what is taken, which is scanned in its turn, is shorter than the text. -/
theorem scan_moves (f : Framework) (t : Text) :
    scan f t = ofSource f t ∧
    (∃ turns cursor gap, Reaches f t turns cursor gap ∧ turn f t cursor = .ended) ∧
    ∀ turns cursor gap, Reaches f t turns cursor gap →
      turns ≤ cursor ∧ gap ≤ cursor ∧ Text.IsBoundary t gap ∧ Text.IsBoundary t cursor ∧
      (∀ found next, turn f t cursor = .passed found next → Moves t cursor found next) ∧
      ∀ d block next, turn f t cursor = .taken d block next →
        Moves t cursor d next ∧ gap ≤ d.start ∧ Text.IsBoundary t block.stop ∧
          Text.size block.body < Text.size t := by
  refine ⟨scan_eq f t, Reaches.start.exists_ended, ?_⟩
  intro turns cursor gap h
  obtain ⟨hturns, hle, hgap, hcursor⟩ := h.within
  refine ⟨hturns, hle, hgap, hcursor, fun found next => moves_passed, ?_⟩
  intro d block next hturn
  obtain ⟨hmoves, hblock, -, hbody⟩ := moves_taken hturn
  exact ⟨hmoves, Nat.le_trans hle hmoves.reached, hblock, hbody⟩

/-- A test behind a character of two bytes, a head in a comment, and a call that cannot be read. -/
def mixedCalls : Text := "é it('ü', () => \x7b\x7d) /*it('*/ it(x, f)".toList

theorem scan_moves_mixedCalls :
    Reaches .cypress mixedCalls 2 25 21 ∧ 2 ≤ 25 ∧ 21 ≤ 25 ∧ Text.IsBoundary mixedCalls 21 ∧
      Text.IsBoundary mixedCalls 25 ∧ ∃ found next,
        turn .cypress mixedCalls 25 = .passed found next ∧ Moves mixedCalls 25 found next := by
  have htaken : turn .cypress mixedCalls 0 =
      .taken ⟨.test, 3, 19, some "ü", none, true⟩ ⟨[], 20, true⟩ 21 := by decide +kernel
  have hhidden : turn .cypress mixedCalls 21 =
      .passed ⟨.candidate, 24, 28, none, none, false⟩ 25 := by decide +kernel
  have hcall : turn .cypress mixedCalls 25 =
      .passed ⟨.candidate, 31, 36, none, none, false⟩ 39 := by decide +kernel
  have hreach : Reaches .cypress mixedCalls 2 25 21 := (Reaches.start.taken htaken).passed hhidden
  obtain ⟨hturns, hle, hgap, hcursor, hpassed, -⟩ :=
    (scan_moves .cypress mixedCalls).2.2 2 25 21 hreach
  exact ⟨hreach, hturns, hle, hgap, hcursor, _, _, hcall, hpassed _ _ hcall⟩

end Document

end Parlance
