import Parlance.Proofs.Heading
import Parlance.Proofs.Statement

/-!
Reading a scope, step by step. A cursor that stands before code either finds the head of a
declaration, or passes a call that looks like one, or passes one character. What has been passed is
kept for the next gap.
-/

namespace Parlance

open Source

/-! ## 1. Documents one after another -/

namespace Document

@[simp] theorem empty_append (d : Document) : {} ++ d = d := rfl

@[simp] theorem append_empty (d : Document) : d ++ {} = d := by
  obtain ⟨suites, tests, ⟨h₁, h₂, h₃, h₄⟩, passthrough, unterminated⟩ := d
  show Document.mk _ _ (Hooks.mk _ _ _ _) _ _ = _
  simp

theorem append_assoc (a b c : Document) : a ++ b ++ c = a ++ (b ++ c) := by
  show Document.mk _ _ (Hooks.mk _ _ _ _) _ _ = Document.mk _ _ (Hooks.mk _ _ _ _) _ _
  simp only [HAppend.hAppend, Append.append, Document.append, Hooks.append]
  simp

end Document

/-! ## 2. Cursors over marked characters -/

namespace Source

@[simp] theorem length_unmark (ms : List Mark) : (unmark ms).length = ms.length :=
  List.length_map _

theorem unmark_take (n : Nat) (ms : List Mark) : unmark (ms.take n) = (unmark ms).take n :=
  List.map_take

theorem unmark_drop (n : Nat) (ms : List Mark) : unmark (ms.drop n) = (unmark ms).drop n :=
  List.map_drop

theorem drop_unmark_marks (s : Text) (ms : List Mark) :
    (unmark (marks s ++ ms)).drop s.length = unmark ms := by
  rw [← unmark_drop, ← length_marks s, List.drop_left]

end Source

namespace Cursor

def ofMarks (last : Option Char) (ms : List Mark) : Cursor := ⟨last, unmark ms, ms.map Mark.kind⟩

theorem start_eq (t : Text) : start t = ofMarks none (marks t) := by
  rw [start, ofMarks, unmark_marks]

theorem drop_ofMarks (last : Option Char) (ms : List Mark) (n : Nat) :
    (ofMarks last ms).drop n = ofMarks ((unmark (ms.take n)).getLast?.or last) (ms.drop n) := by
  simp only [drop, ofMarks, unmark_take, unmark_drop, List.map_drop]

end Cursor

/-! ## 3. One step of the cursor -/

namespace Document

def head? (f : Framework) (c : Cursor) : Option Opening :=
  if c.isHidden then none else Opening.at? f c.point

def declared (f : Framework) (o : Opening) (block : Block) : Document :=
  match o.slot with
  | .suite =>
    let inner := ofSource f block.body
    { suites := [inner.toSuite o.title], unterminated := inner.unterminated }
  | .test => { tests := [⟨o.title, block.body, Assertion.ofBody f block.body⟩] }
  | .hook kind => { hooks := Hooks.single kind block.body }
  | _ => {}

/-- The number of characters of a declaration: to the end of its block, or to the end of its call if
that is later. -/
def claimedLength (t : Text) (o : Opening) (block : Block) : Nat :=
  max 1 (max (o.length + block.length) ((callLength? t).getD 0))

theorem ofSource_eq (f : Framework) (t : Text) :
    ofSource f t = readFrom f [] (.ofMarks none (marks t)) := by
  rw [ofSource, Cursor.start_eq]

theorem readFrom_end {f : Framework} {gap : Text} {c : Cursor} (h : c.rest = []) :
    readFrom f gap c = ofGap f gap.reverse := by
  obtain ⟨last, rest, kinds⟩ := c
  obtain rfl := h
  rw [readFrom]

theorem readFrom_nil (f : Framework) (gap : Text) (last : Option Char) :
    readFrom f gap (.ofMarks last []) = ofGap f gap.reverse := readFrom_end rfl

theorem length_pos_of_head? {f : Framework} {c : Cursor} {o : Opening}
    (h : head? f c = some o) : 0 < o.length := by
  unfold head? at h
  split at h
  · simp at h
  · obtain ⟨s, rest, -, hs, hl⟩ := Opening.at?_eq_some_iff.1 h
    obtain ⟨-, -, w, b, x, rfl, -⟩ := hs
    rw [hl]
    simp only [List.length_append, List.length_cons]
    omega

/-- A cursor that stands before a declaration reads it and goes on behind its call. -/
theorem readFrom_declared {f : Framework} {gap : Text} {c : Cursor} {o : Opening}
    (hrest : c.rest ≠ []) (h : head? f c = some o) :
    readFrom f gap c =
      ofGap f gap.reverse ++ ofUnclosed o (Block.read (c.rest.drop o.length)) ++
        declared f o (Block.read (c.rest.drop o.length)) ++
        readFrom f [] (c.drop (claimedLength c.rest o (Block.read (c.rest.drop o.length)))) := by
  have hpos := length_pos_of_head? h
  unfold head? at h
  obtain ⟨last, rest, kinds⟩ := c
  cases rest with
  | nil => exact absurd rfl hrest
  | cons a tail =>
    -- the reader takes the first character off before it looks for the block
    have hdrop : (a :: tail).drop o.length = tail.drop (o.length - 1) := by
      obtain ⟨n, hn⟩ : ∃ n, o.length = n + 1 := ⟨o.length - 1, by omega⟩
      rw [hn]
      rfl
    rw [readFrom]
    simp only [h, hdrop]
    rfl

/-- A cursor that stands before nothing declared passes some characters. -/
theorem readFrom_passed {f : Framework} {gap : Text} {c : Cursor} (hrest : c.rest ≠ [])
    (h : head? f c = none) :
    readFrom f gap c =
      readFrom f ((c.rest.take (max 1 (passedLength f c))).reverse ++ gap)
        (c.drop (max 1 (passedLength f c))) := by
  unfold head? at h
  obtain ⟨last, rest, kinds⟩ := c
  cases rest with
  | nil => exact absurd rfl hrest
  | cons a tail =>
    rw [readFrom]
    simp only [h]

theorem head?_of_hidden {f : Framework} {last : Option Char} {m : Mark} {ms : List Mark}
    (hm : m.kind ≠ .code) : head? f (.ofMarks last (m :: ms)) = none := by
  simp [head?, Cursor.ofMarks, Cursor.isHidden, hm]

theorem head?_of_code {f : Framework} {last : Option Char} {m : Mark} {ms : List Mark}
    (hm : m.kind = .code) :
    head? f (.ofMarks last (m :: ms)) = Opening.at? f ⟨last, unmark (m :: ms)⟩ := by
  simp [head?, Cursor.ofMarks, Cursor.isHidden, hm, Cursor.point]

def looksDeclared (f : Framework) (p : Point) : Bool :=
  (Slot.candidate.pattern? f).any fun pattern => (pattern.hit? p).isSome

theorem passedLength_of_hidden {f : Framework} {last : Option Char} {m : Mark} {ms : List Mark}
    (hm : m.kind ≠ .code) : passedLength f (.ofMarks last (m :: ms)) = 1 := by
  simp [passedLength, Cursor.ofMarks, Cursor.isHidden, hm]

theorem passedLength_of_code {f : Framework} {last : Option Char} {m : Mark} {ms : List Mark}
    (hm : m.kind = .code) :
    passedLength f (.ofMarks last (m :: ms)) =
      if looksDeclared f ⟨last, unmark (m :: ms)⟩ then
        (callLength? (unmark (m :: ms))).getD (ms.length + 1) else 1 := by
  have hh : (Cursor.ofMarks last (m :: ms)).isHidden = false := by
    simp [Cursor.ofMarks, Cursor.isHidden, hm]
  rw [passedLength, hh, ← length_unmark ms]
  rfl

theorem looksDeclared_iff {f : Framework} {last : Option Char} {t : Text} :
    looksDeclared f ⟨last, t⟩ = true ↔
      ∃ p s rest kept, Slot.candidate.pattern? f = some p ∧ t = s ++ rest ∧
        p.Takes last s rest kept := by
  unfold looksDeclared
  rw [Option.any_eq_true]
  constructor
  · rintro ⟨p, hp, hs⟩
    obtain ⟨s, rest, kept, ht, htakes⟩ := Pattern.hit?_isSome.1 hs
    exact ⟨p, s, rest, kept, hp, ht, htakes⟩
  · rintro ⟨p, s, rest, kept, hp, ht, htakes⟩
    exact ⟨p, hp, Pattern.hit?_isSome.2 ⟨s, rest, kept, ht, htakes⟩⟩

theorem startsLead_of_at? {f : Framework} {last : Option Char} {t : Text} {o : Opening}
    (h : Opening.at? f ⟨last, t⟩ = some o) : Slot.StartsLead f t := by
  obtain ⟨s, rest, rfl, hs, -⟩ := Opening.at?_eq_some_iff.1 h
  exact hs.startsLead

theorem startsLead_of_looksDeclared {f : Framework} {last : Option Char} {t : Text}
    (h : looksDeclared f ⟨last, t⟩ = true) : Slot.StartsLead f t := by
  obtain ⟨p, s, rest, kept, hp, rfl, hs⟩ := looksDeclared_iff.1 h
  obtain ⟨w, b, x, rfl, hb, hw, -⟩ := Slot.takes_candidate hp hs
  exact ⟨w, b, x ++ rest, by simp, hb, .inr hw⟩

theorem readFrom_idle {f : Framework} {gap : Text} {last : Option Char} {m : Mark}
    {ms : List Mark} (h : ¬Slot.StartsLead f (unmark (m :: ms))) :
    readFrom f gap (.ofMarks last (m :: ms)) =
      readFrom f (m.char :: gap) (.ofMarks (some m.char) ms) := by
  have hhead : head? f (.ofMarks last (m :: ms)) = none := by
    by_cases hm : m.kind = .code
    · rw [head?_of_code hm]
      cases ho : Opening.at? f ⟨last, unmark (m :: ms)⟩ with
      | none => rfl
      | some o => exact absurd (startsLead_of_at? ho) h
    · exact head?_of_hidden hm
  have hpassed : passedLength f (.ofMarks last (m :: ms)) = 1 := by
    by_cases hm : m.kind = .code
    · rw [passedLength_of_code hm, if_neg fun hl => h (startsLead_of_looksDeclared hl)]
    · exact passedLength_of_hidden hm
  rw [readFrom_passed (by simp [Cursor.ofMarks]) hhead, hpassed, Cursor.drop_ofMarks]
  rfl

/-! ## 4. What a step does not depend on -/

theorem at?_congr {f : Framework} {last last' : Option Char} {t : Text}
    (hlast : last.any isWord = last'.any isWord) :
    Opening.at? f ⟨last, t⟩ = Opening.at? f ⟨last', t⟩ := by
  refine Option.ext fun o => ?_
  rw [Opening.at?_eq_some_iff, Opening.at?_eq_some_iff]
  constructor
  · rintro ⟨s, rest, ht, hs, hl⟩
    exact ⟨s, rest, ht, hs.congr hlast rfl, hl⟩
  · rintro ⟨s, rest, ht, hs, hl⟩
    exact ⟨s, rest, ht, hs.congr hlast.symm rfl, hl⟩

theorem candidate_isUnanchored {f : Framework} {p : Pattern}
    (hp : Slot.candidate.pattern? f = some p) : p.isUnanchored = true := by
  cases f <;> exact Option.some.inj hp ▸ rfl

theorem looksDeclared_congr {f : Framework} {last last' : Option Char} {t : Text}
    (hlast : last.any isWord = last'.any isWord) :
    looksDeclared f ⟨last, t⟩ = looksDeclared f ⟨last', t⟩ := by
  rw [Bool.eq_iff_iff, looksDeclared_iff, looksDeclared_iff]
  constructor
  · rintro ⟨p, s, rest, kept, hp, ht, hs⟩
    exact ⟨p, s, rest, kept, hp, ht, hs.congr (candidate_isUnanchored hp) hlast rfl⟩
  · rintro ⟨p, s, rest, kept, hp, ht, hs⟩
    exact ⟨p, s, rest, kept, hp, ht, hs.congr (candidate_isUnanchored hp) hlast.symm rfl⟩

/-- Of the character before a cursor only counts whether a word goes on there. -/
theorem readFrom_congr_last {f : Framework} {gap : Text} {last last' : Option Char}
    {ms : List Mark} (hlast : last.any isWord = last'.any isWord) :
    readFrom f gap (.ofMarks last ms) = readFrom f gap (.ofMarks last' ms) := by
  induction hn : ms.length using Nat.strongRecOn generalizing gap last last' ms with
  | ind n ih =>
    cases ms with
    | nil => rw [readFrom_nil, readFrom_nil]
    | cons m ms =>
      rw [List.length_cons] at hn
      have hrest (last : Option Char) : (Cursor.ofMarks last (m :: ms)).rest ≠ [] := by
        simp [Cursor.ofMarks]
      -- behind at least one character the places are told by the same character
      have hnext (k : Nat) (gap : Text) :
          readFrom f gap ((Cursor.ofMarks last (m :: ms)).drop (max 1 k)) =
            readFrom f gap ((Cursor.ofMarks last' (m :: ms)).drop (max 1 k)) := by
        rw [Cursor.drop_ofMarks, Cursor.drop_ofMarks]
        refine ih _ ?_ (Pattern.any_isWord_last hlast) rfl
        rw [List.length_drop, List.length_cons]
        omega
      have hhead : head? f (.ofMarks last (m :: ms)) = head? f (.ofMarks last' (m :: ms)) := by
        by_cases hm : m.kind = .code
        · rw [head?_of_code hm, head?_of_code hm, at?_congr hlast]
        · rw [head?_of_hidden hm, head?_of_hidden hm]
      have hpassed : passedLength f (.ofMarks last (m :: ms)) =
          passedLength f (.ofMarks last' (m :: ms)) := by
        by_cases hm : m.kind = .code
        · rw [passedLength_of_code hm, passedLength_of_code hm, looksDeclared_congr hlast]
        · rw [passedLength_of_hidden hm, passedLength_of_hidden hm]
      cases ho : head? f (.ofMarks last (m :: ms)) with
      | none =>
        rw [readFrom_passed (hrest last) ho, readFrom_passed (hrest last') (hhead ▸ ho), hpassed,
          hnext]
        rfl
      | some o =>
        rw [readFrom_declared (hrest last) ho, readFrom_declared (hrest last') (hhead ▸ ho)]
        rw [claimedLength, hnext]
        rfl

/-- The text of a gap that has nothing to do with what follows it comes first. -/
theorem readFrom_gap {f : Framework} {before gap : Text} {c : Cursor}
    (hbefore : ∀ t, ofGap f (before ++ t) = ofGap f before ++ ofGap f t) :
    readFrom f (gap ++ before.reverse) c = ofGap f before ++ readFrom f gap c := by
  induction hn : c.rest.length using Nat.strongRecOn generalizing gap c with
  | ind n ih =>
    by_cases hrest : c.rest = []
    · rw [readFrom_end hrest, readFrom_end hrest, List.reverse_append, List.reverse_reverse,
        hbefore]
    · have hpos := List.length_pos_iff.2 hrest
      cases ho : head? f c with
      | none =>
        -- what is passed is added to the gap on the near side
        rw [readFrom_passed hrest ho, readFrom_passed hrest ho, ← List.append_assoc]
        refine ih _ ?_ rfl
        rw [Cursor.drop, List.length_drop]
        omega
      | some o =>
        rw [readFrom_declared hrest ho, readFrom_declared hrest ho, List.reverse_append,
          List.reverse_reverse, hbefore]
        simp only [append_assoc]

end Document

/-! ## 5. Blocks and calls -/

theorem Source.Block.read_eq {t : Text} {body tail : List Mark} {c : Mark}
    (ht : marks t = body ++ c :: tail) (hbody : Nested body) (hc : c.isCode '\x7d' = true) :
    Block.read t = ⟨unmark body, true, unmark tail⟩ := by
  rw [Block.read, ht, splitBlock_closer hbody hc]

/-- The number of characters of the semicolon behind a call, with the spaces and tabs before it. -/
def terminatorLength (t : Text) : Nat :=
  match t.dropWhile fun c => c = ' ' || c = '\t' with
  | ';' :: rest => t.length - rest.length
  | _ => 0

theorem terminatorLength_spaces {spaces : Text}
    (h : spaces.all (fun c => c = ' ' || c = '\t') = true) (rest : List Mark) :
    terminatorLength (unmark (spaces.map codeMark ++ codeMark ';' :: rest)) =
      spaces.length + 1 := by
  have hdrop : (spaces ++ ';' :: unmark rest).dropWhile (fun c => c = ' ' || c = '\t') =
      ';' :: unmark rest := by
    rw [List.dropWhile_append_of_pos fun c hc => List.all_eq_true.1 h c hc]
    rfl
  have hlength : terminatorLength (spaces ++ ';' :: unmark rest) = spaces.length + 1 := by
    unfold terminatorLength
    rw [hdrop]
    simp only [List.length_append, List.length_cons]
    omega
  rw [unmark_append, unmark_map_codeMark, unmark_cons]
  exact hlength

/-- A semicolon that ends a call, with the spaces and tabs before it. -/
theorem terminator_cases {tail : List Mark} (hread : marks (unmark tail) = tail) :
    terminatorLength (unmark tail) = 0 ∨
      ∃ (spaces : Text) (rest : List Mark), spaces.all (fun c => c = ' ' || c = '\t') = true ∧
        tail = spaces.map codeMark ++ codeMark ';' :: rest := by
  unfold terminatorLength
  split
  · rename_i rest hd
    right
    have hsplit := List.takeWhile_append_dropWhile (p := fun c => c = ' ' || c = '\t')
      (l := unmark tail)
    rw [hd] at hsplit
    generalize hsp : (unmark tail).takeWhile (fun c => c = ' ' || c = '\t') = spaces at hsplit
    have hspaces : spaces.all (fun c => c = ' ' || c = '\t') = true := by
      rw [← hsp]
      exact List.all_takeWhile
    refine ⟨spaces, marks rest, hspaces, ?_⟩
    -- spaces and a semicolon are code wherever they are read
    have hplain := Text.all_mono (isPlain_of_holds rfl rfl rfl rfl) hspaces
    rw [← hread, ← hsplit, marks_plain_append hplain, marks_plain_cons rfl]
  · exact .inl rfl

/-- A text that ends with `tail` is passed with the semicolon that `tail` begins with. -/
theorem sub_terminator {tail : Text} {n : Nat} (h : tail.length ≤ n) :
    (match tail.dropWhile fun c => c = ' ' || c = '\t' with
      | ';' :: rest => n - rest.length
      | _ => n - tail.length) = n - tail.length + terminatorLength tail := by
  have hle := (List.dropWhile_sublist (l := tail) fun c => c = ' ' || c = '\t').length_le
  unfold terminatorLength
  split
  · rename_i rest hd
    rw [hd, List.length_cons] at hle
    exact (Nat.sub_add_sub_cancel h (Nat.le_of_succ_le hle)).symm
  · rfl

/-- A call ends at the bracket that closes its parenthesis, or at the semicolon behind it. -/
theorem callLength?_lead {lead : Text} (t : Text) (hlead : lead.all (· ≠ '(') = true) :
    callLength? (lead ++ '(' :: t) = (splitClose 1 (marks t)).map fun (inner, tail) =>
      lead.length + inner.length + 2 + terminatorLength (unmark tail) := by
  have hdrop : (lead ++ '(' :: t).dropWhile (· ≠ '(') = '(' :: t := by
    rw [List.dropWhile_append_of_pos (List.all_eq_true.1 hlead)]
    exact List.dropWhile_cons_of_neg (by decide)
  rw [callLength?, hdrop]
  cases hs : splitClose 1 (marks t) with
  | none => simp [enclosed?, hs]
  | some p =>
    obtain ⟨inner, tail⟩ := p
    -- the call takes its lead, two parentheses, what is between them and the semicolon
    have hlength : (lead ++ '(' :: t).length = lead.length + inner.length + 2 + tail.length := by
      obtain ⟨c, hc⟩ := splitClose_eq_append hs
      have hl := length_marks t
      rw [hc] at hl
      simp only [List.length_append, List.length_cons] at hl ⊢
      omega
    have htail : (unmark tail).length ≤ (lead ++ '(' :: t).length := by
      rw [hlength, length_unmark]
      omega
    have hrest := sub_terminator htail
    rw [hlength, length_unmark, Nat.add_sub_cancel] at hrest
    simp only [enclosed?, hs, Option.map_some, hlength, length_unmark, Nat.add_sub_cancel]
    exact congrArg some hrest

theorem callLength?_eq {lead t : Text} {inner tail : List Mark} {c : Mark}
    (hlead : lead.all (· ≠ '(') = true) (ht : marks t = inner ++ c :: tail)
    (hinner : Nested inner) (hc : c.closes = true) :
    callLength? (lead ++ '(' :: t) =
      some (lead.length + inner.length + 2 + terminatorLength (unmark tail)) := by
  rw [callLength?_lead t hlead, ht, splitClose_closer hinner hc]
  rfl

end Parlance
