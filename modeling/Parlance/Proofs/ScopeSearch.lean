import Mathlib.Data.List.TakeWhile
import Parlance.Proofs.BlockBounds
import Parlance.Proofs.DeclarationSearch
import Parlance.Proofs.HiddenSpans

/-!
Reading a scope by searches. The cursor is a byte offset; from it the next head of a block and the
next call that looks like one are searched for, and what comes first decides where the cursor goes.
Each turn moves the cursor forward and leaves it between two characters, and the tree built on the
way is the tree of the source.
-/

namespace Parlance

open Source

/-! ## 1. The end of a call -/

/-- The offset behind the call that begins at an offset, and behind its semicolon if only spaces and
tabs stand before it. -/
def callEnd? (t : Text) (start : Nat) : Option Nat :=
  let lead := (Text.fromOffset start t).takeWhile (· ≠ '(')
  (closeAt? t (start + Text.size lead)).map fun close =>
    let tail := (Text.fromOffset (close + 1) t).dropWhile fun c => c = ' ' || c = '\t'
    if tail.head? = some ';' then Text.size t - Text.size tail + 1 else close + 1

/-- A call begins with what stands before its first parenthesis. -/
theorem exists_lead (t : Text) :
    t.all (· ≠ '(') = true ∨ ∃ lead inside, t = lead ++ '(' :: inside ∧
      lead.all (· ≠ '(') = true := by
  have hsplit := List.takeWhile_append_dropWhile (p := (· ≠ '(')) (l := t)
  have hlead : (t.takeWhile (· ≠ '(')).all (· ≠ '(') = true := List.all_takeWhile
  cases hdrop : t.dropWhile (· ≠ '(') with
  | nil =>
    rw [hdrop, List.append_nil] at hsplit
    rw [hsplit] at hlead
    exact .inl hlead
  | cons c inside =>
    have hc := List.head?_dropWhile_not (· ≠ '(') t
    rw [hdrop] at hc
    obtain rfl : c = '(' := by simpa using hc
    rw [hdrop] at hsplit
    exact .inr ⟨_, inside, hsplit.symm, hlead⟩

theorem takeWhile_lead {lead : Text} (h : lead.all (· ≠ '(') = true) (inside : Text) :
    (lead ++ '(' :: inside).takeWhile (· ≠ '(') = lead := by
  rw [List.takeWhile_append_of_pos fun c hc => List.all_eq_true.1 h c hc]
  simp

theorem callLength?_eq_none {t : Text} (h : t.all (· ≠ '(') = true) : callLength? t = none := by
  have hdrop : t.dropWhile (· ≠ '(') = [] := List.dropWhile_eq_nil_iff.2 (List.all_eq_true.1 h)
  rw [callLength?, hdrop]

theorem callLength?_pos {t : Text} {n : Nat} (h : callLength? t = some n) : 0 < n := by
  rcases exists_lead t with ht | ⟨lead, inside, rfl, hlead⟩
  · rw [callLength?_eq_none ht] at h
    exact absurd h (by simp)
  · rw [callLength?_lead inside hlead] at h
    obtain ⟨⟨inner, tail⟩, -, rfl⟩ := Option.map_eq_some_iff.1 h
    simp only
    omega

theorem size_dropWhile_le (p : Char → Bool) (t : Text) :
    Text.size (t.dropWhile p) ≤ Text.size t := by
  have h := congrArg Text.size (List.takeWhile_append_dropWhile (p := p) (l := t))
  rw [Text.size_append] at h
  omega

/-- The size of the semicolon behind a call, with the spaces and tabs before it. -/
theorem size_take_terminatorLength (t : Text) :
    Text.size (t.take (terminatorLength t)) =
      if (t.dropWhile fun c => c = ' ' || c = '\t').head? = some ';' then
        Text.size t - Text.size (t.dropWhile fun c => c = ' ' || c = '\t') + 1
      else 0 := by
  unfold terminatorLength
  split
  · rename_i rest hdrop
    have hsplit := List.takeWhile_append_dropWhile (p := fun c => c = ' ' || c = '\t') (l := t)
    rw [hdrop] at hsplit
    generalize t.takeWhile (fun c => c = ' ' || c = '\t') = spaces at hsplit
    have htake : t.take (t.length - rest.length) = spaces ++ [';'] := by
      rw [← hsplit, List.length_append, List.length_cons,
        show spaces.length + (rest.length + 1) - rest.length = spaces.length + 1 by omega]
      simp [List.take_append, List.take_of_length_le]
    rw [htake, hdrop, if_pos (by rfl), ← hsplit, Text.size_append, Text.size_append, Text.size_cons,
      Text.size_cons, Text.size_nil]
    have : (';' : Char).utf8Size = 1 := rfl
    omega
  · rename_i hdrop
    rw [if_neg, List.take_zero, Text.size_nil]
    intro hhead
    obtain ⟨rest, hrest⟩ := List.head?_eq_some_iff.1 hhead
    exact hdrop rest hrest

/-- The parenthesis that closes a call is the closer of what stands behind its first one. -/
theorem closeAt?_lead (before lead inside : Text) :
    closeAt? (before ++ (lead ++ '(' :: inside)) (Text.size before + Text.size lead) =
      (splitClose 1 (marks inside)).map fun (inner, _) =>
        Text.size before + Text.size lead + 1 + Text.size (unmark inner) := by
  have hfrom : Text.fromOffset (Text.size before + Text.size lead)
      (before ++ (lead ++ '(' :: inside)) = '(' :: inside := by
    rw [← List.append_assoc, ← Text.size_append, Text.fromOffset_append]
  rw [closeAt?, hfrom, marks_plain_cons rfl, splitClose_opener rfl, Option.map_map]
  congr 1
  funext ⟨inner, tail⟩
  simp only [Function.comp, unmark_cons, Text.size_append, Text.size_cons]
  have : ('(' : Char).utf8Size = 1 := rfl
  have : (codeMark '(').char.utf8Size = 1 := rfl
  omega

theorem take_call (lead inner tail : Text) (c : Char) (n : Nat) :
    (lead ++ '(' :: (inner ++ c :: tail)).take (lead.length + inner.length + 2 + n) =
      lead ++ '(' :: (inner ++ c :: tail.take n) := by
  have hlength : lead.length + inner.length + 2 + n =
      lead.length + ((inner.length + (n + 1)) + 1) := by omega
  rw [hlength, List.take_length_add_append, List.take_succ_cons, List.take_length_add_append,
    List.take_succ_cons]

theorem fromOffset_call (before lead inner tail : Text) {c : Char} (hc : c.utf8Size = 1) :
    Text.fromOffset (Text.size before + Text.size lead + 1 + Text.size inner + 1)
      (before ++ (lead ++ '(' :: (inner ++ c :: tail))) = tail := by
  have hparen : ('(' : Char).utf8Size = 1 := rfl
  have h := Text.fromOffset_append (before ++ (lead ++ '(' :: (inner ++ [c]))) tail
  simp only [Text.size_append, Text.size_cons, Text.size_nil, hparen, hc, List.append_assoc,
    List.cons_append, List.nil_append] at h
  refine Eq.trans ?_ h
  congr 1
  omega

/-- Counted in bytes, a call ends where it ends counted in characters. -/
theorem callEnd?_append (before after : Text) :
    callEnd? (before ++ after) (Text.size before) =
      (callLength? after).map fun n => Text.size before + Text.size (after.take n) := by
  rw [callEnd?, Text.fromOffset_append]
  rcases exists_lead after with hafter | ⟨lead, inside, rfl, hlead⟩
  · have hall : after.takeWhile (· ≠ '(') = after :=
      List.takeWhile_eq_self_iff.2 (List.all_eq_true.1 hafter)
    have hclose : closeAt? (before ++ after) (Text.size before + Text.size after) = none := by
      rw [closeAt?, ← Text.size_append, Text.fromOffset_end]
      rfl
    simp only [hall, hclose, callLength?_eq_none hafter, Option.map_none]
  · simp only [takeWhile_lead hlead, closeAt?_lead, callLength?_lead inside hlead, Option.map_map]
    cases hsplit : splitClose 1 (marks inside) with
    | none => rfl
    | some p =>
      obtain ⟨inner, tail⟩ := p
      obtain ⟨c, hcloses, hms, -⟩ := of_splitClose hsplit
      have hc := Mark.utf8Size_of_closes hcloses
      obtain rfl : inside = unmark inner ++ c.char :: unmark tail := by
        rw [← unmark_marks inside, hms, unmark_append, unmark_cons]
      have hparen : ('(' : Char).utf8Size = 1 := rfl
      have hle := size_dropWhile_le (fun c => c = ' ' || c = '\t') (unmark tail)
      simp only [Option.map_some, Function.comp, fromOffset_call _ _ _ _ hc, ← length_unmark inner,
        take_call, Text.size_append, Text.size_cons, size_take_terminatorLength, hc]
      -- the semicolon is one byte behind the blanks
      split
      · congr 1
        omega
      · congr 1
        omega

/-! ## 2. Turns -/

/-- What a search of a scope finds from a cursor, and the offset at which the search goes on. -/
inductive Turn where
  /-- Nothing more is declared. -/
  | ended
  /-- Something hidden, or a call that only looks like a declaration. -/
  | passed (found : Declaration) (next : Nat)
  /-- A declaration and its block. -/
  | taken (d : Declaration) (block : BlockAt) (next : Nat)
deriving DecidableEq, Repr

/-- The name under which a declaration is reported when nothing closes its block. -/
def Declaration.reportName (d : Declaration) : Text :=
  match d.slot with
  | .hook kind => kind.name
  | _ => d.title.getD []

namespace Document

/-- The next call that looks like a declaration and starts before all that can be read. -/
def rejected? (f : Framework) (t : Text) (cursor : Nat) : Option Declaration :=
  (Declaration.findAt? f .candidate t cursor).filter fun c =>
    (Declaration.next? f t cursor).all fun d => c.start < d.start

/-- Where the search goes on after a declaration: behind its call if that does not end before its
block, and else behind the block. -/
def behind (t : Text) (d : Declaration) (block : BlockAt) : Nat :=
  advance t d.start (((callEnd? t d.start).filter (block.stop ≤ ·)).getD block.stop)

/-- The turn of a search from a cursor. What is hidden is passed by one character, a call that looks
like a declaration but cannot be read is passed as a whole. -/
def turn (f : Framework) (t : Text) (cursor : Nat) : Turn :=
  match rejected? f t cursor, Declaration.next? f t cursor with
  | some c, _ =>
    if inSpans (hiddenSpans t) c.start then .passed c (advance t c.start c.start)
    else .passed c ((callEnd? t c.start).getD (Text.size t))
  | none, some d =>
    if inSpans (hiddenSpans t) d.start then .passed d (advance t d.start d.start)
    else .taken d (blockAt t d.stop) (behind t d (blockAt t d.stop))
  | none, none => .ended

variable {f : Framework} {t : Text} {cursor : Nat}

/-- What is found and passed stands in the text from the cursor on, and is either hidden or a call. -/
theorem of_turn_passed {found : Declaration} {next : Nat}
    (h : turn f t cursor = .passed found next) :
    ∃ before s rest, found.Stands t before s rest ∧ s ≠ [] ∧ cursor ≤ found.start ∧
      (next = advance t found.start found.start ∨
        next = (callEnd? t found.start).getD (Text.size t)) := by
  unfold turn at h
  split at h
  · rename_i c hc
    obtain ⟨before, s, rest, hstands, hle, hs, -⟩ :=
      Declaration.exists_stands_of_candidate (Option.filter_eq_some_iff.1 hc).1
    split at h
    · obtain ⟨rfl, rfl⟩ := Turn.passed.inj h
      exact ⟨before, s, rest, hstands, hs, hle, .inl rfl⟩
    · obtain ⟨rfl, rfl⟩ := Turn.passed.inj h
      exact ⟨before, s, rest, hstands, hs, hle, .inr rfl⟩
  · rename_i d _ hd
    obtain ⟨before, s, rest, hstands, hle, hheads⟩ := Declaration.exists_heads_of_next? hd
    split at h
    · obtain ⟨rfl, rfl⟩ := Turn.passed.inj h
      exact ⟨before, s, rest, hstands, hheads.ne_nil, hle, .inl rfl⟩
    · exact absurd h (by simp)
  · exact absurd h (by simp)

/-- What is taken is the head of a block that no literal and no comment hides. -/
theorem of_turn_taken {d : Declaration} {block : BlockAt} {next : Nat}
    (h : turn f t cursor = .taken d block next) :
    Declaration.next? f t cursor = some d ∧ inSpans (hiddenSpans t) d.start = false ∧
      block = blockAt t d.stop ∧ next = behind t d block := by
  unfold turn at h
  split at h
  · split at h <;> exact absurd h (by simp)
  · rename_i e _ he
    split at h
    · exact absurd h (by simp)
    · rename_i hhidden
      obtain ⟨rfl, rfl, rfl⟩ := Turn.taken.inj h
      exact ⟨he, by simpa using hhidden, rfl, rfl⟩
  · exact absurd h (by simp)

/-! ## 3. One turn -/

/-- A search goes on behind what it found at or after its cursor, and every offset that it uses falls
between two characters of the text. -/
structure Moves (t : Text) (cursor : Nat) (found : Declaration) (next : Nat) : Prop where
  reached : cursor ≤ found.start
  start : Text.IsBoundary t found.start
  stop : Text.IsBoundary t found.stop
  callEnd : ∀ stop, callEnd? t found.start = some stop → Text.IsBoundary t stop
  forward : cursor < next
  next : Text.IsBoundary t next

theorem isBoundary_callEnd? {start stop : Nat} (hstart : Text.IsBoundary t start)
    (h : callEnd? t start = some stop) : Text.IsBoundary t stop := by
  obtain ⟨before, after, rfl, rfl⟩ := hstart
  rw [callEnd?_append] at h
  obtain ⟨n, -, rfl⟩ := Option.map_eq_some_iff.1 h
  exact Text.isBoundary_take before after n

theorem callEnd?_forward {before after : Text} {stop : Nat} (hne : after ≠ [])
    (h : callEnd? (before ++ after) (Text.size before) = some stop) :
    Text.size before < stop := by
  rw [callEnd?_append] at h
  obtain ⟨n, hn, rfl⟩ := Option.map_eq_some_iff.1 h
  have hpos := callLength?_pos hn
  have htake : after.take n ≠ [] := by
    intro h
    rcases List.take_eq_nil_iff.1 h with rfl | rfl
    · omega
    · exact hne rfl
  have := Text.size_pos htake
  omega

/-- From an offset inside a text one character is passed. -/
theorem advance_self (before after : Text) (c : Char) :
    advance (before ++ c :: after) (Text.size before) (Text.size before) =
      Text.size (before ++ [c]) := by
  rw [advance, if_neg (Nat.lt_irrefl _), Text.fromOffset_append]
  simp

theorem advance_of_lt {start stop : Nat} (h : start < stop) : advance t start stop = stop := by
  rw [advance, if_pos h]

/-- What is passed is passed by one character at least. -/
theorem moves_passed {found : Declaration} {next : Nat}
    (h : turn f t cursor = .passed found next) : Moves t cursor found next := by
  obtain ⟨before, s, rest, hstands, hs, hle, hnext⟩ := of_turn_passed h
  have hstart := hstands.isBoundary_start
  have hstop := hstands.isBoundary_stop
  have hmove : found.start < next ∧ Text.IsBoundary t next := by
    obtain ⟨rfl, hfound, -⟩ := hstands
    obtain ⟨c, s, rfl⟩ := List.exists_cons_of_ne_nil hs
    rw [hfound] at hnext ⊢
    have hchar := c.utf8Size_pos
    -- by one character where something is hidden, and by the whole call otherwise
    rcases hnext with rfl | rfl
    · rw [List.cons_append, advance_self]
      refine ⟨by simpa using hchar, ?_⟩
      rw [List.append_cons]
      exact Text.isBoundary_append _ _
    · cases hend : callEnd? (before ++ (c :: s ++ rest)) (Text.size before) with
      | none =>
        refine ⟨?_, Text.isBoundary_end _⟩
        simp only [Option.getD_none, Text.size_append, Text.size_cons]
        omega
      | some stop =>
        exact ⟨callEnd?_forward (by simp) hend,
          isBoundary_callEnd? (Text.isBoundary_append _ _) hend⟩
  exact ⟨hle, hstart, hstop, fun stop => isBoundary_callEnd? hstart,
    Nat.lt_of_le_of_lt hle hmove.1, hmove.2⟩

/-- The block that begins at an offset ends behind it, and its body is what stands between. -/
theorem blockAt_stop {start : Nat} (h : Text.IsBoundary t start) :
    Text.IsBoundary t (blockAt t start).stop ∧
      start + Text.size (blockAt t start).body ≤ (blockAt t start).stop := by
  obtain ⟨before, after, rfl, rfl⟩ := h
  rw [blockAt_append]
  refine ⟨Text.isBoundary_take before after _, ?_⟩
  simp only [Block.take_length, Text.size_append]
  omega

/-- A declaration is passed with its block, and its body is shorter than the text. -/
theorem moves_taken {d : Declaration} {block : BlockAt} {next : Nat}
    (h : turn f t cursor = .taken d block next) :
    Moves t cursor d next ∧ Text.IsBoundary t block.stop ∧ block.stop ≤ next ∧
      Text.size block.body < Text.size t := by
  obtain ⟨hd, -, rfl, rfl⟩ := of_turn_taken h
  obtain ⟨before, s, rest, hstands, hle, hheads⟩ := Declaration.exists_heads_of_next? hd
  have hstart := hstands.isBoundary_start
  have hstop := hstands.isBoundary_stop
  have hlt := hstands.start_lt_stop hheads.ne_nil
  obtain ⟨hblock, hbody⟩ := blockAt_stop hstop
  -- whichever end counts, it does not lie before the end of the block
  have hnext : (blockAt t d.stop).stop ≤ behind t d (blockAt t d.stop) ∧
      Text.IsBoundary t (behind t d (blockAt t d.stop)) := by
    unfold behind
    cases hend : (callEnd? t d.start).filter ((blockAt t d.stop).stop ≤ ·) with
    | none =>
      rw [Option.getD_none, advance_of_lt (by omega)]
      exact ⟨Nat.le_refl _, hblock⟩
    | some stop =>
      obtain ⟨hsome, hge⟩ := Option.filter_eq_some_iff.1 hend
      have hge : (blockAt t d.stop).stop ≤ stop := by simpa using hge
      rw [Option.getD_some, advance_of_lt (by omega)]
      exact ⟨hge, isBoundary_callEnd? hstart hsome⟩
  have hsize := hblock.le
  refine ⟨⟨hle, hstart, hstop, fun stop => isBoundary_callEnd? hstart, ?_, hnext.2⟩, hblock,
    hnext.1, ?_⟩ <;> omega

/-! ## 4. The scan -/

/-- The text between two offsets. -/
def between (t : Text) (start stop : Nat) : Text :=
  (Text.cut? (stop - start) (Text.fromOffset start t)).elim [] Prod.fst

/-- What a declaration adds to its scope if its block holds the tree `inner`. -/
def ofTaken (f : Framework) (d : Declaration) (block : BlockAt) (inner : Document) : Document :=
  let title := d.title.getD []
  match d.slot with
  | .suite => { suites := [inner.toSuite title], unterminated := inner.unterminated }
  | .test => { tests := [⟨title, block.body, Assertion.ofBody f block.body⟩] }
  | .hook kind => { hooks := Hooks.single kind block.body }
  | _ => {}

/-- The report of a declaration whose block nothing closes. -/
def ofOpen (d : Declaration) (block : BlockAt) : Document :=
  if block.closed then {} else { unterminated := [d.reportName] }

/-- The tree that a scan reads from a cursor; from the offset `gap` on the text belongs to no
declaration yet. -/
def scanFrom (f : Framework) (t : Text) (cursor gap : Nat) : Document :=
  match _h : turn f t cursor with
  | .ended => ofGap f (Text.fromOffset gap t)
  | .passed _ next => scanFrom f t next gap
  | .taken d block next =>
    let inner := if d.slot = .suite then scanFrom f block.body 0 0 else {}
    ofGap f (between t gap d.start) ++ ofOpen d block ++ ofTaken f d block inner ++
      scanFrom f t next (min next (Text.size t))
termination_by (Text.size t, Text.size t + 1 - cursor)
decreasing_by
  · have hmoves := moves_passed _h
    have hforward := hmoves.forward
    have hreached := hmoves.reached
    have hle := hmoves.start.le
    exact Prod.Lex.right _ (by omega)
  · exact Prod.Lex.left _ _ (moves_taken _h).2.2.2
  · have hmoves := (moves_taken _h).1
    have hforward := hmoves.forward
    have hreached := hmoves.reached
    have hle := hmoves.start.le
    exact Prod.Lex.right _ (by omega)

/-- The tree that a scan reads from a text. -/
def scan (f : Framework) (t : Text) : Document := scanFrom f t 0 0

theorem scanFrom_ended {gap : Nat} (h : turn f t cursor = .ended) :
    scanFrom f t cursor gap = ofGap f (Text.fromOffset gap t) := by
  rw [scanFrom]
  split <;> simp_all

theorem scanFrom_passed {gap next : Nat} {found : Declaration}
    (h : turn f t cursor = .passed found next) :
    scanFrom f t cursor gap = scanFrom f t next gap := by
  rw [scanFrom]
  split <;> simp_all

theorem scanFrom_taken {gap next : Nat} {d : Declaration} {block : BlockAt}
    (h : turn f t cursor = .taken d block next) :
    scanFrom f t cursor gap =
      ofGap f (between t gap d.start) ++ ofOpen d block ++
        ofTaken f d block (if d.slot = .suite then scan f block.body else {}) ++
        scanFrom f t next (min next (Text.size t)) := by
  rw [scanFrom]
  split <;> simp_all [scan]

theorem scanFrom_congr {cursor' gap : Nat} (h : turn f t cursor = turn f t cursor') :
    scanFrom f t cursor gap = scanFrom f t cursor' gap := by
  cases hturn : turn f t cursor' with
  | ended => rw [scanFrom_ended (h.trans hturn), scanFrom_ended hturn]
  | passed found next => rw [scanFrom_passed (h.trans hturn), scanFrom_passed hturn]
  | taken d block next => rw [scanFrom_taken (h.trans hturn), scanFrom_taken hturn]

end Document

end Parlance
