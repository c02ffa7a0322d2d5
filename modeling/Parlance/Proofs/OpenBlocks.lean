import Parlance.Proofs.ScopeScan

/-!
Blocks that nothing closes. Only the last declaration of a scope can have one, and none stands in a
block that is closed, so what a tree reports as unterminated is one path: each declaration of it
stands directly in the block of the one before.
-/

namespace Parlance

open Source

namespace Document

variable {f : Framework} {t : Text} {cursor : Nat}

/-! ## 1. The declarations of a scope -/

/-- The declarations that a scan takes from a cursor on, each with its block. -/
def takenFrom (f : Framework) (t : Text) (cursor : Nat) : List (Declaration × BlockAt) :=
  match _h : turn f t cursor with
  | .ended => []
  | .passed _ next => takenFrom f t next
  | .taken d block next => (d, block) :: takenFrom f t next
termination_by Text.size t + 1 - cursor
decreasing_by
  · have hmoves := moves_passed _h
    have hforward := hmoves.forward
    have hreached := hmoves.reached
    have hle := hmoves.start.le
    omega
  · have hmoves := (moves_taken _h).1
    have hforward := hmoves.forward
    have hreached := hmoves.reached
    have hle := hmoves.start.le
    omega

/-- The declarations that stand directly in a scope, each with its block. -/
def taken (f : Framework) (t : Text) : List (Declaration × BlockAt) := takenFrom f t 0

theorem takenFrom_ended (h : turn f t cursor = .ended) : takenFrom f t cursor = [] := by
  rw [takenFrom]
  split <;> simp_all

theorem takenFrom_taken {next : Nat} {d : Declaration} {block : BlockAt}
    (h : turn f t cursor = .taken d block next) :
    takenFrom f t cursor = (d, block) :: takenFrom f t next := by
  rw [takenFrom]
  split <;> simp_all

theorem exists_turn_of_mem {d : Declaration} {block : BlockAt}
    (h : (d, block) ∈ takenFrom f t cursor) :
    ∃ cursor next, turn f t cursor = .taken d block next := by
  fun_induction takenFrom f t cursor with
  | case1 => exact absurd h List.not_mem_nil
  | case2 cursor found next hturn ih => exact ih h
  | case3 cursor d' block' next hturn ih =>
    rcases List.mem_cons.1 h with he | h
    · obtain ⟨rfl, rfl⟩ := Prod.mk.inj he
      exact ⟨cursor, next, hturn⟩
    · exact ih h

/-- What a declaration with its block adds to the tree of its scope. -/
def entry (f : Framework) (p : Declaration × BlockAt) : Document :=
  ofOpen p.1 p.2 ++ ofTaken f p.1 p.2 (if p.1.slot = .suite then scan f p.2.body else {})

/-- The declarations of a tree, without the statements between them. -/
def declarations (d : Document) : Document := { d with passthrough := [] }

theorem declarations_append (a b : Document) :
    (a ++ b).declarations = a.declarations ++ b.declarations := rfl

theorem declarations_entry (p : Declaration × BlockAt) : (entry f p).declarations = entry f p := by
  obtain ⟨d, block⟩ := p
  unfold entry ofOpen ofTaken
  cases block.closed <;> cases d.slot <;> rfl

/-- Some trees one after another. -/
def joined (ds : List Document) : Document := ds.foldr (· ++ ·) {}

theorem unterminated_joined (ds : List Document) :
    (joined ds).unterminated = ds.flatMap unterminated := by
  induction ds with
  | nil => rfl
  | cons d ds ih =>
    rw [List.flatMap_cons, ← ih]
    rfl

theorem declarations_scanFrom (f : Framework) (t : Text) (cursor gap : Nat) :
    (scanFrom f t cursor gap).declarations = joined ((takenFrom f t cursor).map (entry f)) := by
  fun_induction takenFrom f t cursor generalizing gap with
  | case1 cursor hturn =>
    rw [scanFrom_ended hturn]
    rfl
  | case2 cursor found next hturn ih => rw [scanFrom_passed hturn, ih]
  | case3 cursor d block next hturn ih =>
    have hentry := declarations_entry (f := f) (d, block)
    rw [entry] at hentry
    rw [scanFrom_taken hturn, append_assoc (ofGap f _), declarations_append, declarations_append,
      ih, hentry]
    rfl

/-- The tree of a scope holds what its declarations add, one after another. -/
theorem declarations_ofSource (f : Framework) (t : Text) :
    (ofSource f t).declarations = joined ((taken f t).map (entry f)) := by
  rw [← scan_eq, scan, declarations_scanFrom, taken]

theorem unterminated_ofSource (f : Framework) (t : Text) :
    (ofSource f t).unterminated = (taken f t).flatMap fun p => (entry f p).unterminated := by
  have h := congrArg unterminated (declarations_ofSource f t)
  rw [unterminated_joined, List.flatMap_map] at h
  exact h

theorem unterminated_entry (d : Declaration) (block : BlockAt) :
    (entry f (d, block)).unterminated =
      (if block.closed then [] else [d.reportName]) ++
        if d.slot = .suite then (ofSource f block.body).unterminated else [] := by
  rw [← scan_eq]
  unfold entry ofOpen ofTaken
  cases block.closed <;> cases d.slot <;> rfl

/-! ## 2. The last declaration of a scope -/

theorem stop_of_open {start : Nat} (h : Text.IsBoundary t start)
    (hopen : (blockAt t start).closed = false) : (blockAt t start).stop = Text.size t := by
  by_cases hbody : ∃ body tail, ClosesBlock (Text.fromOffset start t) body tail
  · obtain ⟨body, tail, hbody⟩ := hbody
    rw [blockAt_of_closes h hbody] at hopen
    exact absurd hopen.symm Bool.false_ne_true
  · rw [blockAt_of_not_closes h hbody]

/-- Behind a block that nothing closes nothing more is taken. -/
theorem takenFrom_of_open {d : Declaration} {block : BlockAt} {next : Nat}
    (h : turn f t cursor = .taken d block next) (hopen : block.closed = false) :
    takenFrom f t next = [] := by
  obtain ⟨hmoves, -, hle, -⟩ := moves_taken h
  obtain ⟨-, -, rfl, -⟩ := of_turn_taken h
  have hstop := stop_of_open hmoves.stop hopen
  have hend := hmoves.next.le
  have hnext : next = Text.size t := by omega
  rw [hnext]
  exact takenFrom_ended (turn_end f t)

theorem closed_of_mem_dropLast (f : Framework) (t : Text) (cursor : Nat) :
    ∀ p ∈ (takenFrom f t cursor).dropLast, p.2.closed = true := by
  fun_induction takenFrom f t cursor with
  | case1 => simp
  | case2 cursor found next hturn ih => exact ih
  | case3 cursor d block next hturn ih =>
    -- behind a block that is open nothing is taken, so what has a successor is closed
    cases hclosed : block.closed with
    | false =>
      rw [takenFrom_of_open hturn hclosed]
      simp
    | true =>
      cases hrest : takenFrom f t next with
      | nil => simp
      | cons q rest =>
        rw [hrest] at ih
        rw [List.dropLast_cons_of_ne_nil (by simp)]
        intro p hp
        rcases List.mem_cons.1 hp with rfl | hp
        · exact hclosed
        · exact ih p hp

/-! ## 3. Closed blocks -/

theorem isBlockBody_of_closed {start : Nat} (h : Text.IsBoundary t start)
    (hclosed : (blockAt t start).closed = true) : IsBlockBody (blockAt t start).body := by
  by_cases hbody : ∃ body tail, ClosesBlock (Text.fromOffset start t) body tail
  · obtain ⟨body, tail, hbody⟩ := hbody
    rw [blockAt_of_closes h hbody]
    exact hbody.2
  · rw [blockAt_of_not_closes h hbody] at hclosed
    exact absurd hclosed Bool.false_ne_true

/-- From a head that is not hidden on, a text is read as it is on its own. -/
theorem marks_of_visible {before s rest title : Text} {slot : Slot}
    (hs : Slot.Heads f slot before.getLast? s rest title)
    (hvisible : inSpans (hiddenSpans (before ++ (s ++ rest))) (Text.size before) = false) :
    ∃ front, marks (before ++ (s ++ rest)) = front ++ marks (s ++ rest) := by
  obtain ⟨ms₁, ms₂, hms, hbefore, hafter⟩ :=
    List.map_eq_append_iff.1 (unmark_marks (before ++ (s ++ rest)))
  obtain ⟨c, s', hc⟩ := List.exists_cons_of_ne_nil hs.ne_nil
  obtain ⟨m, ms, rfl⟩ : ∃ m ms, ms₂ = m :: ms := by
    apply List.exists_cons_of_ne_nil
    rintro rfl
    rw [hc] at hafter
    exact absurd hafter (by simp)
  have hchar : m.char = c := by
    rw [hc] at hafter
    exact (List.cons.inj hafter).1
  -- the head begins with a character of code that opens no literal and no comment
  have hcode : m.kind = .code := by
    have hspan := inSpans_hiddenSpans hms m.char.utf8Size_pos
    rw [show unmark ms₁ = before from hbefore, Nat.add_zero, hvisible] at hspan
    simpa [Mark.isHidden] using hspan.symm
  have hplain : isPlain m.char = true := by
    have hlead := hs.startsLead
    rw [hc] at hlead
    rw [hchar]
    exact Slot.isPlain_of_startsLead hlead
  have h := read_of_code hms hcode hplain
  rw [show unmark (m :: ms) = s ++ rest from hafter] at h
  exact ⟨ms₁, hms.trans (congrArg (ms₁ ++ ·.1) h.symm)⟩

/-- The brace at the end of a head is code, and what follows is read on its own. -/
theorem exists_marks_head {before s rest title : Text} {slot : Slot} (hf : f ≠ .playwright)
    (hs : Slot.Heads f slot before.getLast? s rest title) :
    ∃ head, marks (s ++ rest) = head ++ codeMark '{' :: marks rest := by
  have hhead := hs.readsAsHead hf
  obtain ⟨head, hbrace⟩ := hhead.brace
  have hlast : s.getLast? = some '{' := by
    rw [← unmark_marks s, hbrace, unmark_append]
    exact List.getLast?_concat
  refine ⟨head, ?_⟩
  rw [marks_append hhead.mode (b := rest) (.of_last (by rw [hlast]; decide)), hbrace]
  simp

/-- What is taken from the body of a closed block is closed itself. -/
theorem closed_of_isBlockBody (hf : f ≠ .playwright) (ht : IsBlockBody t) :
    ∀ p ∈ taken f t, p.2.closed = true := by
  rintro ⟨d, block⟩ hp
  obtain ⟨cursor, next, hturn⟩ := exists_turn_of_mem hp
  obtain ⟨hd, hvisible, rfl, -⟩ := of_turn_taken hturn
  obtain ⟨before, s, rest, ⟨rfl, hstart, hstop⟩, -, hs⟩ := Declaration.exists_heads_of_next? hd
  rw [hstart] at hvisible
  obtain ⟨front, hmarks⟩ := marks_of_visible hs hvisible
  obtain ⟨head, hbrace⟩ := exists_marks_head hf hs
  have hbalanced := ht.balanced
  rw [hmarks, hbrace, ← List.append_assoc] at hbalanced
  have hsome := hbalanced.splitBlock_isSome rfl
  have hblock := blockAt_append (before ++ s) rest
  rw [List.append_assoc, Text.size_append, ← hstop] at hblock
  rw [hblock, Block.read]
  obtain ⟨p, hp⟩ := Option.isSome_iff_exists.1 hsome
  rw [hp]

/-! ## 4. The scopes of a source -/

/-- A source is a scope, and so is the body of every suite that is taken from a scope. -/
inductive IsScope (f : Framework) (t : Text) : Text → Prop
  | source : IsScope f t t
  | suite {s : Text} {d : Declaration} {block : BlockAt} (h : IsScope f t s)
      (hmem : (d, block) ∈ taken f s) (hslot : d.slot = .suite) : IsScope f t block.body

theorem isBlockBody_of_mem {d : Declaration} {block : BlockAt} (h : (d, block) ∈ taken f t)
    (hclosed : block.closed = true) : IsBlockBody block.body := by
  obtain ⟨cursor, next, hturn⟩ := exists_turn_of_mem h
  have hstop := (moves_taken hturn).1.stop
  obtain ⟨-, -, rfl, -⟩ := of_turn_taken hturn
  exact isBlockBody_of_closed hstop hclosed

theorem size_of_mem {d : Declaration} {block : BlockAt} (h : (d, block) ∈ taken f t) :
    Text.size block.body < Text.size t := by
  obtain ⟨cursor, next, hturn⟩ := exists_turn_of_mem h
  exact (moves_taken hturn).2.2.2

/-- The scopes in the body of a closed block are bodies of closed blocks. -/
theorem IsScope.isBlockBody {s : Text} (hf : f ≠ .playwright) (ht : IsBlockBody t)
    (h : IsScope f t s) : IsBlockBody s := by
  induction h with
  | source => exact ht
  | suite h hmem hslot ih => exact isBlockBody_of_mem hmem (closed_of_isBlockBody hf ih _ hmem)

/-- A closed block reports nothing. -/
theorem unterminated_of_isBlockBody (hf : f ≠ .playwright) (ht : IsBlockBody t) :
    (ofSource f t).unterminated = [] := by
  induction hn : Text.size t using Nat.strongRecOn generalizing t with
  | ind n ih =>
    rw [unterminated_ofSource, List.flatMap_eq_nil_iff]
    rintro ⟨d, block⟩ hmem
    have hclosed : block.closed = true := closed_of_isBlockBody hf ht _ hmem
    have hinner := ih _ (hn ▸ size_of_mem hmem) (isBlockBody_of_mem hmem hclosed) rfl
    rw [unterminated_entry, hclosed, hinner]
    simp

theorem unterminated_of_closed (hf : f ≠ .playwright) {p : Declaration × BlockAt}
    (hmem : p ∈ taken f t) (hclosed : p.2.closed = true) : (entry f p).unterminated = [] := by
  obtain ⟨d, block⟩ := p
  have hinner := unterminated_of_isBlockBody hf (isBlockBody_of_mem hmem hclosed)
  rw [unterminated_entry, hclosed, hinner]
  simp

/-! ## 5. The path of open blocks -/

/-- The names of the declarations that nothing closes, from the outermost scope inward: in each scope
there is at most one, the last; if it is a suite, the next one stands directly in its block. -/
inductive OpenPath (f : Framework) : Text → List Text → Prop
  | closed {t : Text} (h : ∀ p ∈ taken f t, p.2.closed = true) : OpenPath f t []
  | ends {t : Text} {front : List (Declaration × BlockAt)} {d : Declaration} {block : BlockAt}
      (h : taken f t = front ++ [(d, block)]) (hfront : ∀ p ∈ front, p.2.closed = true)
      (hopen : block.closed = false) (hslot : d.slot ≠ .suite) : OpenPath f t [d.reportName]
  | suite {t : Text} {front : List (Declaration × BlockAt)} {d : Declaration} {block : BlockAt}
      {names : List Text} (h : taken f t = front ++ [(d, block)])
      (hfront : ∀ p ∈ front, p.2.closed = true) (hopen : block.closed = false)
      (hslot : d.slot = .suite) (inner : OpenPath f block.body names) :
      OpenPath f t (d.reportName :: names)

theorem openPath_unterminated (hf : f ≠ .playwright) (t : Text) :
    OpenPath f t (ofSource f t).unterminated := by
  induction hn : Text.size t using Nat.strongRecOn generalizing t with
  | ind n ih =>
    rcases List.eq_nil_or_concat (taken f t) with hnil | ⟨front, ⟨d, block⟩, hlast⟩
    · rw [unterminated_ofSource, hnil]
      exact .closed (by simp [hnil])
    · rw [List.concat_eq_append] at hlast
      have hmem : (d, block) ∈ taken f t := by simp [hlast]
      have hfront : ∀ p ∈ front, p.2.closed = true := by
        have h := closed_of_mem_dropLast f t 0
        rwa [← taken, hlast, List.dropLast_concat] at h
      -- of what is reported only the report of the last declaration is left
      have hreport : (ofSource f t).unterminated = (entry f (d, block)).unterminated := by
        have hnone : (front.flatMap fun p => (entry f p).unterminated) = [] := by
          apply List.flatMap_eq_nil_iff.2
          intro p hp
          have hp' : p ∈ taken f t := by simp [hlast, hp]
          exact unterminated_of_closed hf hp' (hfront p hp)
        rw [unterminated_ofSource, hlast, List.flatMap_append, hnone, List.nil_append,
          List.flatMap_singleton]
      rw [hreport]
      cases hclosed : block.closed with
      | true =>
        rw [unterminated_of_closed hf hmem hclosed]
        refine .closed ?_
        rw [hlast]
        exact List.forall_mem_append.2 ⟨hfront, List.forall_mem_singleton.2 hclosed⟩
      | false =>
        rw [unterminated_entry, hclosed]
        by_cases hslot : d.slot = .suite
        · rw [if_pos hslot]
          exact .suite hlast hfront hclosed hslot (ih _ (hn ▸ size_of_mem hmem) _ rfl)
        · rw [if_neg hslot]
          exact .ends hlast hfront hclosed hslot

/-- Where no head can hide its brace, at most one declaration of each scope is unterminated, the
last; a closed suite holds none at any depth; and what a tree reports is one path inward. -/
theorem unterminated_isPath (hf : f ≠ .playwright) (t : Text) :
    (∀ s, IsScope f t s → ∀ p ∈ (taken f s).dropLast, p.2.closed = true) ∧
    (∀ s d block, IsScope f t s → (d, block) ∈ taken f s → d.slot = .suite →
      block.closed = true → ∀ inner, IsScope f block.body inner →
        ∀ p ∈ taken f inner, p.2.closed = true) ∧
    OpenPath f t (ofSource f t).unterminated := by
  refine ⟨fun s _ => closed_of_mem_dropLast f s 0, ?_, openPath_unterminated hf t⟩
  intro s d block _ hmem _ hclosed inner hinner
  exact closed_of_isBlockBody hf (hinner.isBlockBody hf (isBlockBody_of_mem hmem hclosed))

/-- What is left of a suite whose hook and whose own block are cut off. -/
def cutSuite : Text := " it('b', () => \x7b\x7d) before(() => \x7b".toList

theorem taken_cutSuite :
    taken .cypress cutSuite = [(⟨.test, 1, 16, some "b", none, true⟩, ⟨[], 17, true⟩),
      (⟨.hook .beforeAll, 19, 33, none, none, true⟩, ⟨[], 33, false⟩)] := by
  have htest : turn .cypress cutSuite 0 =
      .taken ⟨.test, 1, 16, some "b", none, true⟩ ⟨[], 17, true⟩ 18 := by decide +kernel
  have hhook : turn .cypress cutSuite 18 =
      .taken ⟨.hook .beforeAll, 19, 33, none, none, true⟩ ⟨[], 33, false⟩ 33 := by decide +kernel
  rw [taken, takenFrom_taken htest, takenFrom_taken hhook, takenFrom_of_open hhook rfl]

/-- A source that ends in a hook of a suite. -/
def cutSource : Text := "describe('a', () => \x7b".toList ++ cutSuite

theorem unterminated_isPath_cutSource :
    Framework.cypress ≠ .playwright ∧
      (ofSource .cypress cutSource).unterminated = ["a".toList, "BeforeAll".toList] ∧
      OpenPath .cypress cutSource (ofSource .cypress cutSource).unterminated := by
  have hsuite : turn .cypress cutSource 0 =
      .taken ⟨.suite, 0, 21, some "a", none, true⟩ ⟨cutSuite, 54, false⟩ 54 := by decide +kernel
  have htaken : taken .cypress cutSource =
      [(⟨.suite, 0, 21, some "a", none, true⟩, ⟨cutSuite, 54, false⟩)] := by
    rw [taken, takenFrom_taken hsuite, takenFrom_of_open hsuite rfl]
  have hhook : (ofSource .cypress cutSuite).unterminated = ["BeforeAll".toList] := by
    rw [unterminated_ofSource, taken_cutSuite, List.flatMap_cons, List.flatMap_singleton,
      unterminated_entry, unterminated_entry]
    rfl
  have hreport : (ofSource .cypress cutSource).unterminated = ["a".toList, "BeforeAll".toList] := by
    rw [unterminated_ofSource, htaken, List.flatMap_singleton, unterminated_entry, if_pos rfl,
      hhook]
    rfl
  exact ⟨by decide, hreport, (unterminated_isPath (by decide) cutSource).2.2⟩

end Document

end Parlance
