import Parlance.Proofs.Scope

/-!
Pieces of a file. If a text stands on its own and ends with a semicolon, the tree of that text and
any other one after it is the tree of the first followed by the tree of the second: no head, block,
call or gap reaches over the line break between them.
-/

namespace Parlance

open Source

namespace Document

/-! ## 1. A piece and what follows it -/

/-- A text that can stand before any other one: it is complete and ends with a semicolon. -/
structure IsPiece (a : Text) : Prop where
  selfContained : SelfContained a
  terminated : a.getLast? = some ';'

instance (a : Text) : Decidable (IsPiece a) :=
  decidable_of_iff (SelfContained a ∧ a.getLast? = some ';')
    ⟨fun h => ⟨h.1, h.2⟩, fun h => ⟨h.selfContained, h.terminated⟩⟩

def nextMarks (b : Text) : List Mark := codeMark '\n' :: marks b

theorem IsPiece.marks_append {a : Text} (ha : IsPiece a) (b : Text) :
    marks (a ++ '\n' :: b) = marks a ++ nextMarks b := by
  rw [marks_append_cons ha.selfContained.mode (by decide) (by decide)]
  rfl

/-- What stands behind code in a piece is read there as before, whatever follows the piece. -/
theorem IsPiece.marks_behind {a : Text} (ha : IsPiece a) {front ms : List Mark} {m : Mark}
    (h : marks a = front ++ m :: ms) (hm : m.kind = .code) (b : Text) :
    marks (unmark (ms ++ nextMarks b)) = ms ++ nextMarks b := by
  have hjoin : marks (a ++ '\n' :: b) = front ++ m :: (ms ++ nextMarks b) := by
    rw [ha.marks_append, h]
    simp
  exact marks_after_code hjoin hm

/-- A bracket that a piece opens is closed in it. -/
theorem IsPiece.exists_closer {a : Text} (ha : IsPiece a) {front ms : List Mark} {o : Mark}
    (h : marks a = front ++ o :: ms) (ho : o.opens = true) :
    ∃ inner c rest, ms = inner ++ c :: rest ∧ c.closesOf o = true ∧ Nested inner := by
  have hnested := ha.selfContained.nested
  rw [h] at hnested
  exact hnested.exists_closer ho

/-- Some last marks of a piece end with its semicolon, which is code. -/
theorem IsPiece.suffix_eq {a : Text} (ha : IsPiece a) {before ms : List Mark}
    (h : marks a = before ++ ms) (hms : ms ≠ []) : ∃ ms', ms = ms' ++ [codeMark ';'] := by
  obtain ⟨ms', m, rfl⟩ : ∃ ms' m, ms = ms' ++ [m] :=
    ⟨ms.dropLast, ms.getLast hms, (List.dropLast_concat_getLast hms).symm⟩
  have hu := unmark_marks a
  have hc := ha.terminated
  rw [← hu, h, ← List.append_assoc, unmark_append, unmark_cons, unmark_nil,
    List.getLast?_concat] at hc
  have hchar : m.char = ';' := Option.some.inj hc
  have hread : read .code a = (before ++ ms' ++ [m], .code) := by
    rw [List.append_assoc]
    exact Prod.ext h ha.selfContained.mode
  -- the character is code, since a piece ends with nothing open
  have hkind := @kind_of_last .code a _ m trivial hread (by rw [hchar]; rfl)
  obtain ⟨c, kind⟩ := m
  obtain rfl : c = ';' := hchar
  obtain rfl : kind = .code := hkind
  exact ⟨ms', rfl⟩

/-! ## 2. No head reaches over the end of a piece -/

section Step

variable {f : Framework} {a b : Text} {before : List Mark} {last : Option Char}

theorem startsWord_append_of_ne_nil {s t : Text} (hs : s ≠ []) :
    Pattern.startsWord (s ++ t) = Pattern.startsWord s := by
  cases s with
  | nil => exact absurd rfl hs
  | cons c s => rfl

/-- What is read as a head ends before the semicolon of a piece. -/
theorem head_within {ms ns : List Mark} {s rest : Text}
    (hread : marks (unmark (ms ++ ns)) = ms ++ ns) (hsemi : codeMark ';' ∈ ms)
    (hs : Slot.ReadsAsHead s) (ht : unmark (ms ++ ns) = s ++ rest) :
    ∃ mid, mid ≠ [] ∧ ms = marks s ++ mid ∧ marks rest = mid ++ ns := by
  -- a head ends with its brace, so no comment begins where it ends
  have hlast : s.getLast? ≠ some '/' := by
    obtain ⟨hs', hbrace⟩ := hs.brace
    have hu := unmark_marks s
    rw [hbrace, unmark_append] at hu
    rw [← hu, unmark_cons, unmark_nil, List.getLast?_concat]
    decide
  rw [ht, Source.marks_append hs.mode (.of_last hlast)] at hread
  have hsoft : codeMark ';' ∉ marks s := fun h => absurd (hs.soft _ h) (by decide)
  rcases List.append_eq_append_iff.1 hread.symm with ⟨mid, hm, -⟩ | ⟨mid, rfl, hm⟩
  · exact absurd (hm ▸ List.mem_append_left mid hsemi) hsoft
  · refine ⟨mid, ?_, rfl, hm⟩
    rintro rfl
    rw [List.append_nil] at hsemi
    exact hsoft hsemi

theorem semicolon_mem (ha : IsPiece a) {ms : List Mark} (h : marks a = before ++ ms)
    (hms : ms ≠ []) : codeMark ';' ∈ ms := by
  obtain ⟨ms', rfl⟩ := ha.suffix_eq h hms
  simp

/-- The semicolon of a piece stands behind every closing bracket in it. -/
theorem semicolon_behind_closer (ha : IsPiece a) {c : Mark} {tail : List Mark}
    (h : marks a = before ++ c :: tail) (hc : c.closes = true) : ';' ∈ unmark tail := by
  rcases List.mem_cons.1 (semicolon_mem ha h (by simp)) with rfl | hmem
  · exact absurd hc (by decide)
  · exact List.mem_map_of_mem hmem

theorem at?_append (hf : f ≠ .playwright) (ha : IsPiece a) {m : Mark} {ms : List Mark}
    (h : marks a = before ++ m :: ms) (hm : m.kind = .code) :
    Opening.at? f ⟨last, unmark (m :: ms ++ nextMarks b)⟩ =
      Opening.at? f ⟨last, unmark (m :: ms)⟩ := by
  have hsemi := semicolon_mem ha h (by simp)
  have hjoin : marks (a ++ '\n' :: b) = before ++ m :: (ms ++ nextMarks b) := by
    rw [ha.marks_append, h]
    simp
  refine Option.ext fun o => ?_
  rw [Opening.at?_eq_some_iff, Opening.at?_eq_some_iff]
  constructor
  · rintro ⟨s, rest, ht, hs, hl⟩
    have hp : isPlain m.char = true := Slot.isPlain_of_startsLead (ht ▸ hs.startsLead)
    have hread : marks (unmark (m :: ms ++ nextMarks b)) = m :: ms ++ nextMarks b :=
      congrArg Prod.fst (read_of_code hjoin hm hp)
    obtain ⟨mid, hne, hms, hmid⟩ := head_within hread hsemi (hs.readsAsHead hf) ht
    have hrest : rest = unmark mid ++ unmark (nextMarks b) := by
      rw [← unmark_marks rest, hmid, unmark_append]
    refine ⟨s, unmark mid, by rw [hms, unmark_append, unmark_marks], hs.congr rfl ?_, hl⟩
    rw [hrest]
    exact startsWord_append_of_ne_nil (by simpa [unmark] using hne)
  · rintro ⟨s, rest, ht, hs, hl⟩
    have hp : isPlain m.char = true := Slot.isPlain_of_startsLead (ht ▸ hs.startsLead)
    have hread : marks (unmark (m :: ms ++ [])) = m :: ms ++ [] := by
      rw [List.append_nil]
      exact congrArg Prod.fst (read_of_code h hm hp)
    obtain ⟨mid, hne, -, hmid⟩ :=
      head_within hread hsemi (hs.readsAsHead hf) (by rw [List.append_nil, ht])
    have hrest : rest = unmark mid := by
      rw [← unmark_marks rest, hmid, List.append_nil]
    refine ⟨s, rest ++ unmark (nextMarks b), by rw [unmark_append, ht, List.append_assoc],
      hs.congr rfl ?_, hl⟩
    rw [hrest]
    exact (startsWord_append_of_ne_nil (by simpa [unmark] using hne)).symm

/-- A call that looks like a declaration is known as such before the semicolon of a piece. -/
theorem looksDeclared_append (ha : IsPiece a) {ms : List Mark} (h : marks a = before ++ ms)
    (hms : ms ≠ []) :
    looksDeclared f ⟨last, unmark (ms ++ nextMarks b)⟩ = looksDeclared f ⟨last, unmark ms⟩ := by
  have hsemi : ';' ∈ unmark ms := List.mem_map_of_mem (semicolon_mem ha h hms)
  have hsoft {p : Pattern} {s rest : Text} {kept : Pattern.Kept}
      (hp : Slot.candidate.pattern? f = some p) (hs : p.Takes last s rest kept) : ';' ∉ s := by
    obtain ⟨w, e, x, rfl, he, hw, hx⟩ := Slot.takes_candidate hp hs
    have hw := Text.all_mono Slot.isHeadChar_of_isLeadChar (Slot.all_candidateLeadChar f w hw).2
    have he := Text.all_mono Slot.isHeadChar_of_isBlank he
    rw [List.all_eq_true] at hw he hx
    simp only [List.mem_append, List.mem_cons, not_or]
    refine ⟨fun hc => absurd (hw _ hc) (by decide), fun hc => absurd (he _ hc) (by decide),
      by decide, fun hc => absurd (hx _ hc) (by decide)⟩
  rw [Bool.eq_iff_iff, looksDeclared_iff, looksDeclared_iff]
  constructor
  · rintro ⟨p, s, rest, kept, hp, ht, hs⟩
    rw [unmark_append] at ht
    rcases List.append_eq_append_iff.1 ht with ⟨mid, rfl, -⟩ | ⟨mid, hms', rfl⟩
    · exact absurd (List.mem_append_left mid hsemi) (hsoft hp hs)
    · have hne : mid ≠ [] := by
        rintro rfl
        rw [hms', List.append_nil] at hsemi
        exact hsoft hp hs hsemi
      exact ⟨p, s, mid, kept, hp, hms', hs.congr (candidate_isUnanchored hp) rfl
        (startsWord_append_of_ne_nil hne)⟩
  · rintro ⟨p, s, rest, kept, hp, ht, hs⟩
    have hne : rest ≠ [] := by
      rintro rfl
      rw [ht, List.append_nil] at hsemi
      exact hsoft hp hs hsemi
    refine ⟨p, s, rest ++ unmark (nextMarks b), kept, hp, ?_,
      hs.congr (candidate_isUnanchored hp) rfl (startsWord_append_of_ne_nil hne).symm⟩
    rw [unmark_append, ht, List.append_assoc]

end Step

/-! ## 3. Blocks and calls end inside a piece -/

/-- The first `n` of some marks end with code. -/
def CodeEnd (ms : List Mark) (n : Nat) : Prop :=
  ∃ front m back, ms = front ++ m :: back ∧ front.length + 1 = n ∧ m.kind = .code

theorem CodeEnd.max {ms : List Mark} {n k : Nat} (hn : CodeEnd ms n) (hk : CodeEnd ms k) :
    CodeEnd ms (max n k) := by
  rcases Nat.le_total n k with h | h
  · rwa [Nat.max_eq_right h]
  · rwa [Nat.max_eq_left h]

theorem CodeEnd.pos {ms : List Mark} {n : Nat} (h : CodeEnd ms n) : 1 ≤ n := by
  obtain ⟨_, _, _, -, rfl, -⟩ := h
  omega

theorem CodeEnd.le {ms : List Mark} {n : Nat} (h : CodeEnd ms n) : n ≤ ms.length := by
  obtain ⟨_, _, _, rfl, rfl, -⟩ := h
  simp only [List.length_append, List.length_cons]
  omega

theorem CodeEnd.append_left {ms : List Mark} {n : Nat} (h : CodeEnd ms n) (ns : List Mark) :
    CodeEnd (ns ++ ms) (ns.length + n) := by
  obtain ⟨front, m, back, rfl, rfl, hm⟩ := h
  exact ⟨ns ++ front, m, back, by simp, by simp [Nat.add_assoc], hm⟩

/-- Behind some marks that end with code a text is read on its own. -/
theorem CodeEnd.read_drop {a : Text} {before ms : List Mark} {n : Nat} (h : CodeEnd ms n)
    (ha : marks a = before ++ ms) :
    read .code (unmark (ms.drop n)) = (ms.drop n, finalMode a) := by
  obtain ⟨front, m, back, rfl, rfl, hm⟩ := h
  have hdrop : (front ++ m :: back).drop (front.length + 1) = back := by simp
  have hsplit : marks a = (before ++ front) ++ m :: back := by rw [ha, List.append_assoc]
  rw [hdrop]
  exact Prod.ext (marks_after_code hsplit hm) (finalMode_after_code hsplit hm)

theorem terminatorLength_append {t : Text} (h : ';' ∈ t) (more : Text) :
    terminatorLength (t ++ more) = terminatorLength t := by
  have hne : (t.dropWhile fun c => c = ' ' || c = '\t') ≠ [] := by
    intro hnil
    have hall := List.takeWhile_append_dropWhile (p := fun c => c = ' ' || c = '\t') (l := t)
    rw [hnil, List.append_nil] at hall
    rw [← hall] at h
    exact absurd (List.all_eq_true.1 List.all_takeWhile _ h) (by decide)
  rw [terminatorLength, terminatorLength, List.dropWhile_append, if_neg (by simpa using hne)]
  cases hd : t.dropWhile fun c => c = ' ' || c = '\t' with
  | nil => exact absurd hd hne
  | cons c rest =>
    by_cases hc : c = ';'
    · subst hc
      simp only [List.cons_append, List.length_append]
      omega
    · rw [List.cons_append]
      split <;> simp_all

/-- A semicolon behind a call is code. -/
theorem codeEnd_terminator {tail : List Mark} (hread : marks (unmark tail) = tail) :
    terminatorLength (unmark tail) = 0 ∨ CodeEnd tail (terminatorLength (unmark tail)) := by
  rcases terminator_cases hread with hzero | ⟨spaces, rest, hspaces, he⟩
  · exact .inl hzero
  · right
    rw [he, terminatorLength_spaces hspaces]
    exact ⟨spaces.map codeMark, codeMark ';', rest, rfl, by rw [List.length_map], rfl⟩

/-- A call ends with its closing parenthesis or with the semicolon behind it. -/
theorem codeEnd_call {front tail : List Mark} {c : Mark} (hc : c.kind = .code)
    (hread : marks (unmark tail) = tail) :
    CodeEnd (front ++ c :: tail) (front.length + 1 + terminatorLength (unmark tail)) := by
  rcases codeEnd_terminator hread with hzero | hend
  · rw [hzero]
    exact ⟨front, c, tail, rfl, rfl, hc⟩
  · simpa using hend.append_left (front ++ [c])

section Step

variable {f : Framework} {a : Text} (b : Text) {before : List Mark} {last : Option Char}

/-- The block of a head in a piece is closed there. -/
theorem block_append (hf : f ≠ .playwright) (ha : IsPiece a) {m : Mark} {ms : List Mark}
    (h : marks a = before ++ m :: ms) (hm : m.kind = .code) {o : Opening}
    (ho : Opening.at? f ⟨last, unmark (m :: ms)⟩ = some o) :
    ∃ body tail, Block.read ((unmark (m :: ms)).drop o.length) = ⟨body, true, tail⟩ ∧
      Block.read ((unmark (m :: ms ++ nextMarks b)).drop o.length) =
        ⟨body, true, tail ++ unmark (nextMarks b)⟩ ∧
      CodeEnd (m :: ms) (o.length + (body.length + 1)) := by
  obtain ⟨s, rest, ht, hs, hl⟩ := Opening.at?_eq_some_iff.1 ho
  have hsemi := semicolon_mem ha h (by simp)
  have hp : isPlain m.char = true := Slot.isPlain_of_startsLead (ht ▸ hs.startsLead)
  have hread : marks (unmark (m :: ms ++ [])) = m :: ms ++ [] := by
    rw [List.append_nil]
    exact congrArg Prod.fst (read_of_code h hm hp)
  have hhead := hs.readsAsHead hf
  obtain ⟨mid, -, hms, hmid⟩ := head_within hread hsemi hhead (by rw [List.append_nil, ht])
  obtain ⟨front, hbrace⟩ := hhead.brace
  -- the brace that opens the block is closed by a brace in the piece
  have hopen : marks a = (before ++ front) ++ codeMark '\x7b' :: mid := by
    rw [h, hms, hbrace]
    simp
  obtain ⟨body, c, tail, rfl, hc, hbody⟩ := ha.exists_closer hopen rfl
  have hclose : c.isCode '\x7d' = true := by
    rw [Mark.isCode_brace_of_closesOf rfl hc]
    rfl
  have hdrop (ns : List Mark) :
      (unmark (m :: ms ++ ns)).drop o.length = unmark (body ++ c :: tail ++ ns) := by
    rw [hms, hl, List.append_assoc, drop_unmark_marks]
  have hmarks : marks (unmark (body ++ c :: tail)) = body ++ c :: tail :=
    marks_after_code hopen rfl
  have hjoin : marks (unmark (body ++ c :: tail ++ nextMarks b)) =
      body ++ c :: (tail ++ nextMarks b) :=
    (ha.marks_behind hopen rfl b).trans (by simp)
  refine ⟨unmark body, unmark tail, ?_, ?_, ?_⟩
  · have hd := hdrop []
    rw [List.append_nil, List.append_nil] at hd
    rw [hd, Block.read_eq hmarks hbody hclose]
  · rw [hdrop, Block.read_eq hjoin hbody hclose, unmark_append]
  · rw [hms, hl, ← length_marks s, length_unmark]
    exact CodeEnd.append_left ⟨body, c, tail, rfl, rfl, Mark.kind_of_isCode hclose⟩ (marks s)

/-- The call of a lead in a piece ends there. -/
theorem call_append (ha : IsPiece a) {m : Mark} {ms : List Mark}
    (h : marks a = before ++ m :: ms) (hm : m.kind = .code)
    (hlead : Slot.StartsLead f (unmark (m :: ms))) :
    ∃ n, callLength? (unmark (m :: ms)) = some n ∧
      callLength? (unmark (m :: ms ++ nextMarks b)) = some n ∧ CodeEnd (m :: ms) n := by
  have hp : isPlain m.char = true := Slot.isPlain_of_startsLead hlead
  have hread : marks (unmark (m :: ms)) = m :: ms := congrArg Prod.fst (read_of_code h hm hp)
  obtain ⟨lead, x, ht, hplain, hne⟩ := Slot.exists_of_startsLead hlead
  have hms : m :: ms = lead.map codeMark ++ codeMark '(' :: marks x := by
    rw [← hread, ht, marks_plain_append hplain, marks_plain_cons rfl]
  -- the parenthesis is closed in the piece, before its semicolon
  have hopen : marks a = (before ++ lead.map codeMark) ++ codeMark '(' :: marks x := by
    rw [h, hms, List.append_assoc]
  obtain ⟨inner, c, tail, hx, hc, hinner⟩ := ha.exists_closer hopen rfl
  have hcloses := Mark.closes_of_closesOf hc
  have hfull : marks a = (before ++ lead.map codeMark ++ codeMark '(' :: inner) ++ c :: tail := by
    rw [hopen, hx]
    simp
  have htail := semicolon_behind_closer ha hfull hcloses
  have hmarks : marks (unmark tail) = tail :=
    marks_after_code hx (Mark.kind_of_closes hcloses)
  have hjoin : marks (x ++ unmark (nextMarks b)) = inner ++ c :: (tail ++ nextMarks b) := by
    have hbehind := ha.marks_behind hopen rfl b
    rw [unmark_append, unmark_marks] at hbehind
    rw [hbehind, hx]
    simp
  refine ⟨lead.length + inner.length + 2 + terminatorLength (unmark tail), ?_, ?_, ?_⟩
  · rw [ht, callLength?_eq hne hx hinner hcloses]
  · rw [unmark_append, ht, List.append_assoc, List.cons_append,
      callLength?_eq hne hjoin hinner hcloses, unmark_append,
      terminatorLength_append htail]
  · have hsplit : m :: ms = (lead.map codeMark ++ codeMark '(' :: inner) ++ c :: tail := by
      rw [hms, hx]
      simp
    have hlength : (lead.map codeMark ++ codeMark '(' :: inner).length + 1 =
        lead.length + inner.length + 2 := by
      simp only [List.length_append, List.length_map, List.length_cons]
      omega
    rw [hsplit, ← hlength]
    exact codeEnd_call (Mark.kind_of_closes hcloses) hmarks

end Step

/-! ## 4. Gaps -/

theorem ofGap_eq_append {f : Framework} {s t u : Text}
    (h : splitStatements s = splitStatements t ++ splitStatements u) :
    ofGap f s = ofGap f t ++ ofGap f u := by
  show ofGap f s = { passthrough := _ }
  rw [ofGap, h, List.filter_append]
  rfl

/-- The last gap of a piece has nothing to do with what follows. -/
theorem ofGap_append {f : Framework} {a : Text} (ha : IsPiece a) {before gs : List Mark}
    (h : marks a = before ++ gs) (hread : read .code (unmark gs) = (gs, .code)) (t : Text) :
    ofGap f (unmark gs ++ '\n' :: t) = ofGap f (unmark gs) ++ ofGap f t := by
  refine ofGap_eq_append ?_
  have hmarks : marks (unmark gs) = gs := congrArg Prod.fst hread
  by_cases hgs : gs = []
  · subst hgs
    rw [unmark_nil, List.nil_append, splitStatements, marks_plain_cons rfl]
    exact splitMarks_lineBreak (marks t)
  · obtain ⟨front, rfl⟩ := ha.suffix_eq h hgs
    have hdepth : depthAfter 0 front = 0 := by
      have hnested := ha.selfContained.nested
      rw [h] at hnested
      have hd := hnested.depthAfter_suffix
      rwa [depthAfter_append, depthAfter_cons, depthAfter_nil,
        Mark.depth_of_char rfl rfl] at hd
    rw [splitStatements, splitStatements,
      marks_append (congrArg Prod.snd hread) (.of_head (by decide) (by decide)), hmarks,
      marks_plain_cons rfl, List.append_assoc, List.singleton_append, splitMarks_append rfl hdepth,
      splitMarks_lineBreak]
    rfl

theorem IsPiece.ofGap_append {f : Framework} {a : Text} (ha : IsPiece a) (t : Text) :
    ofGap f (a ++ '\n' :: t) = ofGap f a ++ ofGap f t := by
  have hread : read .code (unmark (marks a)) = (marks a, .code) := by
    rw [unmark_marks]
    exact Prod.ext rfl ha.selfContained.mode
  have h := @Document.ofGap_append f a ha [] (marks a) rfl hread t
  rwa [unmark_marks] at h

/-! ## 5. Reading on -/

/-- Behind the end of a piece reading begins anew. -/
theorem readFrom_join {f : Framework} {a : Text} (b : Text) (ha : IsPiece a)
    {before gs : List Mark} (h : marks a = before ++ gs)
    (hread : read .code (unmark gs) = (gs, .code)) (last : Option Char) :
    readFrom f (unmark gs).reverse (.ofMarks last (nextMarks b)) =
      ofGap f (unmark gs) ++ ofSource f b := by
  have hnil : ofGap f [] = {} := rfl
  have hbefore (t : Text) : ofGap f (unmark gs ++ ['\n'] ++ t) =
      ofGap f (unmark gs ++ ['\n']) ++ ofGap f t := by
    rw [List.append_assoc, List.singleton_append, ofGap_append ha h hread,
      ofGap_append ha h hread [], hnil, append_empty]
  have hgap : '\n' :: (unmark gs).reverse = [] ++ (unmark gs ++ ['\n']).reverse := by simp
  rw [nextMarks, readFrom_idle (Slot.not_startsLead_blank rfl), codeMark, hgap,
    readFrom_gap hbefore, ofGap_append ha h hread [], hnil, append_empty, ofSource_eq,
    @readFrom_congr_last f [] (some '\n') none (marks b) (by decide)]

/-- With the marks `gs` in its gap a cursor before the marks `ms` reads them as if nothing followed,
and then what follows. -/
def ReadsOn (f : Framework) (b : Text) (gs ms : List Mark) : Prop :=
  ∀ last, readFrom f (unmark gs).reverse (.ofMarks last (ms ++ nextMarks b)) =
    readFrom f (unmark gs).reverse (.ofMarks last ms) ++ ofSource f b

section Step

variable {f : Framework} {a b : Text} {before gs ms : List Mark} {m : Mark} {last : Option Char}

/-- What a cursor passes where no declaration begins is known before the end of a piece. -/
theorem passedLength_append (b : Text) (ha : IsPiece a) (h : marks a = before ++ m :: ms)
    (hm : m.kind = .code) (last : Option Char) :
    passedLength f (.ofMarks last (m :: ms ++ nextMarks b)) =
        passedLength f (.ofMarks last (m :: ms)) ∧
      passedLength f (.ofMarks last (m :: ms)) ≤ ms.length + 1 := by
  have hlooks := @looksDeclared_append f a b _ last ha _ h (by simp)
  rw [passedLength_of_code hm, List.cons_append, passedLength_of_code hm, ← List.cons_append,
    hlooks]
  split
  next hl =>
    obtain ⟨k, hc, hc', hend⟩ := call_append b ha h hm (startsLead_of_looksDeclared hl)
    rw [hc, hc']
    exact ⟨rfl, hend.le⟩
  next => exact ⟨rfl, Nat.le_add_left _ _⟩

theorem readFrom_passed_append (hhead : head? f (.ofMarks last (m :: ms)) = none)
    (hhead' : head? f (.ofMarks last (m :: ms ++ nextMarks b)) = none)
    (hk : passedLength f (.ofMarks last (m :: ms ++ nextMarks b)) =
      passedLength f (.ofMarks last (m :: ms)))
    (hle : passedLength f (.ofMarks last (m :: ms)) ≤ ms.length + 1)
    (hnext : ∀ k, 1 ≤ k → k ≤ ms.length + 1 →
      ReadsOn f b (gs ++ (m :: ms).take k) ((m :: ms).drop k)) :
    readFrom f (unmark gs).reverse (.ofMarks last (m :: ms ++ nextMarks b)) =
      readFrom f (unmark gs).reverse (.ofMarks last (m :: ms)) ++ ofSource f b := by
  rw [readFrom_passed (by simp [Cursor.ofMarks]) hhead',
    readFrom_passed (by simp [Cursor.ofMarks]) hhead, hk]
  have hpos : 1 ≤ max 1 (passedLength f (.ofMarks last (m :: ms))) := Nat.le_max_left _ _
  have hle : max 1 (passedLength f (.ofMarks last (m :: ms))) ≤ (m :: ms).length := by
    rw [List.length_cons]
    omega
  generalize max 1 (passedLength f (.ofMarks last (m :: ms))) = k at hpos hle
  have htake : (m :: ms ++ nextMarks b).take k = (m :: ms).take k :=
    List.take_append_of_le_length hle
  have hdrop : (m :: ms ++ nextMarks b).drop k = (m :: ms).drop k ++ nextMarks b :=
    List.drop_append_of_le_length hle
  have hgap (ns : List Mark) : (((Cursor.ofMarks last ns).rest.take k).reverse ++
      (unmark gs).reverse) = (unmark (gs ++ ns.take k)).reverse := by
    rw [← List.reverse_append, unmark_append, unmark_take]
    rfl
  rw [hgap, hgap, Cursor.drop_ofMarks, Cursor.drop_ofMarks, htake, hdrop]
  exact hnext k hpos hle _

/-- A declaration of a piece is read the same whatever follows the piece. -/
theorem readFrom_declared_append (hf : f ≠ .playwright) (ha : IsPiece a)
    (h : marks a = before ++ m :: ms) (hm : m.kind = .code) {o : Opening}
    (ho : head? f (.ofMarks last (m :: ms)) = some o)
    (ho' : head? f (.ofMarks last (m :: ms ++ nextMarks b)) = some o)
    (hnext : ∀ k, CodeEnd (m :: ms) k → ReadsOn f b [] ((m :: ms).drop k)) :
    readFrom f (unmark gs).reverse (.ofMarks last (m :: ms ++ nextMarks b)) =
      readFrom f (unmark gs).reverse (.ofMarks last (m :: ms)) ++ ofSource f b := by
  rw [readFrom_declared (by simp [Cursor.ofMarks]) ho',
    readFrom_declared (by simp [Cursor.ofMarks]) ho]
  rw [head?_of_code hm] at ho
  obtain ⟨body, tail, hb, hb', hblock⟩ := block_append b hf ha h hm ho
  obtain ⟨k, hc, hc', hcall⟩ := call_append b ha h hm (startsLead_of_at? ho)
  have hend := hblock.max hcall
  have hclaim (t tail : Text) (ht : callLength? t = some k) :
      claimedLength t o ⟨body, true, tail⟩ = max (o.length + (body.length + 1)) k := by
    rw [claimedLength, ht]
    exact Nat.max_eq_right hend.pos
  have hrest (ns : List Mark) : (Cursor.ofMarks last ns).rest = unmark ns := rfl
  have hdrop := @List.drop_append_of_le_length _ _ (nextMarks b) _ hend.le
  have htake := @List.take_append_of_le_length _ _ (nextMarks b) _ hend.le
  rw [hrest, hrest, hb, hb', hclaim _ _ hc, hclaim _ _ hc', Cursor.drop_ofMarks,
    Cursor.drop_ofMarks, hdrop, htake]
  have hgo := hnext _ hend
    ((unmark ((m :: ms).take (max (o.length + (body.length + 1)) k))).getLast?.or last)
  rw [unmark_nil, List.reverse_nil] at hgo
  rw [hgo]
  simp only [append_assoc]
  rfl

end Step

/-- A cursor inside a piece reads the rest of it as if nothing followed, and then what follows. The
induction is on what is left of the piece; `gs` is the text since its last declaration. -/
theorem readsOn_piece {f : Framework} {a : Text} (b : Text) (hf : f ≠ .playwright)
    (ha : IsPiece a) {before gs ms : List Mark} (h : marks a = before ++ gs ++ ms)
    (hread : read .code (unmark (gs ++ ms)) = (gs ++ ms, .code)) : ReadsOn f b gs ms := by
  induction hn : ms.length using Nat.strongRecOn generalizing before gs ms with
  | ind n ih =>
    intro last
    cases ms with
    | nil =>
      rw [List.append_nil] at h hread
      rw [readFrom_nil, List.reverse_reverse]
      exact readFrom_join b ha h hread last
    | cons m ms =>
      rw [List.length_cons] at hn
      have hnext (k : Nat) (hpos : 1 ≤ k) (hle : k ≤ ms.length + 1) :
          ReadsOn f b (gs ++ (m :: ms).take k) ((m :: ms).drop k) := by
        refine @ih ((m :: ms).drop k).length ?_ before _ _ ?_ ?_ rfl
        · rw [List.length_drop, List.length_cons]
          omega
        · rw [← List.append_assoc before, List.append_assoc, List.take_append_drop]
          exact h
        · rw [List.append_assoc, List.take_append_drop]
          exact hread
      by_cases hm : m.kind = .code
      · have hhead : head? f (.ofMarks last (m :: ms ++ nextMarks b)) =
            head? f (.ofMarks last (m :: ms)) := by
          rw [List.cons_append, head?_of_code hm, head?_of_code hm, ← List.cons_append,
            at?_append hf ha h hm]
        cases ho : head? f (.ofMarks last (m :: ms)) with
        | none =>
          obtain ⟨hk, hle⟩ := passedLength_append b ha h hm last
          exact readFrom_passed_append ho (hhead ▸ ho) hk hle hnext
        | some o =>
          refine readFrom_declared_append hf ha h hm ho (hhead ▸ ho) fun k hend => ?_
          refine @ih ((m :: ms).drop k).length ?_ (before ++ gs ++ (m :: ms).take k) [] _ ?_ ?_ rfl
          · have hpos := hend.pos
            rw [List.length_drop, List.length_cons]
            omega
          -- the gap before a declaration has been read, so the next one is empty
          · rw [List.append_nil, List.append_assoc, List.take_append_drop]
            exact h
          · rw [List.nil_append, hend.read_drop h, ha.selfContained.mode]
      -- a hidden character is passed alone
      · have hpassed (ms : List Mark) := @passedLength_of_hidden f last m ms hm
        exact readFrom_passed_append (head?_of_hidden hm) (head?_of_hidden hm)
          ((hpassed _).trans (hpassed _).symm) (by rw [hpassed]; omega) hnext

/-- The tree of a piece and a text after it is the tree of the piece and then the tree of the text,
field by field. -/
theorem ofSource_append {f : Framework} (hf : f = .cypress ∨ f = .testRail) {a : Text}
    (ha : IsPiece a) (b : Text) :
    ofSource f (a ++ '\n' :: b) = ofSource f a ++ ofSource f b := by
  have hf : f ≠ .playwright := by rcases hf with rfl | rfl <;> decide
  have hread : read .code (unmark ([] ++ marks a)) = ([] ++ marks a, .code) := by
    rw [List.nil_append, unmark_marks]
    exact Prod.ext rfl ha.selfContained.mode
  have h := @readsOn_piece f a b hf ha [] [] (marks a) rfl hread none
  rw [unmark_nil, List.reverse_nil] at h
  rw [ofSource_eq f (a ++ '\n' :: b), ha.marks_append, h, ← ofSource_eq]

/-- A title with a semicolon and a bracket in a comment do not end the first piece, and nothing closes
the second one. -/
theorem ofSource_append_truncated :
    IsPiece "describe('a;', () => \x7b /* ( */ \x7d);".toList ∧
      ofSource .cypress ("describe('a;', () => \x7b /* ( */ \x7d);".toList ++
          '\n' :: "it('b', () => \x7b (".toList) =
        ofSource .cypress "describe('a;', () => \x7b /* ( */ \x7d);".toList ++
          ofSource .cypress "it('b', () => \x7b (".toList :=
  ⟨by decide, ofSource_append (.inl rfl) (by decide) _⟩

end Document

end Parlance
