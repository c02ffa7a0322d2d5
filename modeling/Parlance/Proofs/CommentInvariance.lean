import Parlance.Proofs.CommentRuns
import Parlance.Proofs.RoundTrip

/-!
What stands in a comment has no influence on the tree of a source. Two texts that differ inside their
comments only have the same suites, tests and hooks, and the same blocks of them are left open.
-/

namespace Parlance

open Source Document

/-! ## 1. Shapes of documents -/

mutual

/-- An outline without the statements kept between the declarations. -/
def Outline.bare : Outline → Outline
  | .suite title tests hooks _ suites => .suite title tests hooks [] (Outline.bares suites)

/-- Some outlines without the statements kept between the declarations. -/
def Outline.bares : List Outline → List Outline
  | [] => []
  | o :: rest => o.bare :: Outline.bares rest

end

theorem Outline.bares_append (s t : List Outline) :
    Outline.bares (s ++ t) = Outline.bares s ++ Outline.bares t := by
  induction s with
  | nil => rfl
  | cons o s ih => rw [List.cons_append, Outline.bares, Outline.bares, ih, List.cons_append]

/-- The suites of a document without what their tests and hooks do and without kept statements. -/
def Document.bareSuites (d : Document) : List Outline := Outline.bares (Suite.outlines d.suites)

/-- Two documents that declare the same and leave the same open. -/
structure SameShape (d e : Document) : Prop where
  tests : d.tests.map TestCase.title = e.tests.map TestCase.title
  hooks : ∀ kind, (d.hooks.get kind).length = (e.hooks.get kind).length
  suites : d.bareSuites = e.bareSuites
  unterminated : d.unterminated = e.unterminated

namespace SameShape

theorem refl (d : Document) : SameShape d d := ⟨rfl, fun _ => rfl, rfl, rfl⟩

theorem gap (f : Framework) (s t : Text) : SameShape (ofGap f s) (ofGap f t) :=
  ⟨rfl, fun _ => rfl, rfl, rfl⟩

theorem append {d d' e e' : Document} (hd : SameShape d d') (he : SameShape e e') :
    SameShape (d ++ e) (d' ++ e') where
  tests := by
    show (d.tests ++ e.tests).map _ = (d'.tests ++ e'.tests).map _
    rw [List.map_append, List.map_append, hd.tests, he.tests]
  hooks kind := by
    have hget (a b : Document) : ((a ++ b).hooks.get kind).length =
        (a.hooks.get kind).length + (b.hooks.get kind).length := by
      rw [← List.length_append]
      cases kind <;> rfl
    rw [hget, hget, hd.hooks, he.hooks]
  suites := by
    have hsuites (a b : Document) : (a ++ b).bareSuites = a.bareSuites ++ b.bareSuites := by
      show Outline.bares (Suite.outlines (a.suites ++ b.suites)) = _
      rw [Suite.outlines_append, Outline.bares_append]
      rfl
    rw [hsuites, hsuites, hd.suites, he.suites]
  unterminated := by
    show d.unterminated ++ e.unterminated = d'.unterminated ++ e'.unterminated
    rw [hd.unterminated, he.unterminated]

theorem counts_eq {d e : Document} (h : SameShape d e) : d.hooks.counts = e.hooks.counts :=
  List.map_congr_left fun kind _ => h.hooks kind

theorem outline_eq {d e : Document} (h : SameShape d e) (title : Text) :
    (d.toSuite title).outline.bare = (e.toSuite title).outline.bare := by
  have hs : Outline.bares (Suite.outlines d.suites) = Outline.bares (Suite.outlines e.suites) :=
    h.suites
  rw [toSuite, toSuite, Suite.outline, Suite.outline, Outline.bare, Outline.bare, h.tests,
    h.counts_eq, hs]

/-- A suite has the shape of its scope. -/
theorem suite {d e : Document} (h : SameShape d e) (title : Text) :
    SameShape { suites := [d.toSuite title], unterminated := d.unterminated }
      { suites := [e.toSuite title], unterminated := e.unterminated } where
  tests := rfl
  hooks _ := rfl
  suites := by
    show [(d.toSuite title).outline.bare] = [(e.toSuite title).outline.bare]
    rw [h.outline_eq]
  unterminated := h.unterminated

/-- What a declaration adds to its scope has the shape of its body, and only a suite shows it. -/
theorem declared {f : Framework} {o : Opening} {b b' : Block}
    (h : SameShape (ofSource f b.body) (ofSource f b'.body)) :
    SameShape (Document.declared f o b) (Document.declared f o b') := by
  unfold Document.declared
  cases o.slot with
  | suite => exact h.suite o.title
  | hook kind =>
    refine ⟨rfl, fun other => ?_, rfl, rfl⟩
    cases kind <;> cases other <;> rfl
  | _ => exact ⟨rfl, fun _ => rfl, rfl, rfl⟩

theorem unclosed {o : Opening} {b b' : Block} (h : b.closed = b'.closed) :
    SameShape (ofUnclosed o b) (ofUnclosed o b') := by
  rw [ofUnclosed, ofUnclosed, h]
  exact refl _

end SameShape

/-! ## 2. Places in a reading -/

/-- Some marks that end the reading of a text. -/
def IsReadingEnd (ms : List Mark) : Prop := ∃ t before, marks t = before ++ ms

namespace IsReadingEnd

theorem of_marks {ms : List Mark} (h : marks (unmark ms) = ms) : IsReadingEnd ms :=
  ⟨unmark ms, [], h⟩

theorem suffix (front : List Mark) {ms : List Mark} (h : IsReadingEnd (front ++ ms)) :
    IsReadingEnd ms := by
  obtain ⟨t, before, h⟩ := h
  exact ⟨t, before ++ front, by rw [h, List.append_assoc]⟩

theorem isChain {ms : List Mark} (h : IsReadingEnd ms) : ms.IsChain Mark.Meets := by
  obtain ⟨t, before, h⟩ := h
  have hchain := isChain_marks t
  rw [h] at hchain
  exact (List.isChain_append.1 hchain).2.1

/-- Behind a character of code a reading is that of its text. -/
theorem after_code {front ms : List Mark} {m : Mark} (h : IsReadingEnd (front ++ m :: ms))
    (hm : m.kind = .code) : marks (unmark ms) = ms := by
  obtain ⟨t, before, h⟩ := h
  rw [← List.append_assoc] at h
  exact marks_after_code h hm

/-- So it is from a character of code on that is plain. -/
theorem of_code {ms : List Mark} {m : Mark} (h : IsReadingEnd (m :: ms)) (hm : m.kind = .code)
    (hp : isPlain m.char = true) : marks (unmark (m :: ms)) = m :: ms := by
  obtain ⟨t, before, h⟩ := h
  exact congrArg Prod.fst (read_of_code h hm hp)

end IsReadingEnd

/-- Without a slash no comment begins, so the first one that follows begins with a slash. -/
theorem visible_of_noSlash {front ms : List Mark} (hchain : (front ++ ms).IsChain Mark.Meets)
    (hhead : ∀ m ∈ (front ++ ms).head?, m.kind = .comment → m.char = '/')
    (hslash : ∀ m ∈ front, m.char ≠ '/') :
    (∀ m ∈ front, m.kind ≠ .comment) ∧ ∀ m ∈ ms.head?, m.kind = .comment → m.char = '/' := by
  induction front with
  | nil => exact ⟨by simp, hhead⟩
  | cons a front ih =>
    have ha : a.kind ≠ .comment := fun hc =>
      hslash a List.mem_cons_self (hhead a (by simp) hc)
    rw [List.cons_append, List.isChain_cons] at hchain
    have hrest := ih hchain.2 (fun m hm => (hchain.1 m hm).1 ha)
      fun m hm => hslash m (List.mem_cons_of_mem a hm)
    exact ⟨List.forall_mem_cons.2 ⟨ha, hrest.1⟩, hrest.2⟩

/-! ## 3. Heads, calls and what looks like a head -/

section Place

variable {f : Framework} {last last' : Option Char} {m : Mark} {ms ns : List Mark}

/-- A head stands outside comments, so it stands on both sides. -/
theorem exists_head_alike (hf : f ≠ .playwright) (hm : m.kind = .code) (h : Alike ms ns)
    (hms : IsReadingEnd (m :: ms)) (hns : IsReadingEnd (m :: ns))
    (hlast : last.any isWord = last'.any isWord) {o : Opening}
    (ho : Opening.at? f ⟨last, unmark (m :: ms)⟩ = some o) :
    Opening.at? f ⟨last', unmark (m :: ns)⟩ = some o ∧
      ∃ s rest rest', m :: ms = marks s ++ rest ∧ m :: ns = marks s ++ rest' ∧
        o.length = s.length ∧ (∀ a ∈ marks s, a.kind ≠ .comment) ∧ Alike rest rest' ∧
        marks (unmark rest) = rest ∧ marks (unmark rest') = rest' := by
  obtain ⟨s, rest, ht, hs, hl⟩ := Opening.at?_eq_some_iff.1 ho
  have hp : isPlain m.char = true := Slot.isPlain_of_startsLead (ht ▸ hs.startsLead)
  have hhead := hs.readsAsHead hf
  obtain ⟨front, hbrace⟩ := hhead.brace
  have hslash : s.getLast? ≠ some '/' := by
    rw [← unmark_marks s, hbrace, unmark_append, unmark_cons, unmark_nil, List.getLast?_concat]
    decide
  have hsplit : m :: ms = marks s ++ marks rest := by
    rw [← hms.of_code hm hp, ht, marks_append hhead.mode (.of_last hslash)]
  have halike : Alike (marks s ++ marks rest) (m :: ns) :=
    hsplit ▸ .same (by rw [hm]; decide) h
  obtain ⟨rest', hns', hrest⟩ := halike.visible_append hhead.visible
  have hread' : marks (unmark rest') = rest' := by
    rw [hns', hbrace, List.append_assoc, List.singleton_append] at hns
    exact hns.after_code rfl
  refine ⟨Opening.at?_eq_some_iff.2 ⟨s, unmark rest', ?_, hs.congr hlast ?_, hl⟩, s, marks rest,
    rest', hsplit, hns', hl, hhead.visible, hrest, by rw [unmark_marks], hread'⟩
  · rw [hns', unmark_append, unmark_marks]
  · have hword := hrest.startsWord (fun m hm hc => slash_of_marks hm hc)
      (fun m hm hc => slash_of_marks (hread'.symm ▸ hm) hc)
    rwa [unmark_marks] at hword

theorem at?_alike (hf : f ≠ .playwright) (hm : m.kind = .code) (h : Alike ms ns)
    (hms : IsReadingEnd (m :: ms)) (hns : IsReadingEnd (m :: ns))
    (hlast : last.any isWord = last'.any isWord) :
    Opening.at? f ⟨last, unmark (m :: ms)⟩ = Opening.at? f ⟨last', unmark (m :: ns)⟩ := by
  apply Option.ext
  intro o
  constructor
  · intro ho
    exact (exists_head_alike hf hm h hms hns hlast ho).1
  · intro ho
    exact (exists_head_alike hf hm h.symm hns hms hlast.symm ho).1

/-- No slash stands in what makes a call look like a declaration. -/
theorem noSlash_of_candidate (hf : f ≠ .playwright) {p : Pattern} {s rest : Text}
    {kept : Pattern.Kept} (hp : Slot.candidate.pattern? f = some p)
    (hs : p.Takes last s rest kept) : s.all (· ≠ '/') = true := by
  have hblank (c : Char) : isBlank c = true → decide (c ≠ '/') = true := Text.ne_of_holds rfl c
  have hname (c : Char) (hc : (isWord c || c = '$' || c = '.') = true) :
      decide (c ≠ '/') = true := by
    rw [decide_eq_true_eq]
    intro he
    rw [he] at hc
    exact absurd hc (by decide)
  have hopening {h : Pattern} (hh : h.Within (· ≠ '/')) : (Slot.opening h).Within (· ≠ '/') := by
    simp only [Slot.opening, Pattern.within_append, Pattern.within_orElse, Pattern.within_oneOf,
      Pattern.within_word, Pattern.within_one]
    exact ⟨⟨⟨⟨hh, hblank⟩, by decide⟩, hblank⟩, by decide, ⟨by decide, trivial⟩,
      ⟨by decide, trivial⟩, ⟨⟨hname, hname⟩, hblank⟩, by decide⟩
  apply hs.all
  cases f with
  | playwright => exact absurd rfl hf
  | cypress =>
    obtain rfl := Option.some.inj hp
    exact hopening ⟨⟨trivial, Pattern.within_words.2 (by decide)⟩,
      Pattern.within_optional.2 (Pattern.within_words.2 (by decide))⟩
  | testRail =>
    obtain rfl := Option.some.inj hp
    exact hopening ⟨⟨trivial, Pattern.within_words.2 (by decide)⟩, trivial⟩

/-- What makes a call look like a declaration stands outside comments, so it stands on both sides. -/
theorem looksDeclared_of_alike (hf : f ≠ .playwright) (hm : m.kind = .code) (h : Alike ms ns)
    (hms : IsReadingEnd (m :: ms)) (hns : IsReadingEnd (m :: ns))
    (hlast : last.any isWord = last'.any isWord)
    (hl : looksDeclared f ⟨last, unmark (m :: ms)⟩ = true) :
    looksDeclared f ⟨last', unmark (m :: ns)⟩ = true := by
  obtain ⟨p, s, rest, kept, hp, ht, hs⟩ := looksDeclared_iff.1 hl
  have hkind : m.kind ≠ .comment := by rw [hm]; decide
  -- the match as marks: `front` is what it takes, `back` what follows it
  have hcut : m :: ms = (m :: ms).take s.length ++ (m :: ms).drop s.length :=
    (List.take_append_drop _ _).symm
  generalize hfront : (m :: ms).take s.length = front at hcut
  generalize (m :: ms).drop s.length = back at hcut
  have hunmark : unmark front = s := by rw [← hfront, unmark_take, ht, List.take_left]
  have hslash : ∀ a ∈ front, a.char ≠ '/' := by
    intro a ha
    have hmem : a.char ∈ s := hunmark ▸ List.mem_map_of_mem ha
    simpa using List.all_eq_true.1 (noSlash_of_candidate hf hp hs) _ hmem
  have hedge {ms back : List Mark} (hend : IsReadingEnd (m :: ms)) (heq : m :: ms = front ++ back) :
      (∀ a ∈ front, a.kind ≠ .comment) ∧
        ∀ a ∈ back.head?, a.kind = .comment → a.char = '/' := by
    apply visible_of_noSlash (heq ▸ hend.isChain) ?_ hslash
    rw [← heq]
    intro a ha hc
    obtain rfl := Option.some.inj ha
    exact absurd hc hkind
  obtain ⟨hvisible, hstart⟩ := hedge hms hcut
  obtain ⟨back', hns', hback⟩ := (hcut ▸ Alike.same hkind h).visible_append hvisible
  have hrest : rest = unmark back := by
    rw [hcut, unmark_append, hunmark] at ht
    exact (List.append_cancel_left ht).symm
  rw [hrest] at hs
  refine looksDeclared_iff.2 ⟨p, s, unmark back', kept, hp, ?_,
    hs.congr (candidate_isUnanchored hp) hlast (hback.startsWord hstart (hedge hns hns').2)⟩
  rw [hns', unmark_append, hunmark]

theorem looksDeclared_alike (hf : f ≠ .playwright) (hm : m.kind = .code) (h : Alike ms ns)
    (hms : IsReadingEnd (m :: ms)) (hns : IsReadingEnd (m :: ns))
    (hlast : last.any isWord = last'.any isWord) :
    looksDeclared f ⟨last, unmark (m :: ms)⟩ = looksDeclared f ⟨last', unmark (m :: ns)⟩ := by
  rw [Bool.eq_iff_iff]
  exact ⟨looksDeclared_of_alike hf hm h hms hns hlast,
    looksDeclared_of_alike hf hm h.symm hns hms hlast.symm⟩

end Place

/-! ## 4. Where calls end -/

/-- Marks outside comments are like themselves. -/
theorem Source.Alike.refl {ms : List Mark} (h : ∀ m ∈ ms, m.kind ≠ .comment) : Alike ms ms := by
  induction ms with
  | nil => exact .nil
  | cons m ms ih =>
    exact .same (h m List.mem_cons_self) (ih fun a ha => h a (List.mem_cons_of_mem m ha))

/-- A semicolon that ends a call does so on both sides. -/
theorem terminator_alike {ms ns : List Mark} (h : Alike ms ns) (hms : marks (unmark ms) = ms)
    (hns : marks (unmark ns) = ns) :
    (terminatorLength (unmark ms) = 0 ∧ terminatorLength (unmark ns) = 0) ∨
      Corresponds ms ns (terminatorLength (unmark ms)) (terminatorLength (unmark ns)) := by
  have hsame {ms ns : List Mark} (h : Alike ms ns) {spaces : Text} {rest : List Mark}
      (hspaces : spaces.all (fun c => c = ' ' || c = '\t') = true)
      (hms : ms = spaces.map codeMark ++ codeMark ';' :: rest) :
      Corresponds ms ns (terminatorLength (unmark ms)) (terminatorLength (unmark ns)) := by
    have hvisible : ∀ m ∈ spaces.map codeMark, m.kind ≠ .comment := Slot.codeMark_visible spaces
    rw [hms] at h
    obtain ⟨ns', rfl, h'⟩ := h.visible_append hvisible
    obtain ⟨rest', rfl, hrest⟩ := h'.visible_left (by decide)
    have hc := Corresponds.mk (m := codeMark ';') rfl rfl (Alike.refl hvisible) hrest
    rw [hms, terminatorLength_spaces hspaces, terminatorLength_spaces hspaces,
      ← List.length_map codeMark]
    exact hc
  rcases terminator_cases hms with hzero | ⟨spaces, rest, hspaces, he⟩
  · rcases terminator_cases hns with hzero' | ⟨spaces, rest, hspaces, he⟩
    · exact .inl ⟨hzero, hzero'⟩
    · exact .inr (hsame h.symm hspaces he).symm
  · exact .inr (hsame h hspaces he)

theorem isWord_of_closes {m : Mark} (h : m.closes = true) : isWord m.char = false := by
  simp only [Mark.closes, isCloser, Bool.and_eq_true, Bool.or_eq_true, decide_eq_true_eq] at h
  rcases h.2 with (hc | hc) | hc <;> rw [hc] <;> decide

/-- Two calls that are alike up to their closer end at corresponding characters: at the closer, or
at the semicolon behind it. -/
theorem corresponds_closer {inner tail inner' tail' : List Mark} {c : Mark} (hc : c.closes = true)
    (hinner : Alike inner inner') (htail : Alike tail tail') (hread : marks (unmark tail) = tail)
    (hread' : marks (unmark tail') = tail') :
    Corresponds (inner ++ c :: tail) (inner' ++ c :: tail')
      (inner.length + 1 + terminatorLength (unmark tail))
      (inner'.length + 1 + terminatorLength (unmark tail')) := by
  have hcode := Mark.kind_of_closes hc
  rcases terminator_alike htail hread hread' with ⟨hzero, hzero'⟩ | hterm
  · rw [hzero, hzero']
    exact .mk hcode (isWord_of_closes hc) hinner htail
  · have hcloser : Alike (inner ++ [c]) (inner' ++ [c]) :=
      hinner.append (.same (by rw [hcode]; decide) .nil)
    have hk := hterm.append hcloser
    simpa only [List.append_assoc, List.singleton_append, List.length_append,
      List.length_singleton] using hk

/-- The call of a lead ends nowhere on either side, or at corresponding characters. -/
theorem call_alike {f : Framework} {m : Mark} {ms ns : List Mark} (hm : m.kind = .code)
    (h : Alike ms ns) (hms : IsReadingEnd (m :: ms)) (hns : IsReadingEnd (m :: ns))
    (hlead : Slot.StartsLead f (unmark (m :: ms))) :
    (callLength? (unmark (m :: ms)) = none ∧ callLength? (unmark (m :: ns)) = none) ∨
      ∃ k k', callLength? (unmark (m :: ms)) = some k ∧
        callLength? (unmark (m :: ns)) = some k' ∧ Corresponds (m :: ms) (m :: ns) k k' := by
  have hp : isPlain m.char = true := Slot.isPlain_of_startsLead hlead
  obtain ⟨lead, x, ht, hplain, hne⟩ := Slot.exists_of_startsLead hlead
  -- the lead and its parenthesis stand on both sides
  have hfront : m :: ms = (lead ++ ['(']).map codeMark ++ marks x := by
    rw [← hms.of_code hm hp, ht, marks_plain_append hplain, marks_plain_cons rfl]
    simp
  have hvisible := Slot.codeMark_visible (lead ++ ['('])
  obtain ⟨inside, hfront', hinside⟩ :=
    (hfront ▸ Alike.same (by rw [hm]; decide) h).visible_append hvisible
  have hread : marks (unmark inside) = inside := by
    rw [hfront', List.map_append, List.append_assoc] at hns
    exact hns.after_code rfl
  have ht' : unmark (m :: ns) = lead ++ '(' :: unmark inside := by
    rw [hfront', unmark_append, unmark_map_codeMark, List.append_assoc]
    rfl
  have hlen : ((lead ++ ['(']).map codeMark).length = lead.length + 1 := by simp
  rw [ht, ht', callLength?_lead x hne, callLength?_lead _ hne, hread, hfront, hfront']
  have hcut := hinside.splitClose 0
  generalize splitClose (0 + 1) (marks x) = cut at hcut
  generalize splitClose (0 + 1) inside = cut' at hcut
  cases hcut with
  | none => exact .inl ⟨rfl, rfl⟩
  | @some inner tail inner' tail' c hc hinner hinner' halike halike' =>
    have hcode := Mark.kind_of_closes hc
    have hk := (corresponds_closer hc halike halike' (marks_after_code hinner hcode)
      (marks_after_code (hread.trans hinner') hcode)).append (Alike.refl hvisible)
    rw [← hinner, ← hinner', hlen] at hk
    refine .inr ⟨lead.length + inner.length + 2 + terminatorLength (unmark tail),
      lead.length + inner'.length + 2 + terminatorLength (unmark tail'), rfl, rfl, ?_⟩
    convert hk using 1 <;> omega

/-- A block whose text is read as it stands. -/
theorem Source.Block.read_unmark {ms : List Mark} (h : marks (unmark ms) = ms) :
    Block.read (unmark ms) =
      match splitBlock 0 ms with
      | some (body, rest) => ⟨unmark body, true, unmark rest⟩
      | none => ⟨unmark ms, false, []⟩ := by
  unfold Block.read
  cases hs : splitBlock 0 ms with
  | none => simp only [h, hs]
  | some p => simp only [h, hs]

/-- The block behind a brace is closed on neither side, or by the same brace on both. -/
theorem block_alike {ms ns : List Mark} (h : Alike ms ns) (hms : marks (unmark ms) = ms)
    (hns : marks (unmark ns) = ns) :
    (Block.read (unmark ms) = ⟨unmark ms, false, []⟩ ∧
        Block.read (unmark ns) = ⟨unmark ns, false, []⟩) ∨
      ∃ body body' tail tail', Block.read (unmark ms) = ⟨unmark body, true, unmark tail⟩ ∧
        Block.read (unmark ns) = ⟨unmark body', true, unmark tail'⟩ ∧ Alike body body' ∧
        marks (unmark body) = body ∧ marks (unmark body') = body' ∧
        Corresponds ms ns (body.length + 1) (body'.length + 1) := by
  rw [Block.read_unmark hms, Block.read_unmark hns]
  have hcut := h.splitBlock 0
  generalize splitBlock 0 ms = cut at hcut
  generalize splitBlock 0 ns = cut' at hcut
  cases hcut with
  | none => exact .inl ⟨rfl, rfl⟩
  | @some body tail body' tail' c hc hbrace hbrace' halike halike' =>
    have hcode := Mark.kind_of_isCode hc
    have hword : isWord c.char = false := by
      rw [Mark.char_of_isCode hc]
      decide
    have hbody := marks_before_code (hms.trans hbrace) hcode
    have hbody' := marks_before_code (hns.trans hbrace') hcode
    refine .inr ⟨body, body', tail, tail', rfl, rfl, halike, hbody, hbody', ?_⟩
    rw [hbrace, hbrace']
    exact .mk hcode hword halike halike'

/-! ## 5. Reading texts that are alike -/

/-- Comments are passed one character at a time. -/
theorem readFrom_comments {f : Framework} {gap : Text} {last : Option Char} {cs ms : List Mark}
    (h : ∀ m ∈ cs, m.kind = .comment) :
    readFrom f gap (.ofMarks last (cs ++ ms)) =
      readFrom f ((unmark cs).reverse ++ gap) (.ofMarks ((unmark cs).getLast?.or last) ms) := by
  induction cs generalizing gap last with
  | nil => rfl
  | cons c cs ih =>
    have hc : c.kind ≠ .code := by rw [h c List.mem_cons_self]; decide
    rw [List.cons_append, readFrom_passed (by simp [Cursor.ofMarks]) (head?_of_hidden hc),
      passedLength_of_hidden hc, Cursor.drop_ofMarks]
    show readFrom f (c.char :: gap) (.ofMarks (some c.char) (cs ++ ms)) = _
    rw [ih fun m hm => h m (List.mem_cons_of_mem c hm), unmark_cons, List.reverse_cons,
      List.append_assoc, List.singleton_append,
      show c.char :: unmark cs = [c.char] ++ unmark cs from rfl, ← Option.or_or_last]
    rfl

/-- Whether a word goes on at the next character is the same on both sides, unless that character is
a line feed or hidden. -/
def Joins (last last' : Option Char) (ms : List Mark) : Prop :=
  ∀ m ∈ ms.head?, m.kind = .code → last.any isWord = last'.any isWord ∨ m.char = '\n'

theorem Joins.of_eq {last last' : Option Char} (h : last.any isWord = last'.any isWord)
    (ms : List Mark) : Joins last last' ms :=
  fun _ _ _ => .inl h

/-- A comment before code ends with a slash, or the code is a line feed. -/
theorem slash_of_comment {cs ms : List Mark} {m : Mark} (h : IsReadingEnd (cs ++ ms))
    (hcs : IsComment cs) (hm : m ∈ ms.head?) (hcode : m.kind = .code) :
    (unmark cs).getLast? = some '/' ∨ m.char = '\n' := by
  obtain ⟨c, hc⟩ : ∃ c, cs.getLast? = some c :=
    ⟨_, List.getLast?_eq_some_getLast hcs.1⟩
  have hmeet := (List.isChain_append.1 h.isChain).2.2 c hc m hm
  rcases hmeet.2 (hcs.2 c (List.mem_of_getLast? hc)) hcode with hslash | hn
  · left
    rw [unmark, List.getLast?_map, hc, Option.map_some, hslash]
  · exact .inr hn

theorem joins_comments {cs ds ms ns : List Mark} {last last' : Option Char}
    (hms : IsReadingEnd (cs ++ ms)) (hns : IsReadingEnd (ds ++ ns)) (hcs : IsComment cs)
    (hds : IsComment ds) (h : Alike ms ns) :
    Joins ((unmark cs).getLast?.or last) ((unmark ds).getLast?.or last') ms := by
  intro m hm hcode
  have hn : m ∈ ns.head? := by
    cases ms with
    | nil => simp at hm
    | cons a ms =>
      obtain rfl := Option.some.inj hm
      obtain ⟨ns', rfl, -⟩ := h.visible_left (by rw [hcode]; decide)
      rfl
  rcases slash_of_comment hms hcs hm hcode with hl | hl
  · rcases slash_of_comment hns hds hn hcode with hl' | hl'
    · left
      rw [hl, hl']
      rfl
    · exact .inr hl'
  · exact .inr hl

/-- Readings that are alike give documents of the same shape, whatever was kept before. -/
def ReadAlike (f : Framework) (last last' : Option Char) (ms ns : List Mark) : Prop :=
  ∀ gap gap', SameShape (readFrom f gap (.ofMarks last ms)) (readFrom f gap' (.ofMarks last' ns))

/-- All shorter readings that are alike are read alike. -/
def ReadAlikeBelow (f : Framework) (n : Nat) : Prop :=
  ∀ ⦃ms ns : List Mark⦄ ⦃last last' : Option Char⦄, ms.length < n → Alike ms ns →
    IsReadingEnd ms → IsReadingEnd ns → Joins last last' ms → ReadAlike f last last' ms ns

theorem ReadAlikeBelow.body {f : Framework} {n : Nat} (hbelow : ReadAlikeBelow f n)
    {b b' : List Mark} (hlt : b.length < n) (h : Alike b b') (hb : marks (unmark b) = b)
    (hb' : marks (unmark b') = b') :
    SameShape (ofSource f (unmark b)) (ofSource f (unmark b')) := by
  rw [ofSource_eq, ofSource_eq, hb, hb']
  exact hbelow hlt h (.of_marks hb) (.of_marks hb') (.of_eq rfl _) _ _

theorem readAlike_end (f : Framework) (last last' : Option Char) : ReadAlike f last last' [] [] := by
  intro gap gap'
  rw [readFrom_nil, readFrom_nil]
  exact .gap f _ _

/-- Behind corresponding characters two readings are alike, and no word goes on. -/
theorem Source.Corresponds.behind {ms ns : List Mark} {k k' : Nat} (h : Corresponds ms ns k k') :
    Alike (ms.drop k) (ns.drop k') ∧ ∃ c, isWord c = false ∧
      (unmark (ms.take k)).getLast? = some c ∧ (unmark (ns.take k')).getLast? = some c := by
  cases h with
  | @mk m front back front' back' hm hword hfront hback =>
    have hdrop (front back : List Mark) : (front ++ m :: back).drop (front.length + 1) = back := by
      simp
    have hlast (front : List Mark) : (unmark (front ++ [m])).getLast? = some m.char := by
      rw [unmark_append, unmark_cons, unmark_nil, List.getLast?_concat]
    rw [hdrop, hdrop, take_succ_length, take_succ_length]
    exact ⟨hback, m.char, hword, hlast front, hlast front'⟩

/-- A declaration whose block is closed ends at corresponding characters: those of its block, or
those of its call if they come later. -/
theorem claimed_alike {f : Framework} {m : Mark} {ms ns : List Mark} (hm : m.kind = .code)
    (h : Alike ms ns) (hms : IsReadingEnd (m :: ms)) (hns : IsReadingEnd (m :: ns))
    (hlead : Slot.StartsLead f (unmark (m :: ms))) {o : Opening} {b b' : Block}
    (hb : Corresponds (m :: ms) (m :: ns) (o.length + b.length) (o.length + b'.length)) :
    Corresponds (m :: ms) (m :: ns) (claimedLength (unmark (m :: ms)) o b)
      (claimedLength (unmark (m :: ns)) o b') := by
  rw [claimedLength, claimedLength]
  rcases call_alike hm h hms hns hlead with ⟨hc, hc'⟩ | ⟨k, k', hc, hc', hk⟩
  · rw [hc, hc', Option.getD_none, Nat.max_zero, Nat.max_zero, Nat.max_eq_right hb.pos,
      Nat.max_eq_right hb.symm.pos]
    exact hb
  · have hboth := hb.max hk
    rw [hc, hc', Option.getD_some, Option.getD_some, Nat.max_eq_right hboth.pos,
      Nat.max_eq_right hboth.symm.pos]
    exact hboth

/-- A block that nothing closes takes all that is left. -/
theorem drop_unclosed {last : Option Char} {ms : List Mark} {o : Opening} {b : Block}
    (hb : b.closed = false) (hlen : ms.length = o.length + b.body.length) :
    (Cursor.ofMarks last ms).drop (claimedLength (unmark ms) o b) =
      .ofMarks ((unmark ms).getLast?.or last) [] := by
  have hle : ms.length ≤ claimedLength (unmark ms) o b := by
    simp only [claimedLength, Block.length, hb]
    omega
  rw [Cursor.drop_ofMarks, List.drop_of_length_le hle, List.take_of_length_le hle]

section Step

variable {f : Framework} {last last' : Option Char} {m : Mark} {ms ns : List Mark}
  (hbelow : ReadAlikeBelow f (ms.length + 1)) (hms : IsReadingEnd (m :: ms))
  (hns : IsReadingEnd (m :: ns))

include hbelow hms hns

/-- Reading goes on alike behind corresponding characters. -/
theorem readAlike_drop {k k' : Nat} (h : Corresponds (m :: ms) (m :: ns) k k') (gap gap' : Text) :
    SameShape (readFrom f gap ((Cursor.ofMarks last (m :: ms)).drop k))
      (readFrom f gap' ((Cursor.ofMarks last' (m :: ns)).drop k')) := by
  obtain ⟨halike, c, hc, hl, hl'⟩ := h.behind
  have hshort : ((m :: ms).drop k).length < ms.length + 1 := by
    have hpos := h.pos
    rw [List.length_drop, List.length_cons]
    omega
  rw [Cursor.drop_ofMarks, Cursor.drop_ofMarks, hl, hl']
  apply hbelow hshort halike
  · exact IsReadingEnd.suffix ((m :: ms).take k) (by rwa [List.take_append_drop])
  · exact IsReadingEnd.suffix ((m :: ns).take k') (by rwa [List.take_append_drop])
  · exact .of_eq rfl _

/-- A character that both cursors pass alone. -/
theorem readAlike_one (h : Alike ms ns) (ho : head? f (.ofMarks last (m :: ms)) = none)
    (ho' : head? f (.ofMarks last' (m :: ns)) = none)
    (hone : passedLength f (.ofMarks last (m :: ms)) = 1)
    (hone' : passedLength f (.ofMarks last' (m :: ns)) = 1) :
    ReadAlike f last last' (m :: ms) (m :: ns) := by
  intro gap gap'
  rw [readFrom_passed (by simp [Cursor.ofMarks]) ho, readFrom_passed (by simp [Cursor.ofMarks]) ho',
    hone, hone', Cursor.drop_ofMarks, Cursor.drop_ofMarks]
  exact hbelow (by simp) h (IsReadingEnd.suffix [m] hms)
    (IsReadingEnd.suffix [m] hns) (.of_eq rfl _) _ _

/-- A call that looks like a declaration is passed as a whole on both sides. -/
theorem readAlike_passed (hf : f ≠ .playwright) (hm : m.kind = .code) (h : Alike ms ns)
    (hlast : last.any isWord = last'.any isWord) (ho : head? f (.ofMarks last (m :: ms)) = none)
    (ho' : head? f (.ofMarks last' (m :: ns)) = none) :
    ReadAlike f last last' (m :: ms) (m :: ns) := by
  have hlooks := looksDeclared_alike hf hm h hms hns hlast
  have hpassed := @passedLength_of_code f last m ms hm
  have hpassed' := @passedLength_of_code f last' m ns hm
  by_cases hl : looksDeclared f ⟨last, unmark (m :: ms)⟩ = true
  · rw [if_pos hl] at hpassed
    rw [if_pos (hlooks ▸ hl)] at hpassed'
    intro gap gap'
    rw [readFrom_passed (by simp [Cursor.ofMarks]) ho,
      readFrom_passed (by simp [Cursor.ofMarks]) ho', hpassed, hpassed']
    rcases call_alike hm h hms hns (startsLead_of_looksDeclared hl) with
      ⟨hc, hc'⟩ | ⟨k, k', hc, hc', hk⟩
    · -- nothing closes the call: both cursors go to the end
      rw [hc, hc', Cursor.drop_ofMarks, Cursor.drop_ofMarks, List.drop_of_length_le (by simp),
        List.drop_of_length_le (by simp)]
      exact readAlike_end f _ _ _ _
    · rw [hc, hc', Option.getD_some, Option.getD_some, Nat.max_eq_right hk.pos,
        Nat.max_eq_right hk.symm.pos]
      exact readAlike_drop hbelow hms hns hk _ _
  · rw [if_neg hl] at hpassed
    rw [if_neg (hlooks ▸ hl)] at hpassed'
    exact readAlike_one hbelow hms hns h ho ho' hpassed hpassed'

/-- A declaration is read on both sides: its body alike, and then what follows its call. -/
theorem readAlike_declared (hf : f ≠ .playwright) (hm : m.kind = .code) (h : Alike ms ns)
    (hlast : last.any isWord = last'.any isWord) {o : Opening}
    (ho : head? f (.ofMarks last (m :: ms)) = some o)
    (ho' : head? f (.ofMarks last' (m :: ns)) = some o) :
    ReadAlike f last last' (m :: ms) (m :: ns) := by
  intro gap gap'
  have hat := ho
  rw [head?_of_code hm] at hat
  obtain ⟨-, s, rest, rest', hsplit, hsplit', hl, hvisible, hrest, hread, hread'⟩ :=
    exists_head_alike hf hm h hms hns hlast hat
  have hlen : (marks s).length = o.length := by rw [length_marks, hl]
  have hlength {ms rest : List Mark} (heq : m :: ms = marks s ++ rest) :
      (m :: ms).length = o.length + (unmark rest).length := by
    rw [heq, List.length_append, hlen, length_unmark]
  have hdrop {last : Option Char} {ms rest : List Mark} (heq : m :: ms = marks s ++ rest) :
      (Cursor.ofMarks last (m :: ms)).rest.drop o.length = unmark rest := by
    show (unmark (m :: ms)).drop o.length = _
    rw [heq, hl, drop_unmark_marks]
  have hshort : rest.length < ms.length + 1 := by
    have hpos := length_pos_of_head? ho
    have hall := hlength hsplit
    rw [List.length_cons, length_unmark] at hall
    omega
  rw [readFrom_declared (by simp [Cursor.ofMarks]) ho,
    readFrom_declared (by simp [Cursor.ofMarks]) ho', hdrop hsplit, hdrop hsplit']
  rcases block_alike hrest hread hread' with
    ⟨hb, hb'⟩ | ⟨body, body', tail, tail', hb, hb', halike, hbody, hbody', hcloser⟩
  · -- nothing closes the block on either side, and nothing follows it
    rw [hb, hb']
    refine (((SameShape.gap f _ _).append (.unclosed rfl)).append
      (.declared (hbelow.body hshort hrest hread hread'))).append ?_
    change SameShape
      (readFrom f [] ((Cursor.ofMarks last (m :: ms)).drop (claimedLength (unmark (m :: ms)) o _)))
      (readFrom f [] ((Cursor.ofMarks last' (m :: ns)).drop (claimedLength (unmark (m :: ns)) o _)))
    rw [drop_unclosed rfl (hlength hsplit), drop_unclosed rfl (hlength hsplit')]
    exact readAlike_end f _ _ _ _
  · -- the same brace closes the block, so its text and the rest are alike on both sides
    rw [hb, hb']
    have hblock := hcloser.append (Alike.refl hvisible)
    rw [← hsplit, ← hsplit', hlen, ← length_unmark body, ← length_unmark body'] at hblock
    have hinner := hbelow.body (by have hle := hcloser.le; omega) halike hbody hbody'
    refine (((SameShape.gap f _ _).append (.unclosed rfl)).append (.declared hinner)).append ?_
    exact readAlike_drop hbelow hms hns (claimed_alike hm h hms hns (startsLead_of_at? hat) hblock) _ _

end Step

/-- Readings that are alike are read alike. The induction is on the length of the reading, since the
body of a suite is read on its own; a step is a comment, a declaration, a call that only looks like
one, or a single character. -/
theorem readAlike_of_alike {f : Framework} (hf : f ≠ .playwright) {ms ns : List Mark}
    (h : Alike ms ns) (hms : IsReadingEnd ms) (hns : IsReadingEnd ns) {last last' : Option Char}
    (hjoin : Joins last last' ms) : ReadAlike f last last' ms ns := by
  induction hn : ms.length using Nat.strongRecOn generalizing ms ns last last' with
  | ind n ih =>
    have hbelow : ReadAlikeBelow f n := fun ms ns last last' hlt h hms hns hjoin =>
      ih ms.length hlt h hms hns hjoin rfl
    cases h with
    | nil => exact readAlike_end f last last'
    | @comments cs ds ms ns hcs hds h =>
      intro gap gap'
      have hpos := List.length_pos_iff.2 hcs.1
      rw [List.length_append] at hn
      rw [readFrom_comments hcs.2, readFrom_comments hds.2]
      exact hbelow (by omega) h (hms.suffix cs) (hns.suffix ds)
        (joins_comments hms hns hcs hds h) _ _
    | @same m ms ns hm h =>
      rw [List.length_cons] at hn
      rw [← hn] at hbelow
      by_cases hcode : m.kind = .code
      · rcases hjoin m rfl hcode with hlast | hfeed
        · have hhead : head? f (.ofMarks last (m :: ms)) = head? f (.ofMarks last' (m :: ns)) := by
            rw [head?_of_code hcode, head?_of_code hcode, at?_alike hf hcode h hms hns hlast]
          cases ho : head? f (.ofMarks last (m :: ms)) with
          | none => exact readAlike_passed hbelow hms hns hf hcode h hlast ho (hhead ▸ ho)
          | some o => exact readAlike_declared hbelow hms hns hf hcode h hlast ho (hhead ▸ ho)
        · -- no lead begins with a line feed
          intro gap gap'
          have hblank : isBlank m.char = true := by rw [hfeed]; decide
          rw [readFrom_idle (Slot.not_startsLead_blank hblank),
            readFrom_idle (Slot.not_startsLead_blank hblank)]
          exact hbelow (by omega) h (hms.suffix [m]) (hns.suffix [m]) (.of_eq rfl _) _ _
      · exact readAlike_one hbelow hms hns h (head?_of_hidden hcode) (head?_of_hidden hcode)
          (passedLength_of_hidden hcode) (passedLength_of_hidden hcode)

/-- Comments have no influence on the tree of a source. Two texts whose bytes belong to the same and
are the same outside comments have the same tree of suites, tests and hooks, and the same blocks are
left open. -/
theorem outline_eq_of_visibleBytes {f : Framework} (hf : f = .cypress ∨ f = .testRail) {t t' : Text}
    (h : visibleBytes t = visibleBytes t') :
    (ofSource f t).outline.bare = (ofSource f t').outline.bare ∧
      (ofSource f t).unterminated = (ofSource f t').unterminated := by
  have hf : f ≠ .playwright := by rcases hf with rfl | rfl <;> decide
  have hend (t : Text) : IsReadingEnd (marks t) := ⟨t, [], rfl⟩
  have hshape : SameShape (ofSource f t) (ofSource f t') := by
    rw [ofSource_eq, ofSource_eq]
    exact readAlike_of_alike hf (alike_of_visibleBytes h) (hend t) (hend t') (.of_eq rfl _) [] []
  exact ⟨hshape.outline_eq [], hshape.unterminated⟩

/-- A suite with a test, between comments. -/
def remarked : Text :=
  "/* it */ describe('s', () => \x7b // é\nit('t', () => \x7b\x7d) /*\x7d*/ \x7d)"

/-- The same suite between comments that hold the head of a test and a bracket, one of them with more
characters in as many bytes. -/
def remarkedAnew : Text :=
  "/*it('*/ describe('s', () => \x7b //it(\nit('t', () => \x7b\x7d) /*)*/ \x7d)"

theorem outline_remarked :
    visibleBytes remarked = visibleBytes remarkedAnew ∧
      (ofSource .cypress remarked).outline.bare = (ofSource .cypress remarkedAnew).outline.bare ∧
      (ofSource .cypress remarked).unterminated = (ofSource .cypress remarkedAnew).unterminated :=
  ⟨by decide, outline_eq_of_visibleBytes (.inl rfl) (by decide)⟩

end Parlance
