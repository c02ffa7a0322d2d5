import Parlance.Proofs.Scope

/-!
Texts that stand for documents. Blanks stand for the empty document, a declaration whose parts are
complete stands for what it declares, and texts one after another stand for their documents one
after another.
-/

namespace Parlance

open Source Document

/-- A text stands for a document: where no word goes on and only blanks have been passed since the
last declaration, reading it gives the document, and behind it things stand the same way. -/
structure StandsFor (f : Framework) (t : Text) (d : Document) : Prop where
  selfContained : SelfContained t
  noSlash : t.getLast? ≠ some '/'
  reads : ∀ (gap : Text) (last : Option Char) (more : Text), gap.all isBlank = true →
    last.any isWord = false → ∃ gap' last', gap'.all isBlank = true ∧ last'.any isWord = false ∧
      readFrom f gap (.ofMarks last (marks (t ++ more))) =
        d ++ readFrom f gap' (.ofMarks last' (marks more))

namespace StandsFor

variable {f : Framework}

/-! ## 1. Blanks -/

theorem nil : StandsFor f [] {} where
  selfContained := ⟨rfl, .nil⟩
  noSlash := by simp
  reads gap last more hgap hlast := ⟨gap, last, hgap, hlast, rfl⟩

theorem append {s t : Text} {d e : Document} (hs : StandsFor f s d) (ht : StandsFor f t e) :
    StandsFor f (s ++ t) (d ++ e) where
  selfContained := hs.selfContained.append ht.selfContained (.of_last hs.noSlash)
  noSlash := by
    rw [List.getLast?_append]
    cases h : t.getLast? with
    | none => exact hs.noSlash
    | some c =>
      have hc := ht.noSlash
      rwa [h] at hc
  reads gap last more hgap hlast := by
    obtain ⟨gap₁, last₁, hgap₁, hlast₁, h₁⟩ := hs.reads gap last (t ++ more) hgap hlast
    obtain ⟨gap₂, last₂, hgap₂, hlast₂, h₂⟩ := ht.reads gap₁ last₁ more hgap₁ hlast₁
    refine ⟨gap₂, last₂, hgap₂, hlast₂, ?_⟩
    rw [List.append_assoc, h₁, h₂, append_assoc]

def isLayout (c : Char) : Bool := c = ' ' || c = '\t' || c = '\n'

theorem layout_facts {c : Char} (h : isLayout c = true) :
    isBlank c = true ∧ isPlain c = true ∧ isWord c = false ∧ isOpener c = false ∧
      isCloser c = false ∧ c ≠ '/' := by
  simp only [isLayout, Bool.or_eq_true, decide_eq_true_eq] at h
  rcases h with (rfl | rfl) | rfl <;> decide

theorem layout_one {c : Char} (h : isLayout c = true) : StandsFor f [c] {} := by
  obtain ⟨hblank, hplain, hword, hopen, hclose, hslash⟩ := layout_facts h
  have hall : [c].all isPlain = true := by
    rw [List.all_cons, hplain]
    rfl
  constructor
  · refine ⟨finalMode_plain hall, ?_⟩
    rw [marks_plain hall]
    exact .plain (by simp [Mark.opens, codeMark, hopen]) (by simp [Mark.closes, codeMark, hclose])
      .nil
  · simpa using hslash
  · intro gap last more hgap hlast
    refine ⟨c :: gap, some c, by rw [List.all_cons, hblank, hgap]; rfl, hword, ?_⟩
    have hidle : ¬Slot.StartsLead f (unmark (codeMark c :: marks more)) :=
      Slot.not_startsLead_blank hblank
    rw [marks_plain_append hall more, List.map_singleton, List.singleton_append,
      readFrom_idle hidle]
    rfl

theorem layout {t : Text} (h : t.all isLayout = true) : StandsFor f t {} := by
  induction t with
  | nil => exact nil
  | cons c t ih =>
    simp only [List.all_cons, Bool.and_eq_true] at h
    exact (layout_one h.1).append (ih h.2)

theorem ofGap_of_allBlank {gap : Text} (h : gap.all isBlank = true) : ofGap f gap = {} := by
  rw [ofGap, splitStatements_blanks h]
  rfl

/-- A text that stands for a document is read as that document. -/
theorem ofSource_eq {t : Text} {d : Document} (h : StandsFor f t d) : ofSource f t = d := by
  obtain ⟨gap, last, hgap, -, hread⟩ := h.reads [] none [] rfl rfl
  rw [List.append_nil, show marks [] = [] from rfl, readFrom_nil,
    ofGap_of_allBlank (by rwa [List.all_reverse]), append_empty] at hread
  rw [Document.ofSource_eq, hread]

/-! ## 2. Declarations -/

/-- The written head of a declaration: a lead, a parenthesis, something complete and a brace. -/
structure IsHead (f : Framework) (slot : Slot) (title s : Text) : Prop where
  heads : ∀ last rest, last.any isWord = false → Slot.Heads f slot last s rest title
  shape : ∃ lead x, s = lead ++ '(' :: (x ++ ['\x7b']) ∧ lead ≠ [] ∧
    lead.all Slot.isLeadChar = true ∧ SelfContained x

theorem nested_map_codeMark {t : Text} (h : t.all Slot.isLeadChar = true) :
    Nested (t.map codeMark) := by
  induction t with
  | nil => exact .nil
  | cons c t ih =>
    simp only [List.all_cons, Bool.and_eq_true] at h
    have hc := h.1
    simp only [Slot.isLeadChar, Bool.and_eq_true, Bool.not_eq_true'] at hc
    exact .plain (by simp [Mark.opens, codeMark, hc.1.2]) (by simp [Mark.closes, codeMark, hc.2])
      (ih h.2)

section Declaration

variable {slot : Slot} {title s lead x body : Text}

/-- How the call of a declaration is read behind its parenthesis. -/
theorem marks_call (hx : SelfContained x) (hbody : SelfContained body) (more : Text) :
    marks (x ++ '\x7b' :: (body ++ '\x7d' :: ')' :: ';' :: more)) =
      (marks x ++ codeMark '\x7b' :: (marks body ++ [codeMark '\x7d'])) ++
        codeMark ')' :: codeMark ';' :: marks more := by
  rw [hx.marks_append_cons rfl (by decide), hbody.marks_append_cons rfl (by decide),
    marks_plain_cons rfl, marks_plain_cons rfl]
  simp

theorem nested_call (hx : SelfContained x) (hbody : SelfContained body) :
    Nested (marks x ++ codeMark '\x7b' :: (marks body ++ [codeMark '\x7d'])) :=
  hx.nested.append (.bracket rfl rfl hbody.nested .nil)

theorem selfContained_declaration (hlead : lead.all Slot.isLeadChar = true)
    (hx : SelfContained x) (hbody : SelfContained body) :
    SelfContained (lead ++ '(' :: (x ++ '\x7b' :: (body ++ ['\x7d', ')', ';']))) := by
  have hplain := Text.all_mono
    (fun c hc => Slot.isPlain_of_isHeadChar c (Slot.isHeadChar_of_isLeadChar c hc)) hlead
  constructor
  · rw [finalMode_plain_append hplain, finalMode_plain_cons rfl,
      hx.finalMode_append_cons rfl (by decide), hbody.finalMode_append_cons rfl (by decide)]
    rfl
  · rw [marks_plain_append hplain, marks_plain_cons rfl, marks_call hx hbody]
    exact (nested_map_codeMark hlead).append
      (.bracket rfl rfl (nested_call hx hbody) (.plain rfl rfl .nil))

/-- The text of a declaration from its lead to its semicolon. -/
def declarationText (lead x body : Text) : Text :=
  lead ++ '(' :: (x ++ '\x7b' :: (body ++ ['\x7d', ')', ';']))

/-- The part of it that is its head. -/
def headText (lead x : Text) : Text := lead ++ '(' :: (x ++ ['\x7b'])

theorem declarationText_append (lead x body more : Text) :
    declarationText lead x body ++ more =
      headText lead x ++ (body ++ '\x7d' :: ')' :: ';' :: more) := by
  simp [declarationText, headText]

theorem getLast?_declarationText (lead x body : Text) :
    (declarationText lead x body).getLast? = some ';' := by
  have htext : declarationText lead x body =
      (lead ++ '(' :: (x ++ '\x7b' :: (body ++ ['\x7d', ')']))) ++ [';'] := by
    simp [declarationText]
  rw [htext, List.getLast?_concat]

theorem callLength?_declaration (hlead : lead.all Slot.isLeadChar = true) (hx : SelfContained x)
    (hbody : SelfContained body) (more : Text) :
    callLength? (declarationText lead x body ++ more) =
      some (declarationText lead x body).length := by
  have hne : lead.all (· ≠ '(') = true := Text.all_mono (Text.ne_of_holds (by decide)) hlead
  have htext : declarationText lead x body ++ more =
      lead ++ '(' :: (x ++ '\x7b' :: (body ++ '\x7d' :: ')' :: ';' :: more)) := by
    simp [declarationText]
  rw [htext, callLength?_eq hne (marks_call hx hbody more) (nested_call hx hbody) rfl]
  have hterm : terminatorLength (unmark (codeMark ';' :: marks more)) = 1 := by
    simp [terminatorLength, codeMark]
  rw [hterm]
  simp only [declarationText, List.length_append, List.length_cons, List.length_nil, length_marks]
  congr 1

theorem claimedLength_declaration (hlead : lead.all Slot.isLeadChar = true) (hx : SelfContained x)
    (hbody : SelfContained body) (more tail : Text) :
    claimedLength (declarationText lead x body ++ more) ⟨slot, title, (headText lead x).length⟩
      ⟨body, true, tail⟩ = (declarationText lead x body).length := by
  rw [claimedLength, callLength?_declaration hlead hx hbody]
  simp only [Block.length, Option.getD_some, declarationText, headText, List.length_append,
    List.length_cons, List.length_nil, if_true]
  omega

theorem read_declaration (hbody : SelfContained body) (lead x more : Text) :
    Block.read ((declarationText lead x body ++ more).drop (headText lead x).length) =
      ⟨body, true, ')' :: ';' :: more⟩ := by
  rw [declarationText_append, List.drop_left,
    Block.read_eq (hbody.marks_append_cons rfl (by decide) _) hbody.nested rfl, unmark_marks,
    unmark_marks]

/-- The head of a written declaration is found where it stands. -/
theorem head?_declaration {last : Option Char} {more : Text} (hne : lead ≠ [])
    (hlead : lead.all Slot.isLeadChar = true)
    (hs : Slot.Heads f slot last (headText lead x) (body ++ '\x7d' :: ')' :: ';' :: more) title) :
    head? f (.ofMarks last (marks (declarationText lead x body ++ more))) =
      some ⟨slot, title, (headText lead x).length⟩ := by
  obtain ⟨m, ms, hms, hm⟩ : ∃ m ms,
      marks (declarationText lead x body ++ more) = m :: ms ∧ m.kind = .code := by
    cases lead with
    | nil => exact absurd rfl hne
    | cons c lead =>
      simp only [List.all_cons, Bool.and_eq_true] at hlead
      have hc := Slot.isPlain_of_isHeadChar c (Slot.isHeadChar_of_isLeadChar c hlead.1)
      exact ⟨codeMark c, _, marks_plain_cons hc _, rfl⟩
  rw [hms, head?_of_code hm, ← hms, unmark_marks]
  exact Opening.at?_eq_some_iff.2 ⟨_, _, declarationText_append lead x body more, hs, rfl⟩

/-- A declaration with a complete body stands for what it declares. -/
theorem declaration (hs : IsHead f slot title s) (hbody : SelfContained body) :
    StandsFor f (s ++ (body ++ ['\x7d', ')', ';']))
      (declared f ⟨slot, title, s.length⟩ ⟨body, true, []⟩) := by
  obtain ⟨hheads, lead, x, rfl, hne, hlead, hx⟩ := hs
  have htext : lead ++ '(' :: (x ++ ['\x7b']) ++ (body ++ ['\x7d', ')', ';']) =
      declarationText lead x body := by simp [declarationText]
  have hself : SelfContained (declarationText lead x body) :=
    selfContained_declaration hlead hx hbody
  have hlast := getLast?_declarationText lead x body
  have hnoSlash : (declarationText lead x body).getLast? ≠ some '/' := by
    rw [hlast]
    decide
  rw [htext]
  refine ⟨hself, hnoSlash, fun gap last more hgap hword => ⟨[], some ';', rfl, rfl, ?_⟩⟩
  have hrest : (Cursor.ofMarks last (marks (declarationText lead x body ++ more))).rest =
      declarationText lead x body ++ more := unmark_marks _
  have hhead := head?_declaration hne hlead
    (hheads last (body ++ '\x7d' :: ')' :: ';' :: more) hword)
  -- the call claims the whole text, so that reading goes on right behind its semicolon
  rw [readFrom_declared (by rw [hrest]; simp [declarationText]) hhead, hrest,
    read_declaration hbody, claimedLength_declaration hlead hx hbody, Cursor.drop_ofMarks,
    Source.marks_append hself.mode (.of_last hnoSlash),
    ← length_marks (declarationText lead x body), List.take_left, List.drop_left, unmark_marks,
    hlast, ofGap_of_allBlank (by rwa [List.all_reverse])]
  rfl

end Declaration

end StandsFor

/-! ## 3. Texts that declare nothing -/

namespace Slot

/-- Whether a text disagrees with a lead, its blanks and its parenthesis, whatever follows the
text. -/
def clashes : (lead t : Text) → Bool
  | _, [] => false
  | c :: lead, d :: t => c ≠ d || clashes lead t
  | [], d :: t => if isBlank d then clashes [] t else d ≠ '('

theorem ne_of_clashes {lead u : Text} (h : clashes lead u = true) {b : Text}
    (hb : b.all isBlank = true) (t x : Text) : u ++ t ≠ lead ++ (b ++ '(' :: x) := by
  intro he
  fun_induction clashes lead u generalizing b with
  | case1 => exact absurd h (by decide)
  | case2 c lead d u ih =>
    obtain ⟨rfl, htail⟩ := List.cons.inj he
    simp only [ne_eq, not_true_eq_false, decide_false, Bool.false_or] at h
    -- they agree here, so they differ further on
    exact ih h hb htail
  | case3 d u hd ih =>
    cases b with
    | nil =>
      obtain ⟨rfl, -⟩ := List.cons.inj he
      exact absurd hd (by decide)
    | cons e b =>
      simp only [List.all_cons, Bool.and_eq_true] at hb
      exact ih h hb.2 (List.cons.inj he).2
  | case4 d u hd =>
    cases b with
    | nil =>
      obtain ⟨rfl, -⟩ := List.cons.inj he
      exact absurd h (by decide)
    | cons e b =>
      simp only [List.all_cons, Bool.and_eq_true] at hb
      obtain ⟨rfl, -⟩ := List.cons.inj he
      exact hd hb.1

/-- All leads of a vocabulary. -/
def allLeads (f : Framework) : List Text := declarations.flatMap (leads f) ++ candidateLeads f

/-- Whether no lead begins anywhere in a text, whatever follows the text. -/
def avoidsLeads (f : Framework) : Text → Bool
  | [] => true
  | c :: t => (allLeads f).all (clashes · (c :: t)) && avoidsLeads f t

theorem not_startsLead_of_avoidsLeads {f : Framework} {c : Char} {u : Text}
    (h : avoidsLeads f (c :: u) = true) (t : Text) : ¬StartsLead f (c :: u ++ t) := by
  rintro ⟨w, b, x, ht, hb, hw⟩
  simp only [avoidsLeads, Bool.and_eq_true, List.all_eq_true] at h
  refine ne_of_clashes (h.1 w ?_) hb t x ht
  rw [allLeads, List.mem_append, List.mem_flatMap]
  exact hw

end Slot

/-- A text without leads goes into the gap as a whole. -/
theorem readFrom_avoids {f : Framework} {gap : Text} {ms ns : List Mark} {last : Option Char}
    (h : Slot.avoidsLeads f (unmark ms) = true) :
    readFrom f gap (.ofMarks last (ms ++ ns)) =
      readFrom f ((unmark ms).reverse ++ gap) (.ofMarks ((unmark ms).getLast?.or last) ns) := by
  induction ms generalizing gap last with
  | nil => rfl
  | cons m ms ih =>
    have hidle : ¬Slot.StartsLead f (unmark (m :: (ms ++ ns))) := by
      have hn := Slot.not_startsLead_of_avoidsLeads h (unmark ns)
      rw [unmark_cons, unmark_append]
      exact hn
    rw [unmark_cons, Slot.avoidsLeads, Bool.and_eq_true] at h
    rw [List.cons_append, readFrom_idle hidle, ih h.2, unmark_cons, List.reverse_cons,
      List.append_assoc, List.singleton_append,
      show m.char :: unmark ms = [m.char] ++ unmark ms from rfl, ← Option.or_or_last]
    rfl

/-- A first line that declares nothing and keeps nothing is no part of the tree. -/
theorem ofSource_header {f : Framework} {line t : Text} {d : Document}
    (hmode : finalMode (line ++ ['\n']) = .code)
    (havoids : Slot.avoidsLeads f (line ++ ['\n']) = true)
    (hgap : ∀ t, ofGap f (line ++ '\n' :: t) = ofGap f t) (ht : StandsFor f t d) :
    ofSource f (line ++ '\n' :: t) = d := by
  have hmarks : marks (line ++ '\n' :: t) = marks (line ++ ['\n']) ++ marks t := by
    rw [show line ++ '\n' :: t = (line ++ ['\n']) ++ t by simp, marks_append hmode (.of_last ?_)]
    rw [List.getLast?_concat]
    decide
  have hbefore (t : Text) :
      ofGap f (line ++ ['\n'] ++ t) = ofGap f (line ++ ['\n']) ++ ofGap f t := by
    rw [List.append_assoc, List.singleton_append, hgap, hgap []]
    rfl
  have hlast : ((line ++ ['\n']).getLast?.or none).any isWord = (none : Option Char).any isWord := by
    rw [List.getLast?_concat]
    decide
  -- all of the line is in the gap when the text behind it is read
  rw [Document.ofSource_eq, hmarks, readFrom_avoids (by rwa [unmark_marks]), unmark_marks,
    List.append_nil, ← List.nil_append (line ++ ['\n']).reverse, readFrom_gap hbefore, hgap [],
    readFrom_congr_last hlast, ← Document.ofSource_eq, ht.ofSource_eq]
  rfl

end Parlance
