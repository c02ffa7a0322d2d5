import Parlance.Conversion
import Parlance.Proofs.Announcement
import Parlance.Proofs.RoundTrip

/-!
What the tree of a source does not keep of a declaration: the modifier of its name, and whatever
stands in its call behind the callback. Two sources that differ in such parts only have the same tree,
so they are written alike, and only the table of words that call for an advisory can tell them apart.
-/

namespace Parlance

open Source Document

/-! ## 1. Cursors -/

namespace Cursor

theorem drop_drop (last : Option Char) (ms : List Mark) (i j : Nat) :
    ((ofMarks last ms).drop i).drop j = (ofMarks last ms).drop (i + j) := by
  rw [drop_ofMarks, drop_ofMarks, drop_ofMarks, List.drop_drop, List.take_add, unmark_append,
    Option.or_or_last]

theorem drop_length (last : Option Char) (front ms : List Mark) :
    (ofMarks last (front ++ ms)).drop front.length =
      ofMarks ((unmark front).getLast?.or last) ms := by
  rw [drop_ofMarks, List.take_left, List.drop_left]

/-- Behind at least one further character it does not matter what stood before. -/
theorem drop_append {last last' : Option Char} {front ms : List Mark} {k : Nat} (hk : 1 ≤ k)
    (hms : ms ≠ []) :
    (ofMarks last (front ++ ms)).drop (front.length + k) = (ofMarks last' ms).drop k := by
  have hsome : ∃ c, (unmark (ms.take k)).getLast? = some c := by
    have hne : unmark (ms.take k) ≠ [] := by
      rw [unmark_take, ne_eq, List.take_eq_nil_iff]
      simp only [unmark, List.map_eq_nil_iff, not_or]
      exact ⟨by omega, hms⟩
    exact ⟨_, List.getLast?_eq_some_getLast hne⟩
  obtain ⟨c, hc⟩ := hsome
  rw [← drop_drop, drop_length, drop_ofMarks, drop_ofMarks, hc]
  rfl

end Cursor

/-! ## 2. A declaration at the beginning of a text -/

section Lead

variable {f : Framework} {slot : Slot} {title lead b x rest : Text}

theorem head?_lead (hs : Slot.Heads f slot none (lead ++ (b ++ '(' :: x)) rest title)
    (hlead : lead.all isPlain = true) (hne : lead ≠ []) :
    head? f (.ofMarks none (marks (lead ++ (b ++ '(' :: (x ++ rest))))) =
      some ⟨slot, title, lead.length + (b.length + (x.length + 1))⟩ := by
  have hat : Opening.at? f ⟨none, lead ++ (b ++ '(' :: (x ++ rest))⟩ =
      some ⟨slot, title, lead.length + (b.length + (x.length + 1))⟩ :=
    Opening.at?_eq_some_iff.2 ⟨_, rest, by simp, hs, by simp⟩
  cases lead with
  | nil => exact absurd rfl hne
  | cons c lead =>
    rw [List.all_cons, Bool.and_eq_true] at hlead
    rw [List.cons_append, marks_plain_cons hlead.1, head?_of_code rfl, unmark_cons, unmark_marks]
    exact hat

/-- The lead of a declaration adds its length to where the declaration ends. -/
theorem claimedLength_lead (hlead : lead.all (· ≠ '(') = true) (hb : b.all isBlank = true)
    (call : Text) (o : Opening) {n : Nat} (hn : 1 ≤ n) (ho : o.length = lead.length + n)
    (block : Block) :
    claimedLength (lead ++ (b ++ '(' :: call)) o block =
      lead.length + max (n + block.length) ((callLength? (b ++ '(' :: call)).getD 0) := by
  have hne : b.all (· ≠ '(') = true := Text.all_mono (Text.ne_of_holds (by decide)) hb
  have hboth : (lead ++ b).all (· ≠ '(') = true := by
    rw [List.all_append, hlead, hne]
    rfl
  rw [claimedLength, ← List.append_assoc, callLength?_lead call hboth, callLength?_lead call hne,
    ho]
  cases splitClose 1 (marks call) with
  | none => simp; omega
  | some cut => simp; omega

/-- What a text is read as that begins with a declaration. The lead of the declaration counts no
more once its slot is known. -/
theorem ofSource_lead (hs : Slot.Heads f slot none (lead ++ (b ++ '(' :: x)) rest title)
    (hlead : lead.all Slot.isLeadChar = true) (hne : lead ≠ []) (hb : b.all isBlank = true) :
    ofSource f (lead ++ (b ++ '(' :: (x ++ rest))) =
      ofUnclosed ⟨slot, title, 0⟩ (Block.read rest) ++
        declared f ⟨slot, title, 0⟩ (Block.read rest) ++
        readFrom f [] ((Cursor.ofMarks none (marks (b ++ '(' :: (x ++ rest)))).drop
          (max (b.length + (x.length + 1) + (Block.read rest).length)
            ((callLength? (b ++ '(' :: (x ++ rest))).getD 0))) := by
  have hplain := Text.all_mono
    (fun c hc => Slot.isPlain_of_isHeadChar c (Slot.isHeadChar_of_isLeadChar c hc)) hlead
  have hparen : lead.all (· ≠ '(') = true := Text.all_mono (Text.ne_of_holds (by decide)) hlead
  have hrest : (Cursor.ofMarks none (marks (lead ++ (b ++ '(' :: (x ++ rest))))).rest =
      lead ++ (b ++ '(' :: (x ++ rest)) := unmark_marks _
  -- what stands behind the head is its block
  have hdrop : (lead ++ (b ++ '(' :: (x ++ rest))).drop
      (lead.length + (b.length + (x.length + 1))) = rest := by
    rw [show lead ++ (b ++ '(' :: (x ++ rest)) = (lead ++ (b ++ '(' :: x)) ++ rest by simp,
      show lead.length + (b.length + (x.length + 1)) = (lead ++ (b ++ '(' :: x)).length by simp,
      List.drop_left]
  have hcall : marks (b ++ '(' :: (x ++ rest)) ≠ [] := by
    intro h
    have hl := length_marks (b ++ '(' :: (x ++ rest))
    rw [h] at hl
    simp at hl
  have hlen : lead.length = (lead.map codeMark).length := (List.length_map _).symm
  rw [ofSource_eq, readFrom_declared (by rw [hrest]; simp) (head?_lead hs hplain hne), hrest, hdrop,
    claimedLength_lead hparen hb _ _ (by omega) rfl, marks_plain_append hplain, hlen,
    Cursor.drop_append (by omega) hcall]
  rfl

end Lead

/-! ## 3. A declaration whose parts are complete -/

/-- The parts of a head: its lead, the blanks behind it and what stands between the parenthesis and
the brace, which is complete. -/
structure OpensCall (f : Framework) (slot : Slot) (title lead b x : Text) : Prop where
  heads : ∀ rest, Slot.Heads f slot none (lead ++ (b ++ '(' :: (x ++ ['\x7b']))) rest title
  lead : lead ∈ Slot.leads f slot
  blank : b.all isBlank = true
  complete : SelfContained x

/-- A call up to its closing parenthesis: the callback with its body, and what stands behind the
callback. -/
def callText (lead b x body extra : Text) : Text :=
  lead ++ (b ++ '(' :: (x ++ '\x7b' :: (body ++ '\x7d' :: (extra ++ [')']))))

section Call

variable {f : Framework} {slot : Slot} {title lead b x body extra : Text}

theorem marks_callback (hx : SelfContained x) (hbody : SelfContained body)
    (hextra : SelfContained extra) (more : Text) :
    marks (x ++ '\x7b' :: (body ++ '\x7d' :: (extra ++ ')' :: more))) =
      (marks x ++ codeMark '\x7b' :: (marks body ++ codeMark '\x7d' :: marks extra)) ++
        codeMark ')' :: marks more := by
  rw [hx.marks_append_cons rfl (by decide), hbody.marks_append_cons rfl (by decide),
    hextra.marks_append_cons rfl (by decide)]
  simp

/-- The number of characters of a complete call behind its lead. -/
def callSpan (b x body extra : Text) : Nat :=
  b.length + (x.length + 1 + (body.length + 1 + extra.length)) + 2

theorem callLength?_call (hb : b.all isBlank = true) (hx : SelfContained x)
    (hbody : SelfContained body) (hextra : SelfContained extra) (more : Text) :
    callLength? (b ++ '(' :: (x ++ '\x7b' :: (body ++ '\x7d' :: (extra ++ ')' :: more)))) =
      some (callSpan b x body extra + terminatorLength more) := by
  have hnested : Nested (marks x ++ codeMark '\x7b' :: (marks body ++ codeMark '\x7d' :: marks extra)) :=
    hx.nested.append (.bracket rfl rfl hbody.nested hextra.nested)
  rw [callLength?_eq (Text.all_mono (Text.ne_of_holds (by decide)) hb)
    (marks_callback hx hbody hextra more) hnested rfl, unmark_marks]
  simp only [callSpan, List.length_append, List.length_cons, length_marks]
  congr 2
  omega

theorem drop_call (hb : b.all isBlank = true) (hx : SelfContained x) (hbody : SelfContained body)
    (hextra : SelfContained extra) (more : Text) (n : Nat) :
    (Cursor.ofMarks none
      (marks (b ++ '(' :: (x ++ '\x7b' :: (body ++ '\x7d' :: (extra ++ ')' :: more)))))).drop
        (callSpan b x body extra + n) =
      (Cursor.ofMarks (some ')') (marks more)).drop n := by
  have hmarks := marks_callback hx hbody hextra more
  have hspan : callSpan b x body extra = (b.map codeMark ++ codeMark '(' :: (marks x ++
      codeMark '\x7b' :: (marks body ++ codeMark '\x7d' :: marks extra)) ++ [codeMark ')']).length := by
    simp only [callSpan, List.length_append, List.length_cons, List.length_map, length_marks,
      List.length_nil]
    omega
  generalize marks x ++ codeMark '\x7b' :: (marks body ++ codeMark '\x7d' :: marks extra) = inner
    at hmarks hspan
  have hcall : marks (b ++ '(' :: (x ++ '\x7b' :: (body ++ '\x7d' :: (extra ++ ')' :: more)))) =
      b.map codeMark ++ codeMark '(' :: inner ++ [codeMark ')'] ++ marks more := by
    rw [marks_plain_append (Text.all_mono isPlain_of_isBlank hb), marks_plain_cons rfl, hmarks]
    simp
  rw [hcall, hspan, ← Cursor.drop_drop, Cursor.drop_length, unmark_append, unmark_cons, unmark_nil,
    List.getLast?_concat]
  rfl

/-- A complete call is read as what it declares and then what follows it; what stands behind the
callback is not seen. -/
theorem ofSource_call (hs : OpensCall f slot title lead b x) (hbody : SelfContained body)
    (hextra : SelfContained extra) (more : Text) :
    ofSource f (callText lead b x body extra ++ more) =
      declared f ⟨slot, title, 0⟩ ⟨body, true, []⟩ ++
        readFrom f [] ((Cursor.ofMarks (some ')') (marks more)).drop (terminatorLength more)) := by
  obtain ⟨hne, hchars⟩ := Slot.all_leadChar (hs.heads []).declared lead hs.lead
  have htext : callText lead b x body extra ++ more =
      lead ++ (b ++ '(' :: ((x ++ ['\x7b']) ++ (body ++ '\x7d' :: (extra ++ ')' :: more)))) := by
    simp [callText]
  have hassoc : (x ++ ['\x7b']) ++ (body ++ '\x7d' :: (extra ++ ')' :: more)) =
      x ++ '\x7b' :: (body ++ '\x7d' :: (extra ++ ')' :: more)) := by simp
  have hblock : Block.read (body ++ '\x7d' :: (extra ++ ')' :: more)) =
      ⟨body, true, extra ++ ')' :: more⟩ := by
    rw [Block.read_eq (hbody.marks_append_cons rfl (by decide) _) hbody.nested rfl, unmark_marks,
      unmark_marks]
  -- the call ends behind its block, so the call decides where reading goes on
  have hmax : max (b.length + ((x ++ ['\x7b']).length + 1) +
      Block.length ⟨body, true, extra ++ ')' :: more⟩)
      (callSpan b x body extra + terminatorLength more) =
      callSpan b x body extra + terminatorLength more := by
    simp only [callSpan, Block.length, List.length_append, List.length_cons, List.length_nil,
      if_true]
    omega
  rw [htext, ofSource_lead (by simpa using hs.heads _) hchars hne hs.blank, hblock, hassoc,
    callLength?_call hs.blank hs.complete hbody hextra, Option.getD_some, hmax,
    drop_call hs.blank hs.complete hbody hextra]
  rfl

end Call

/-! ## 4. What can stand before a declaration -/

/-- A text before a declaration that has nothing to do with it: a blank, a complete call with its
semicolon, or, where heads have no fixtures, any piece. -/
inductive Ahead (f : Framework) : Text → Prop
  | blank {c : Char} (hc : isBlank c = true) : Ahead f [c]
  | call {slot : Slot} {title lead b x body extra : Text} (hs : OpensCall f slot title lead b x)
      (hbody : SelfContained body) (hextra : SelfContained extra) :
      Ahead f (callText lead b x body extra ++ [';'])
  | piece {a : Text} (hf : f ≠ .playwright) (ha : IsPiece a) : Ahead f (a ++ ['\n'])

namespace Ahead

variable {f : Framework} {a : Text}

/-- A word can begin behind it. -/
theorem fresh (h : Ahead f a) (before : Text) : (before ++ a).getLast?.any isWord = false := by
  have hlast (c : Char) (front : Text) (hc : isWord c = false) :
      (before ++ (front ++ [c])).getLast?.any isWord = false := by
    rw [← List.append_assoc, List.getLast?_concat]
    exact hc
  cases h with
  | @blank c hc => exact hlast c [] (isWord_of_isBlank hc)
  | call => exact hlast ';' _ (by decide)
  | piece => exact hlast '\n' _ (by decide)

/-- What follows it is read on its own. -/
theorem exists_document (h : Ahead f a) : ∃ d, ∀ t, ofSource f (a ++ t) = d ++ ofSource f t := by
  have hstart {c : Char} (hc : isWord c = false) (t : Text) :
      readFrom f [] (.ofMarks (some c) (marks t)) = ofSource f t := by
    rw [ofSource_eq]
    exact readFrom_congr_last hc
  cases h with
  | @blank c hc =>
    -- the blank goes into the gap, where it is no part of any statement
    have hgap (t : Text) : ofGap f ([c] ++ t) = ofGap f [c] ++ ofGap f t := by
      apply ofGap_eq_append
      show splitStatements (c :: t) = splitStatements [c] ++ splitStatements t
      rw [splitStatements_blank_cons hc, splitStatements_blank_cons hc]
      rfl
    refine ⟨ofGap f [c], fun t => ?_⟩
    rw [ofSource_eq, List.singleton_append, marks_plain_cons (isPlain_of_isBlank c hc),
      readFrom_idle (Slot.not_startsLead_blank hc), ← hstart (isWord_of_isBlank hc)]
    exact @readFrom_gap f [c] [] _ hgap
  | @call slot title lead b x body extra hs hbody hextra =>
    refine ⟨declared f ⟨slot, title, 0⟩ ⟨body, true, []⟩, fun t => ?_⟩
    have hterm : terminatorLength (';' :: t) = 1 := by simp [terminatorLength]
    rw [List.append_assoc, List.singleton_append, ofSource_call hs hbody hextra, hterm,
      marks_plain_cons rfl, Cursor.drop_ofMarks, ← hstart (by decide : isWord ';' = false)]
    rfl
  | @piece a hf ha =>
    refine ⟨readFrom f [] (.ofMarks none (marks a)), fun t => ?_⟩
    have hread : read .code (unmark ([] ++ marks a)) = ([] ++ marks a, .code) := by
      rw [List.nil_append, unmark_marks]
      exact Prod.ext rfl ha.selfContained.mode
    rw [List.append_assoc, List.singleton_append, ofSource_eq, ha.marks_append]
    exact @readsOn_piece f a t hf ha [] [] (marks a) rfl hread none

end Ahead

/-! ## 5. The words that call for an advisory -/

namespace Text

/-- No part of a word stands before the meeting place of two texts while the rest of it stands
behind. -/
def NoneAcross (w u v : Text) : Prop :=
  ∀ w₁ w₂, w = w₁ ++ w₂ → w₁ ≠ [] → w₂ ≠ [] → w₁ <:+ u → ¬w₂ <+: v

theorem holds_append {w u v : Text} (hw : w ≠ []) (h : NoneAcross w u v) :
    holds w (u ++ v) = (holds w u || holds w v) := by
  induction u with
  | nil =>
    have hnil : holds w [] = false := by
      rw [holds, List.isEmpty_eq_false_iff]
      exact hw
    rw [hnil]
    rfl
  | cons c u ih =>
    have hstart : startsWith (c :: u ++ v) w = startsWith (c :: u) w := by
      rw [Bool.eq_iff_iff, startsWith, startsWith, List.isPrefixOf_iff_prefix,
        List.isPrefixOf_iff_prefix]
      constructor
      · intro hp
        rcases List.prefix_or_prefix_of_prefix hp (List.prefix_append _ v) with hin | ⟨w₂, hw₂⟩
        · exact hin
        · -- the word begins with all of the first text, so it ends there too
          subst hw₂
          by_cases hne : w₂ = []
          · simp [hne]
          · have hv := (List.prefix_append_right_inj _).1 hp
            exact absurd hv (h _ _ rfl (by simp) hne (List.suffix_refl _))
      · intro hp
        exact hp.trans (List.prefix_append _ v)
    have htail : NoneAcross w u v := fun w₁ w₂ hs h₁ h₂ hu =>
      h w₁ w₂ hs h₁ h₂ (hu.trans (List.suffix_cons c u))
    show (startsWith (c :: u ++ v) w || holds w (u ++ v)) =
      ((startsWith (c :: u) w || holds w u) || holds w v)
    rw [hstart, ih htail, Bool.or_assoc]

/-- A character that a word does not have keeps what stands on its sides apart. -/
theorem holds_append_cons {w : Text} (hw : w ≠ []) {c : Char} (hc : c ∉ w) (u v : Text) :
    holds w (u ++ c :: v) = (holds w u || holds w v) := by
  have hbefore : NoneAcross w u (c :: v) := by
    intro w₁ w₂ hs _ h₂ _ hp
    cases w₂ with
    | nil => exact h₂ rfl
    | cons d w₂ =>
      obtain ⟨rfl, -⟩ := List.cons_prefix_cons.1 hp
      exact hc (by rw [hs]; simp)
  have hself : startsWith (c :: v) w = false := by
    rw [Bool.eq_false_iff, startsWith, ne_eq, List.isPrefixOf_iff_prefix]
    intro hp
    cases w with
    | nil => exact hw rfl
    | cons d w =>
      obtain ⟨rfl, -⟩ := List.cons_prefix_cons.1 hp
      exact hc (by simp)
  rw [holds_append hw hbefore, holds, hself, Bool.false_or]

end Text

namespace Advisory

/-- Whether no word that calls for an advisory can share characters with a lead that begins a word
and has its parenthesis behind it: the word is not in the lead, no end of it that follows something
else than a word begins like the lead, and no beginning of it that a blank or a parenthesis follows
ends the lead. -/
def isolates (lead w : Text) : Bool :=
  !Text.holds w lead && (List.range (w.length - 1)).all fun i =>
    ((w.take (i + 1)).getLast?.any isWord ||
      !((w.drop (i + 1)).isPrefixOf lead || lead.isPrefixOf (w.drop (i + 1)))) &&
    (!(w.take (i + 1)).isSuffixOf lead ||
      !(w.drop (i + 1)).head?.any fun c => isBlank c || c = '(')

/-- What a table looks for: no closing bracket, and nothing that shares characters with a lead. -/
theorem trigger_facts {source target : Framework} :
    ∀ a ∈ table source target, ∀ w ∈ a.triggers, w ≠ [] ∧ '\x7d' ∉ w ∧ ')' ∉ w ∧
      ∀ slot ∈ Slot.declarations, ∀ lead ∈ Slot.leads source slot, isolates lead w = true := by
  cases source <;> cases target <;> decide +kernel

theorem messages_modifier {source target : Framework} :
    ∀ slot ∈ Slot.declarations, ∀ modifier ∈ (Slot.announced source slot).2,
      messages source target modifier = [] := by
  cases source <;> cases target <;> decide +kernel

theorem isolates_cut {lead w₁ w₂ : Text} (h : isolates lead (w₁ ++ w₂) = true) (h₁ : w₁ ≠ [])
    (h₂ : w₂ ≠ []) :
    (w₁.getLast?.any isWord = true ∨ ¬(w₂ <+: lead ∨ lead <+: w₂)) ∧
      (¬w₁ <:+ lead ∨ (w₂.head?.any fun c => isBlank c || c = '(') = false) := by
  have hpos₁ := List.length_pos_iff.2 h₁
  have hpos₂ := List.length_pos_iff.2 h₂
  simp only [isolates, Bool.and_eq_true, List.all_eq_true, List.mem_range, List.length_append] at h
  have hcut := h.2 (w₁.length - 1) (by omega)
  rw [Nat.sub_add_cancel hpos₁, List.take_left, List.drop_left] at hcut
  simpa only [Bool.and_eq_true, Bool.or_eq_true, Bool.not_eq_true', ← Bool.not_eq_true,
    List.isPrefixOf_iff_prefix, List.isSuffixOf_iff_suffix] using hcut

/-- A lead takes no part in the words that call for an advisory. -/
theorem holds_lead {w lead u b y : Text} (hw : w ≠ []) (h : isolates lead w = true)
    (hu : u.getLast?.any isWord = false) (hb : b.all isBlank = true) :
    Text.holds w (u ++ (lead ++ (b ++ '(' :: y))) =
      (Text.holds w u || Text.holds w (b ++ '(' :: y)) := by
  have hlead : Text.holds w lead = false := by
    rw [isolates, Bool.and_eq_true, Bool.not_eq_true'] at h
    exact h.1
  have hfirst : (b ++ '(' :: y).head?.any (fun c => isBlank c || c = '(') = true := by
    cases b with
    | nil => simp
    | cons c b =>
      rw [List.all_cons, Bool.and_eq_true] at hb
      simp [hb.1]
  have hbefore : Text.NoneAcross w u (lead ++ (b ++ '(' :: y)) := by
    intro w₁ w₂ hs h₁ h₂ hsuffix hp
    subst hs
    rcases (isolates_cut h h₁ h₂).1 with hword | hno
    · -- the lead begins a word, so no word goes on in it
      obtain ⟨front, rfl⟩ := hsuffix
      rw [List.getLast?_append, List.getLast?_eq_some_getLast h₁] at hu
      rw [List.getLast?_eq_some_getLast h₁] at hword
      exact Bool.eq_false_iff.1 hu hword
    · exact hno (List.prefix_or_prefix_of_prefix hp (List.prefix_append lead _))
  -- nor does one begin in the lead and go on in the blanks or at the parenthesis
  have hbehind : Text.NoneAcross w lead (b ++ '(' :: y) := by
    intro w₁ w₂ hs h₁ h₂ hsuffix hp
    subst hs
    rcases (isolates_cut h h₁ h₂).2 with hno | hno
    · exact hno hsuffix
    · obtain ⟨more, hmore⟩ := hp
      rw [← hmore, List.head?_append, List.head?_eq_some_head h₂] at hfirst
      rw [List.head?_eq_some_head h₂] at hno
      exact Bool.eq_false_iff.1 hno hfirst
  rw [Text.holds_append hw hbefore, Text.holds_append hw hbehind, hlead, Bool.false_or]

end Advisory

/-! ## 6. Sources without a part of a declaration -/

theorem isEmpty_append_list {α : Type} (l m : List α) :
    (l ++ m).isEmpty = (l.isEmpty && m.isEmpty) := by
  cases l <;> rfl

theorem Hooks.isEmpty_append (h g : Hooks) : (h ++ g).isEmpty = (h.isEmpty && g.isEmpty) := by
  have hget (kind : HookKind) : (h ++ g).get kind = h.get kind ++ g.get kind := by
    cases kind <;> rfl
  simp only [Hooks.isEmpty, HookKind.all, List.all_cons, List.all_nil, hget, isEmpty_append_list,
    Bool.and_true]
  ac_rfl

theorem Document.isEmpty_append (d e : Document) : (d ++ e).isEmpty = (d.isEmpty && e.isEmpty) := by
  show ((d.suites ++ e.suites).isEmpty && (d.tests ++ e.tests).isEmpty &&
    (d.hooks ++ e.hooks).isEmpty) = _
  rw [isEmpty_append_list, isEmpty_append_list, Hooks.isEmpty_append, isEmpty, isEmpty]
  ac_rfl

theorem Document.isEmpty_declared {f : Framework} {slot : Slot}
    (hd : slot ∈ Slot.declarations) (title : Text)
    (block : Block) : (declared f ⟨slot, title, 0⟩ block).isEmpty = false := by
  cases slot with
  | suite | test => rfl
  | hook kind => cases kind <;> rfl
  | step | assertion | command | preamble | candidate => exact absurd hd (by decide)

/-- The second text is the first one without `part`, which is the modifier of a declaration or stands
in its call behind the callback. The declaration can stand behind other ones and in suites. -/
inductive Sheds (f : Framework) : (part t t' : Text) → Prop
  | modifier {o : Opening} {name modifier b y : Text} (hname : name ∈ (Slot.announced f o.slot).1)
      (hmodifier : modifier ∈ (Slot.announced f o.slot).2) (hb : b.all isBlank = true)
      (ho : Opening.at? f ⟨none, name ++ modifier ++ (b ++ '(' :: y)⟩ = some o) :
      Sheds f modifier (name ++ modifier ++ (b ++ '(' :: y)) (name ++ (b ++ '(' :: y))
  | arguments {slot : Slot} {title lead b x body extra : Text}
      (hs : OpensCall f slot title lead b x) (hbody : SelfContained body)
      (hextra : SelfContained extra) (more : Text) :
      Sheds f extra (callText lead b x body extra ++ more) (callText lead b x body [] ++ more)
  | inside {title lead b x extra part inner inner' : Text}
      (hs : OpensCall f .suite title lead b x) (h : Sheds f part inner inner')
      (hinner : SelfContained inner) (hinner' : SelfContained inner')
      (hextra : SelfContained extra) (more : Text) :
      Sheds f part (callText lead b x inner extra ++ more) (callText lead b x inner' extra ++ more)
  | behind {a part t t' : Text} (ha : Ahead f a) (h : Sheds f part t t') :
      Sheds f part (a ++ t) (a ++ t')

namespace Sheds

variable {f : Framework} {part t t' : Text}

theorem heads_modifier {o : Opening} {name modifier b y : Text}
    (hname : name ∈ (Slot.announced f o.slot).1)
    (hmodifier : modifier ∈ (Slot.announced f o.slot).2) (hb : b.all isBlank = true)
    (ho : Opening.at? f ⟨none, name ++ modifier ++ (b ++ '(' :: y)⟩ = some o) :
    name ∈ Slot.leads f o.slot ∧ name ++ modifier ∈ Slot.leads f o.slot ∧ ∃ x rest, y = x ++ rest ∧
      ∀ lead ∈ Slot.leads f o.slot,
        Slot.Heads f o.slot none (lead ++ (b ++ '(' :: x)) rest o.title := by
  have hlead : name ∈ Slot.leads f o.slot := Slot.mem_headTexts.2 ⟨name, hname, .inl rfl⟩
  have hlead' : name ++ modifier ∈ Slot.leads f o.slot :=
    Slot.mem_headTexts.2 ⟨name, hname, .inr ⟨modifier, hmodifier, rfl⟩⟩
  obtain ⟨s, rest, ht, ⟨hd, hfresh, w, b', x, rfl, hw, hb', hx⟩, -⟩ := Opening.at?_eq_some_iff.1 ho
  rw [show w ++ (b' ++ '(' :: x) ++ rest = w ++ (b' ++ '(' :: (x ++ rest)) by simp] at ht
  obtain ⟨-, rfl, rfl⟩ := Slot.lead_unique ht (Slot.all_leadChar hd _ hlead').2
    (Slot.all_leadChar hd w hw).2 hb hb'
  -- only the lead differs, and any other one of the slot fits as well
  exact ⟨hlead, hlead', x, rest, rfl, fun lead hlead =>
    ⟨hd, hfresh, lead, b, x, rfl, hlead, hb, hx⟩⟩

/-- Neither the modifier nor what stands behind the callback is in the tree. -/
theorem ofSource_eq (h : Sheds f part t t') :
    ofSource f t = ofSource f t' ∧ (ofSource f t).isEmpty = false := by
  induction h with
  | @modifier o name modifier b y hname hmodifier hb ho =>
    obtain ⟨hlead, hlead', x, rest, rfl, hheads⟩ := heads_modifier hname hmodifier hb ho
    have hd := (hheads name hlead).declared
    have hread (lead : Text) (hlead : lead ∈ Slot.leads f o.slot) := by
      have hchars := Slot.all_leadChar hd lead hlead
      exact ofSource_lead (hheads lead hlead) hchars.2 hchars.1 hb
    rw [hread _ hlead', hread _ hlead]
    refine ⟨rfl, ?_⟩
    rw [isEmpty_append, isEmpty_append, isEmpty_declared hd, Bool.and_false, Bool.false_and]
  | arguments hs hbody hextra more =>
    rw [ofSource_call hs hbody hextra, ofSource_call hs hbody (by decide)]
    refine ⟨rfl, ?_⟩
    rw [isEmpty_append, isEmpty_declared (hs.heads []).declared, Bool.false_and]
  | inside hs _ hinner hinner' hextra more ih =>
    rw [ofSource_call hs hinner hextra, ofSource_call hs hinner' hextra]
    constructor
    · -- a suite keeps of its body what the body is read as
      rw [declared, declared]
      simp only [ih.1]
    · rw [isEmpty_append, isEmpty_declared (hs.heads []).declared, Bool.false_and]
  | behind ha _ ih =>
    obtain ⟨d, hd⟩ := ha.exists_document
    rw [hd, hd, ← ih.1]
    refine ⟨rfl, ?_⟩
    rw [isEmpty_append, ih.2, Bool.and_false]

theorem paren_mem (h : Sheds f part t t') : '(' ∈ t ∧ '(' ∈ t' := by
  induction h with
  | modifier => simp
  | arguments | inside => simp [callText]
  | behind ha _ ih => simp [ih.1, ih.2]

/-- A word that calls for an advisory and is not in what is left out stands in both texts or in
neither, whatever stands before and behind them. -/
theorem holds_eq (h : Sheds f part t t') {target : Framework} {a : Advisory} {w : Text}
    (ha : a ∈ Advisory.table f target) (hw : w ∈ a.triggers) (hpart : Text.holds w part = false)
    {u : Text} (hu : u.getLast?.any isWord = false) (v : Text) :
    Text.holds w (u ++ (t ++ v)) = Text.holds w (u ++ (t' ++ v)) := by
  obtain ⟨hne, hbrace, hparen, hleads⟩ := Advisory.trigger_facts a ha w hw
  induction h generalizing u v with
  | @modifier o name modifier b y hname hmodifier hb ho =>
    obtain ⟨hlead, hlead', x, rest, rfl, hheads⟩ := heads_modifier hname hmodifier hb ho
    have hd := (hheads name hlead).declared
    simp only [List.append_assoc, List.cons_append]
    rw [Advisory.holds_lead hne (hleads _ hd _ hlead) hu hb, ← List.append_assoc name,
      Advisory.holds_lead hne (hleads _ hd _ hlead') hu hb]
  | @arguments slot title lead b x body extra hs hbody hextra more =>
    have hnil : Text.holds w [] = false := by
      rw [Text.holds, List.isEmpty_eq_false_iff]
      exact hne
    -- both brackets around the arguments keep them apart from what is left
    have hcut (extra : Text) : u ++ (callText lead b x body extra ++ more ++ v) =
        (u ++ (lead ++ (b ++ '(' :: (x ++ '\x7b' :: body)))) ++
          '\x7d' :: (extra ++ ')' :: (more ++ v)) := by
      simp [callText]
    rw [hcut, hcut, Text.holds_append_cons hne hbrace, Text.holds_append_cons hne hbrace,
      Text.holds_append_cons hne hparen, Text.holds_append_cons hne hparen, hpart, hnil]
  | @inside title lead b x extra part inner inner' hs _ hinner hinner' hextra more ih =>
    have hcut (inner : Text) : u ++ (callText lead b x inner extra ++ more ++ v) =
        (u ++ (lead ++ (b ++ '(' :: (x ++ ['\x7b'])))) ++
          (inner ++ '\x7d' :: (extra ++ ')' :: (more ++ v))) := by
      simp [callText]
    rw [hcut, hcut]
    apply ih hpart
    have hlast : u ++ (lead ++ (b ++ '(' :: (x ++ ['\x7b']))) =
        (u ++ (lead ++ (b ++ '(' :: x))) ++ ['\x7b'] := by simp
    rw [hlast, List.getLast?_concat]
    decide
  | behind hahead _ ih =>
    simp only [List.append_assoc]
    rw [← List.append_assoc u, ← List.append_assoc u]
    exact ih hpart (hahead.fresh u) v

theorem messages_eq (h : Sheds f part t t') {target : Framework}
    (hpart : Advisory.messages f target part = []) :
    Advisory.messages f target t = Advisory.messages f target t' := by
  rw [Advisory.messages, List.map_eq_nil_iff, List.filter_eq_nil_iff] at hpart
  have happlies : ∀ a ∈ Advisory.table f target, a.appliesTo t = a.appliesTo t' := by
    intro a ha
    have hno : ∀ w ∈ a.triggers, Text.holds w part = false := by
      have hno := hpart a ha
      rw [Advisory.appliesTo, List.any_eq_true, not_exists] at hno
      intro w hw
      rw [Bool.eq_false_iff]
      exact fun hh => hno w ⟨hw, hh⟩
    rw [Advisory.appliesTo, Advisory.appliesTo, Bool.eq_iff_iff, List.any_eq_true,
      List.any_eq_true]
    have hsame (w : Text) (hw : w ∈ a.triggers) : Text.holds w t = Text.holds w t' := by
      have hh := h.holds_eq ha hw (hno w hw) (u := []) rfl []
      rwa [List.nil_append, List.nil_append, List.append_nil, List.append_nil] at hh
    constructor
    · rintro ⟨w, hw, hh⟩
      exact ⟨w, hw, hsame w hw ▸ hh⟩
    · rintro ⟨w, hw, hh⟩
      exact ⟨w, hw, (hsame w hw).trans hh⟩
  rw [Advisory.messages, Advisory.messages]
  congr 1
  exact List.filter_congr happlies

theorem draft_eq (h : Sheds f part t t') (target : Framework) (style : Style) :
    (Route.mk f target style).draft t = (Route.mk f target style).draft t' := by
  rw [Route.draft, Route.draft]
  simp only [← h.ofSource_eq.1, h.ofSource_eq.2]
  rfl

theorem not_allBlank (h : Sheds f part t t') :
    Text.allBlank t = false ∧ Text.allBlank t' = false := by
  have hblank {t : Text} (ht : '(' ∈ t) : Text.allBlank t = false := by
    rw [Bool.eq_false_iff, Text.allBlank, ne_eq, List.all_eq_true]
    intro hall
    exact absurd (hall _ ht) (by decide)
  exact ⟨hblank h.paren_mem.1, hblank h.paren_mem.2⟩

/-- Only the advisories of the table can tell the two texts apart. -/
theorem convert_eq (h : Sheds f part t t') (target : Framework) (style : Style) :
    (convert f target style t).code = (convert f target style t').code ∧
      (Advisory.messages f target t = Advisory.messages f target t' →
        convert f target style t = convert f target style t') := by
  rw [convert, convert, Route.between]
  split
  · rename_i route hroute
    split at hroute
    · cases hroute
    · cases hroute
      rw [Route.convert, Route.convert, h.not_allBlank.1, h.not_allBlank.2,
        if_neg Bool.false_ne_true, if_neg Bool.false_ne_true, h.draft_eq]
      cases style.validate with
      | error e => exact ⟨rfl, fun _ => rfl⟩
      | ok =>
        refine ⟨rfl, fun hmessages => ?_⟩
        simp only [hmessages]
  · exact ⟨rfl, fun _ => rfl⟩

end Sheds

/-! ## 7. Conversions -/

/-- A part of a declaration that its tree does not keep disappears from a conversion: the code is the
same without it, and if it is a modifier, or arguments that call for no advisory by themselves, all of
the outcome is. -/
theorem convert_eq_of_sheds {source : Framework} {part t t' : Text} (h : Sheds source part t t')
    (target : Framework) (style : Style) :
    (convert source target style t).code = (convert source target style t').code ∧
      ((∃ slot ∈ Slot.declarations, part ∈ (Slot.announced source slot).2) ∨
          Advisory.messages source target part = [] →
        convert source target style t = convert source target style t') := by
  refine ⟨(h.convert_eq target style).1, fun hpart => ?_⟩
  apply (h.convert_eq target style).2
  apply h.messages_eq
  rcases hpart with ⟨slot, hd, hmodifier⟩ | hpart
  · exact Advisory.messages_modifier slot hd part hmodifier
  · exact hpart

/-- The head of a titled call with a plain callback, whatever its body is. -/
theorem opensCall_titled {f : Framework} {slot : Slot} {lead inner cb : Text} {q : Char}
    (hd : slot ∈ Slot.declarations) (ht : slot.isTitled = true) (hlead : lead ∈ Slot.leads f slot)
    (hq : isQuote q = true) (hi : Slot.isTitleBody q inner = true)
    (hself : SelfContained (q :: (inner ++ q :: ',' :: cb)))
    (hcb : ∀ rest, (Slot.blockCallback f slot).Takes (some ',') (cb ++ ['\x7b']) rest {}) :
    OpensCall f slot (unescape inner) lead [] (q :: (inner ++ q :: ',' :: cb)) where
  heads rest := by
    refine ⟨hd, rfl, lead, [], _, rfl, hlead, rfl, ?_⟩
    have htail := @Slot.HeadTail.titled _ _ [] inner [] _ q rfl hq hi rfl (hcb rest)
    rw [ht]
    simpa using htail
  lead := hlead
  blank := rfl
  complete := hself

/-- A suite with a test that has the given text behind its callback. -/
def timedSuite (extra : Text) : Text :=
  callText "describe" [] "'s', () => " (['\n'] ++
    (callText "it" [] "'a', () => " " cy.visit('/') " extra ++ ['\n'])) [] ++ [';']

theorem sheds_timeout : Sheds .cypress ", 9000" (timedSuite ", 9000") (timedSuite []) := by
  have hsuite := @opensCall_titled .cypress .suite "describe" ['s'] " () => " '\x27' (by decide) rfl
    (by decide) rfl (by decide) (by decide)
    (StandsFor.takes_blockCallback (by decide) (by decide))
  have htest := @opensCall_titled .cypress .test "it" ['a'] " () => " '\x27' (by decide) rfl
    (by decide) rfl (by decide) (by decide)
    (StandsFor.takes_blockCallback (by decide) (by decide))
  exact .inside hsuite (.behind (.blank (by decide)) (.arguments htest (by decide) (by decide) _))
    (by decide) (by decide) (by decide) [';']

theorem convert_timedSuite :
    Sheds .cypress ", 9000" (timedSuite ", 9000") (timedSuite []) ∧
      Advisory.messages .cypress .playwright ", 9000" = [] ∧
      convert .cypress .playwright {} (timedSuite ", 9000") =
        convert .cypress .playwright {} (timedSuite []) :=
  ⟨sheds_timeout, by decide,
    (convert_eq_of_sheds sheds_timeout .playwright {}).2 (.inr (by decide))⟩

/-- The only test that should run is written as any other one, and nothing is said about it. -/
theorem convert_focused :
    convert .cypress .playwright {} "it.only('a', () => \x7b cy.visit('/') \x7d)" =
      convert .cypress .playwright {} "it('a', () => \x7b cy.visit('/') \x7d)" := by
  have h : Sheds .cypress ".only" "it.only('a', () => \x7b cy.visit('/') \x7d)"
      "it('a', () => \x7b cy.visit('/') \x7d)" :=
    @Sheds.modifier .cypress ⟨.test, ['a'], 20⟩ "it" ".only" [] "'a', () => \x7b cy.visit('/') \x7d)"
      (by decide) (by decide) rfl (by decide)
  exact (h.convert_eq .playwright {}).2 (by decide)

end Parlance
