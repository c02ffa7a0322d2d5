import Parlance.Document.Reader
import Parlance.Proofs.DeclarationParts

/-!
The heads of declarations. A head begins with one of a few words and an opening parenthesis and ends
with the brace that opens the block. At one place there is at most one head, so nothing depends on
which of several a vocabulary would prefer.
-/

namespace Parlance

open Pattern Source

namespace Slot

/-! ## 1. The heads of a vocabulary -/

def isTitled : Slot → Bool
  | .suite | .test => true
  | _ => false

/-- The words that announce what opens a block, and the modifiers they can have. -/
def announced : Framework → Slot → List Text × List Text
  | .cypress, .suite => (["describe", "context"], onlySkip)
  | .cypress, .test => (["it", "specify"], onlySkip)
  | .cypress, .hook .beforeAll => (["before"], [])
  | .cypress, .hook .afterAll => (["after"], [])
  | .playwright, .suite => (["test.describe"], [".only", ".skip", ".serial", ".parallel"])
  | .playwright, .test => (["test"], [".only", ".skip", ".fixme"])
  | .playwright, .hook .beforeAll => (["test.beforeAll"], [])
  | .playwright, .hook .afterAll => (["test.afterAll"], [])
  | .playwright, .hook .beforeEach => (["test.beforeEach"], [])
  | .playwright, .hook .afterEach => (["test.afterEach"], [])
  | .testRail, .suite => (["suite"], [])
  | .testRail, .test => (["test_case", "testCase"], [])
  | .testRail, .hook .beforeAll => (["beforeAll"], [])
  | .testRail, .hook .afterAll => (["afterAll"], [])
  | _, .hook .beforeEach => (["beforeEach"], [])
  | _, .hook .afterEach => (["afterEach"], [])
  | _, _ => ([], [])

/-- The callback that stands behind the parenthesis, and behind the title if there is one. -/
def blockCallback (f : Framework) (slot : Slot) : Pattern :=
  if f = .playwright ∧ slot ≠ .suite then fixtureCallback else callback

/-- The pattern of what opens a block is made of its words and its callback. -/
theorem pattern?_declaration {f : Framework} {slot : Slot} (h : slot ∈ declarations) :
    slot.pattern? f = some ((if slot.isTitled then titled else untitled)
      (head (announced f slot).1 (announced f slot).2) (blockCallback f slot)) := by
  cases slot with
  | hook kind => cases f <;> cases kind <;> rfl
  | suite | test => cases f <;> rfl
  | step | assertion | command | preamble | candidate => exact absurd h (by decide)

/-- The texts with which the heads of a slot begin. -/
def leads (f : Framework) (slot : Slot) : List Text :=
  headTexts (announced f slot).1 (announced f slot).2

/-- The characters before the parenthesis of a head, blanks apart. -/
def isLeadChar (c : Char) : Bool :=
  isPlain c && !isBlank c && c ≠ '(' && c ≠ ';' && !isOpener c && !isCloser c

theorem all_leadChar {f : Framework} {slot : Slot} (h : slot ∈ declarations) :
    ∀ w ∈ leads f slot, w ≠ [] ∧ w.all isLeadChar = true := by
  revert h
  revert slot
  cases f <;> decide

/-- A text announces one slot only. -/
theorem leads_unique {f : Framework} {slot slot' : Slot} {w : Text} (h : slot ∈ declarations)
    (h' : slot' ∈ declarations) (hw : w ∈ leads f slot) (hw' : w ∈ leads f slot') :
    slot = slot' := by
  revert w
  revert h'
  revert slot'
  revert h
  revert slot
  cases f <;> decide

theorem startsWord_of_mem_leads {f : Framework} {slot : Slot} (h : slot ∈ declarations) :
    ∀ w ∈ leads f slot, startsWord w = true := by
  revert h
  revert slot
  cases f <;> decide

/-- What stands behind the parenthesis of a head, up to its brace, and the title that it gives. -/
inductive HeadTail (callback : Pattern) (rest : Text) : (isTitled : Bool) → (x title : Text) → Prop
  | titled {b inner b' c : Text} {q : Char} (hb : b.all isBlank = true) (hq : isQuote q = true)
      (hi : isTitleBody q inner = true) (hb' : b'.all isBlank = true)
      (hc : callback.Takes (some ',') c rest {}) :
      HeadTail callback rest true (b ++ q :: (inner ++ q :: (b' ++ ',' :: c))) (unescape inner)
  | untitled {c : Text} (hc : callback.Takes (some '(') c rest {}) :
      HeadTail callback rest false c []

/-- The text `s` between the character `last` and the text `rest` is the head of what opens a block
with a title. -/
structure Heads (f : Framework) (slot : Slot) (last : Option Char) (s rest title : Text) :
    Prop where
  declared : slot ∈ declarations
  /-- A word begins here. -/
  fresh : last.any isWord = false
  shape : ∃ w b x, s = w ++ (b ++ '(' :: x) ∧ w ∈ leads f slot ∧ b.all isBlank = true ∧
    HeadTail (blockCallback f slot) rest slot.isTitled x title

theorem blockCallback_keepsNothing (f : Framework) (slot : Slot) :
    (blockCallback f slot).keepsNothing = true := by
  unfold blockCallback
  split <;> rfl

theorem head_keepsNothing (f : Framework) (slot : Slot) :
    (head (announced f slot).1 (announced f slot).2 ++ blanks ++ one '(').keepsNothing = true := by
  cases slot with
  | hook kind => cases f <;> cases kind <;> rfl
  | suite | test | step | assertion | command | preamble | candidate => cases f <;> rfl

theorem isWordEdge_lead {f : Framework} {slot : Slot} (h : slot ∈ declarations) {w : Text}
    (hw : w ∈ leads f slot) (last : Option Char) (t : Text) :
    (Point.mk last (w ++ t)).isWordEdge = !last.any isWord := by
  have hs := startsWord_of_mem_leads h w hw
  cases w with
  | nil => simp [startsWord] at hs
  | cons c w =>
    have hc : isWord c = true := hs
    simp [Point.isWordEdge, hc]

theorem last_titled (w b b₂ inner b' : Text) (q : Char) (last : Option Char) :
    (w ++ (b ++ ['(']) ++ (b₂ ++ q :: (inner ++ q :: (b' ++ [','])))).getLast?.or last =
      some ',' := by
  have h : w ++ (b ++ ['(']) ++ (b₂ ++ q :: (inner ++ q :: (b' ++ [',']))) =
      (w ++ (b ++ ['(']) ++ (b₂ ++ q :: (inner ++ q :: b'))) ++ [','] := by simp
  rw [h, List.getLast?_concat]
  rfl

section Declared

variable {f : Framework} {slot : Slot} {p : Pattern} {last : Option Char} {s rest : Text}
  {kept : Kept}

theorem heads_of_takes (h : slot ∈ declarations) (hp : slot.pattern? f = some p)
    (hs : p.Takes last s rest kept) :
    Heads f slot last s rest (unescape (kept.title.getD [])) := by
  rw [pattern?_declaration h] at hp
  obtain rfl := Option.some.inj hp
  have hcallback := blockCallback_keepsNothing f slot
  have hhead := head_keepsNothing f slot
  cases ht : slot.isTitled with
  | true =>
    rw [ht] at hs
    obtain ⟨s₁, c, _, _, rfl, h₁, hc, rfl⟩ := takes_append.1 hs
    obtain ⟨_, b, q, inner, b', rfl, hb, hq, hi, hb', h₂, rfl⟩ := (takes_title_comma hhead).1 h₁
    -- from the comma back: the title, the parenthesis, the blanks and the lead
    obtain ⟨w, b₁, rfl, hb₁, hw⟩ := takes_lead.1 h₂
    obtain ⟨hw, he, -⟩ := takes_head.1 hw
    rw [isWordEdge_lead h hw] at he
    obtain rfl := hc.kept_eq hcallback
    rw [last_titled] at hc
    refine ⟨h, by simpa using he, w, b₁, b ++ q :: (inner ++ q :: (b' ++ ',' :: c)), by simp, hw,
      hb₁, ?_⟩
    rw [ht]
    exact .titled hb hq hi hb' hc
  | false =>
    rw [ht] at hs
    obtain ⟨s₁, c, _, _, rfl, h₁, hc, rfl⟩ := takes_append.1 hs
    obtain rfl := h₁.kept_eq hhead
    obtain ⟨w, b₁, rfl, hb₁, hw⟩ := takes_lead.1 h₁
    obtain ⟨hw, he, -⟩ := takes_head.1 hw
    rw [isWordEdge_lead h hw] at he
    obtain rfl := hc.kept_eq hcallback
    refine ⟨h, by simpa using he, w, b₁, c, by simp, hw, hb₁, ?_⟩
    rw [ht]
    exact .untitled (by simpa using hc)

theorem Heads.takes {title : Text} (h : Heads f slot last s rest title)
    (hp : slot.pattern? f = some p) :
    ∃ kept, p.Takes last s rest kept ∧ unescape (kept.title.getD []) = title := by
  obtain ⟨hdecl, hfresh, w, b, x, rfl, hw, hb, htail⟩ := h
  rw [pattern?_declaration hdecl] at hp
  obtain rfl := Option.some.inj hp
  have hhead := head_keepsNothing f slot
  have hlead (t : Text) : (head (announced f slot).1 (announced f slot).2 ++ blanks ++
      one '(').Takes last (w ++ (b ++ ['('])) t {} := by
    refine takes_lead.2 ⟨w, b, rfl, hb, takes_head.2 ⟨hw, ?_, rfl⟩⟩
    rw [isWordEdge_lead hdecl hw, hfresh]
    rfl
  cases ht : slot.isTitled with
  | true =>
    rw [ht] at htail
    cases htail with
    | @titled b₂ inner b' c q hb₂ hq hi hb' hc =>
      refine ⟨⟨some inner, none⟩, takes_append.2 ⟨_, c, ⟨some inner, none⟩, {}, ?_,
        (takes_title_comma hhead).2 ⟨_, b₂, q, inner, b', rfl, hb₂, hq, hi, hb', hlead _, rfl⟩,
        by rwa [last_titled], rfl⟩, rfl⟩
      simp
  | false =>
    rw [ht] at htail
    cases htail with
    | untitled hc =>
      exact ⟨{}, takes_append.2 ⟨_, x, {}, {}, by simp, hlead _, by simpa using hc, rfl⟩, rfl⟩

end Declared

/-! ## 2. At most one head at a place -/

theorem not_blank_of_isLeadChar {c : Char} (h : isLeadChar c = true) : (!isBlank c) = true := by
  simp only [isLeadChar, Bool.and_eq_true] at h
  exact h.1.1.1.1.2

theorem ne_paren_of_isLeadChar {c : Char} (h : isLeadChar c = true) :
    decide (c ≠ '(') = true := by
  simp only [isLeadChar, Bool.and_eq_true] at h
  exact h.1.1.1.2

theorem lead_unique {w w' b b' x x' : Text} (h : w ++ (b ++ '(' :: x) = w' ++ (b' ++ '(' :: x'))
    (hw : w.all isLeadChar = true) (hw' : w'.all isLeadChar = true) (hb : b.all isBlank = true)
    (hb' : b'.all isBlank = true) : w = w' ∧ b = b' ∧ x = x' := by
  have hne {w b : Text} (hw : w.all isLeadChar = true) (hb : b.all isBlank = true) :
      (w ++ b).all (· ≠ '(') = true := by
    rw [List.all_append, Text.all_mono (fun _ => ne_paren_of_isLeadChar) hw,
      Text.all_mono (Text.ne_of_holds (by decide)) hb]
    rfl
  rw [← List.append_assoc, ← List.append_assoc] at h
  obtain ⟨heq, -, rfl⟩ := Text.cut_unique h (hne hw hb) (hne hw' hb') (by decide) (by decide)
  obtain ⟨rfl, rfl⟩ := Text.cut_blanks_unique heq
    (Text.all_mono (fun _ => not_blank_of_isLeadChar) hw)
    (Text.all_mono (fun _ => not_blank_of_isLeadChar) hw') hb hb'
  exact ⟨rfl, rfl, rfl⟩

theorem isBlank_quote {q : Char} (h : isQuote q = true) : isBlank q = false := by
  simp only [isQuote, Bool.or_eq_true, decide_eq_true_eq] at h
  rcases h with (rfl | rfl) | rfl <;> rfl

/-- What stands behind the parenthesis of a head is known from the text. -/
theorem HeadTail.unique {cb : Pattern} (hcb : cb.IsUnambiguous) {rest rest' x x' title title' : Text}
    {isTitled : Bool} (ht : x ++ rest = x' ++ rest') (h : HeadTail cb rest isTitled x title)
    (h' : HeadTail cb rest' isTitled x' title') : x = x' ∧ title = title' := by
  cases h with
  | untitled hc =>
    cases h' with
    | untitled hc' => exact ⟨hcb ht hc hc', rfl⟩
  | @titled b inner e c q hb hq hi he hc =>
    cases h' with
    | @titled b' inner' e' c' q' hb' hq' hi' he' hc' =>
      simp only [List.append_assoc, List.cons_append] at ht
      obtain ⟨rfl, rfl, ht₁⟩ := Text.cut_unique ht hb hb' (isBlank_quote hq) (isBlank_quote hq')
      -- the title ends at its own closing quote, on both sides
      have hinner := splitLiteral_append hq (isLiteralBody_of_isTitleBody hi) (e ++ ',' :: (c ++ rest))
      rw [ht₁, splitLiteral_append hq (isLiteralBody_of_isTitleBody hi')] at hinner
      obtain ⟨rfl, ht₂⟩ := Prod.mk.inj (Option.some.inj hinner)
      obtain ⟨rfl, -, ht₃⟩ := Text.cut_unique ht₂ he' he (by decide) (by decide)
      obtain rfl := hcb ht₃.symm hc hc'
      exact ⟨rfl, rfl⟩

theorem blockCallback_isUnambiguous (f : Framework) (slot : Slot) :
    (blockCallback f slot).IsUnambiguous := by
  unfold blockCallback
  split
  · exact fixtureCallback_isUnambiguous
  · exact callback_isUnambiguous

/-- At one place there is one head at most. -/
theorem Heads.unique {f : Framework} {slot slot' : Slot} {last last' : Option Char}
    {s s' rest rest' title title' : Text} (ht : s ++ rest = s' ++ rest')
    (h : Heads f slot last s rest title) (h' : Heads f slot' last' s' rest' title') :
    slot = slot' ∧ s = s' ∧ title = title' := by
  obtain ⟨hd, -, w, b, x, rfl, hw, hb, hx⟩ := h
  obtain ⟨hd', -, w', b', x', rfl, hw', hb', hx'⟩ := h'
  simp only [List.append_assoc, List.cons_append] at ht
  obtain ⟨rfl, rfl, hxx⟩ :=
    lead_unique ht (all_leadChar hd w hw).2 (all_leadChar hd' w' hw').2 hb hb'
  obtain rfl := leads_unique hd hd' hw hw'
  obtain ⟨rfl, rfl⟩ := hx.unique (blockCallback_isUnambiguous f slot) hxx hx'
  exact ⟨rfl, rfl, rfl⟩

theorem blockCallback_isUnanchored (f : Framework) (slot : Slot) :
    (blockCallback f slot).isUnanchored = true := by
  unfold blockCallback
  split <;> rfl

/-- A head sees no more of its surroundings than whether words go on there. -/
theorem Heads.congr {f : Framework} {slot : Slot} {last last' : Option Char}
    {s rest rest' title : Text} (hlast : last.any isWord = last'.any isWord)
    (hrest : startsWord rest = startsWord rest') (h : Heads f slot last s rest title) :
    Heads f slot last' s rest' title := by
  obtain ⟨hd, hfresh, w, b, x, rfl, hw, hb, hx⟩ := h
  have hcb := blockCallback_isUnanchored f slot
  refine ⟨hd, hlast ▸ hfresh, w, b, x, rfl, hw, hb, ?_⟩
  generalize slot.isTitled = isTitled at hx
  cases hx with
  | untitled hc => exact .untitled (hc.congr hcb rfl hrest)
  | titled hb hq hi hb' hc => exact .titled hb hq hi hb' (hc.congr hcb rfl hrest)

/-! ## 3. How a head is read -/

/-- The characters of code that neither open a literal or a comment nor end a statement. -/
def isHeadChar (c : Char) : Bool := isPlain c && c ≠ ';'

theorem isHeadChar_of_holds {p : Char → Bool} (hs : p '\x27' = false) (hd : p '"' = false)
    (ht : p '\x60' = false) (hc : p '/' = false) (he : p ';' = false) (c : Char)
    (h : p c = true) : isHeadChar c = true := by
  rw [isHeadChar, isPlain_of_holds hs hd ht hc c h, Text.ne_of_holds he c h]
  rfl

theorem isHeadChar_of_isBlank : ∀ c, isBlank c = true → isHeadChar c = true :=
  isHeadChar_of_holds (by decide) (by decide) (by decide) (by decide) (by decide)

theorem isHeadChar_of_isLeadChar : ∀ c, isLeadChar c = true → isHeadChar c = true :=
  isHeadChar_of_holds (by decide) (by decide) (by decide) (by decide) (by decide)

theorem isHeadChar_of_isCallbackChar : ∀ c, isCallbackChar c = true → isHeadChar c = true :=
  isHeadChar_of_holds (by decide) (by decide) (by decide) (by decide) (by decide)

theorem isPlain_of_isHeadChar (c : Char) (h : isHeadChar c = true) : isPlain c = true := by
  rw [isHeadChar, Bool.and_eq_true] at h
  exact h.1

/-- Code around a literal. -/
theorem read_around_literal {a inner c : Text} {q : Char} (ha : a.all isPlain = true)
    (hq : isQuote q = true) (hi : isLiteralBody q inner = true) (hc : c.all isPlain = true) :
    read .code (a ++ q :: (inner ++ q :: c)) =
      (a.map codeMark ++ (literalMark q :: inner.map literalMark ++
        literalMark q :: c.map codeMark), .code) := by
  have hl := marks_literal hq hi c
  have hf := finalMode_literal hq hi c
  rw [marks_plain hc] at hl
  rw [finalMode_plain hc] at hf
  rw [List.cons_append] at hl hf
  rw [read_plain ha, hl, hf]

/-- The head of a block is read as code but for its title: no semicolon of code and no comment
stands in it, and its last character is the brace that opens the block. -/
structure ReadsAsHead (s : Text) : Prop where
  mode : finalMode s = .code
  brace : ∃ ms, marks s = ms ++ [codeMark '\x7b']
  soft : ∀ m ∈ marks s, m.isCode ';' = false
  visible : ∀ m ∈ marks s, m.kind ≠ .comment

theorem not_isCode_of_isHeadChar {t : Text} (h : t.all isHeadChar = true) :
    ∀ m ∈ t.map codeMark, m.isCode ';' = false := by
  intro m hm
  obtain ⟨c, hc, rfl⟩ := List.mem_map.1 hm
  have hc := List.all_eq_true.1 h c hc
  simp only [isHeadChar, Bool.and_eq_true, decide_eq_true_eq] at hc
  simp [Mark.isCode, codeMark, hc.2]

theorem codeMark_visible (t : Text) : ∀ m ∈ t.map codeMark, m.kind ≠ .comment := by
  intro m hm
  obtain ⟨c, -, rfl⟩ := List.mem_map.1 hm
  simp [codeMark]

theorem readsAsHead_untitled {s : Text} (h : s.all isHeadChar = true) :
    ReadsAsHead (s ++ ['\x7b']) := by
  have hall : (s ++ ['\x7b']).all isHeadChar = true := by
    rw [List.all_append, h]
    rfl
  have hplain := Text.all_mono isPlain_of_isHeadChar hall
  have hmarks := marks_plain hplain
  refine ⟨finalMode_plain hplain, ⟨s.map codeMark, ?_⟩, ?_, ?_⟩
  · rw [hmarks, List.map_append]
    rfl
  · rw [hmarks]
    exact not_isCode_of_isHeadChar hall
  · rw [hmarks]
    exact codeMark_visible _

theorem readsAsHead_titled {a inner c : Text} {q : Char} (ha : a.all isHeadChar = true)
    (hq : isQuote q = true) (hi : isLiteralBody q inner = true) (hc : c.all isHeadChar = true) :
    ReadsAsHead (a ++ q :: (inner ++ q :: (c ++ ['\x7b']))) := by
  have hall : (c ++ ['\x7b']).all isHeadChar = true := by
    rw [List.all_append, hc]
    rfl
  have hread := read_around_literal (Text.all_mono isPlain_of_isHeadChar ha) hq hi
    (Text.all_mono isPlain_of_isHeadChar hall)
  have hmarks := congrArg Prod.fst hread
  refine ⟨congrArg Prod.snd hread, ?_, ?_, ?_⟩
  · rw [marks, hmarks, List.map_append]
    exact ⟨a.map codeMark ++ (literalMark q :: inner.map literalMark ++
      literalMark q :: c.map codeMark), by simp⟩
  · intro m hm
    rw [marks, hmarks] at hm
    simp only [List.mem_append, List.mem_cons] at hm
    rcases hm with hm | (rfl | hm) | rfl | hm
    · exact not_isCode_of_isHeadChar ha m hm
    · rfl
    · obtain ⟨d, -, rfl⟩ := List.mem_map.1 hm
      rfl
    · rfl
    · exact not_isCode_of_isHeadChar hall m hm
  · intro m hm
    rw [marks, hmarks] at hm
    simp only [List.mem_append, List.mem_cons] at hm
    rcases hm with hm | (rfl | hm) | rfl | hm
    · exact codeMark_visible _ m hm
    · simp [literalMark]
    · obtain ⟨d, -, rfl⟩ := List.mem_map.1 hm
      simp [literalMark]
    · simp [literalMark]
    · exact codeMark_visible _ m hm

/-- Without fixtures nothing in the head of a block hides its brace. -/
theorem Heads.readsAsHead {f : Framework} {slot : Slot} {last : Option Char}
    {s rest title : Text} (hf : f ≠ .playwright) (h : Heads f slot last s rest title) :
    ReadsAsHead s := by
  obtain ⟨hd, -, w, b, x, rfl, hw, hb, hx⟩ := h
  have hcb : blockCallback f slot = callback := by simp [blockCallback, hf]
  rw [hcb] at hx
  generalize slot.isTitled = isTitled at hx
  have hlead := Text.all_mono isHeadChar_of_isLeadChar (all_leadChar hd w hw).2
  have hblank {b : Text} (hb : b.all isBlank = true) : b.all isHeadChar = true :=
    Text.all_mono isHeadChar_of_isBlank hb
  cases hx with
  | untitled hc =>
    obtain ⟨y, rfl, hy⟩ := takes_callback hc
    have hall : (w ++ (b ++ '(' :: y)).all isHeadChar = true := by
      simp [hlead, hblank hb, Text.all_mono isHeadChar_of_isCallbackChar hy,
        show isHeadChar '(' = true by decide]
    simpa using readsAsHead_untitled hall
  | @titled b₂ inner b' c q hb₂ hq hi hb' hc =>
    obtain ⟨y, rfl, hy⟩ := takes_callback hc
    -- everything but the title is plain, before it and behind
    have ha : (w ++ (b ++ '(' :: b₂)).all isHeadChar = true := by
      simp [hlead, hblank hb, hblank hb₂, show isHeadChar '(' = true by decide]
    have hc' : (b' ++ ',' :: y).all isHeadChar = true := by
      simp [hblank hb', Text.all_mono isHeadChar_of_isCallbackChar hy,
        show isHeadChar ',' = true by decide]
    simpa using readsAsHead_titled ha hq (isLiteralBody_of_isTitleBody hi) hc'

/-! ## 4. What only looks like a head -/

/-- The texts with which the calls begin that look like suites and tests. -/
def candidateLeads : Framework → List Text
  | .cypress => headTexts ["describe", "context", "it", "specify"] onlySkip
  | .playwright =>
    headTexts ["test", "test.describe"] [".only", ".skip", ".fixme", ".serial", ".parallel"]
  | .testRail => headTexts ["suite", "test_case", "testCase"] []

theorem all_candidateLeadChar (f : Framework) :
    ∀ w ∈ candidateLeads f, w ≠ [] ∧ w.all isLeadChar = true := by
  cases f <;> decide

/-- A text begins with the lead of something declared, or of something that looks like it. -/
def StartsLead (f : Framework) (t : Text) : Prop :=
  ∃ w b x, t = w ++ (b ++ '(' :: x) ∧ b.all isBlank = true ∧
    ((∃ slot ∈ declarations, w ∈ leads f slot) ∨ w ∈ candidateLeads f)

theorem all_leadChar_of_or {f : Framework} {w : Text}
    (h : (∃ slot ∈ declarations, w ∈ leads f slot) ∨ w ∈ candidateLeads f) :
    w ≠ [] ∧ w.all isLeadChar = true := by
  rcases h with ⟨slot, hd, hw⟩ | hw
  · exact all_leadChar hd w hw
  · exact all_candidateLeadChar f w hw

theorem isLeadChar_of_startsLead {f : Framework} {c : Char} {t : Text}
    (h : StartsLead f (c :: t)) : isLeadChar c = true := by
  obtain ⟨w, b, x, ht, -, hw⟩ := h
  obtain ⟨hne, hall⟩ := all_leadChar_of_or hw
  cases w with
  | nil => exact absurd rfl hne
  | cons d w =>
    obtain ⟨rfl, -⟩ := List.cons.inj ht
    simp only [List.all_cons, Bool.and_eq_true] at hall
    exact hall.1

theorem isPlain_of_startsLead {f : Framework} {c : Char} {t : Text}
    (h : StartsLead f (c :: t)) : isPlain c = true :=
  isPlain_of_isHeadChar c (isHeadChar_of_isLeadChar c (isLeadChar_of_startsLead h))

/-- A lead, its blanks and its parenthesis are plain code. -/
theorem exists_of_startsLead {f : Framework} {t : Text} (h : StartsLead f t) :
    ∃ lead x, t = lead ++ '(' :: x ∧ lead.all isPlain = true ∧
      lead.all (· ≠ '(') = true := by
  obtain ⟨w, b, x, rfl, hb, hw⟩ := h
  have hchars := (all_leadChar_of_or hw).2
  refine ⟨w ++ b, x, by rw [List.append_assoc], ?_, ?_⟩
  · rw [List.all_append, Text.all_mono isPlain_of_isBlank hb,
      Text.all_mono (fun c hc => isPlain_of_isHeadChar c (isHeadChar_of_isLeadChar c hc)) hchars]
    rfl
  · rw [List.all_append, Text.all_mono (Text.ne_of_holds (by decide)) hchars,
      Text.all_mono (Text.ne_of_holds (by decide)) hb]
    rfl

theorem not_startsLead_blank {f : Framework} {c : Char} {t : Text} (hc : isBlank c = true) :
    ¬StartsLead f (c :: t) := by
  intro h
  have hb := not_blank_of_isLeadChar (isLeadChar_of_startsLead h)
  rw [hc] at hb
  exact absurd hb (by decide)

theorem Heads.startsLead {f : Framework} {slot : Slot} {last : Option Char}
    {s rest title : Text} (h : Heads f slot last s rest title) : StartsLead f (s ++ rest) := by
  obtain ⟨hd, -, w, b, x, rfl, hw, hb, -⟩ := h
  exact ⟨w, b, x ++ rest, by simp, hb, .inl ⟨slot, hd, hw⟩⟩

theorem takes_opening {h : Pattern} {last : Option Char} {s rest : Text} {kept : Kept}
    (hs : (opening h).Takes last s rest kept) :
    ∃ w b x kept', s = w ++ (b ++ '(' :: x) ∧ b.all isBlank = true ∧
      h.Takes last w (b ++ '(' :: (x ++ rest)) kept' ∧ x.all (· ≠ ';') = true := by
  obtain ⟨s₁, x, kept₁, _, rfl, h₁, hx, -⟩ := takes_append.1 hs
  obtain ⟨s₂, b₂, rfl, hb₂, h₂⟩ := takes_append_blanks.1 h₁
  obtain ⟨w, b, rfl, hb, hw⟩ := takes_lead.1 h₂
  refine ⟨w, b, b₂ ++ x, kept₁, by simp, hb, by simpa using hw, ?_⟩
  have hblank (c : Char) (hc : isBlank c = true) : decide (c ≠ ';') = true :=
    Text.ne_of_holds (by decide) c hc
  have hname (c : Char) (hc : (isWord c || c = '$' || c = '.') = true) :
      decide (c ≠ ';') = true := by
    rw [decide_eq_true_eq]
    rintro rfl
    exact absurd hc (by decide)
  have hall := hx.all (p := (· ≠ ';')) (by
    simp only [within_append, within_orElse, within_oneOf, within_word, within_one]
    exact ⟨by decide, ⟨by decide, trivial⟩, ⟨by decide, trivial⟩,
      ⟨⟨hname, hname⟩, hblank⟩, by decide⟩)
  rw [List.all_append, hall, Text.all_mono hblank hb₂]
  rfl

/-- The lead of a test or of a group of tests, with any modifier that one of the two can have. -/
theorem takes_testLead {modifiers : List Text} {last : Option Char} {s rest : Text} {kept : Kept}
    (hs : (wordEdge ++ word "test" ++ optional (word ".describe") ++
      optional (words modifiers)).Takes last s rest kept) :
    s ∈ headTexts ["test", "test.describe"] modifiers := by
  obtain ⟨_, modifier, _, _, rfl, h₁, hm, -⟩ := takes_append.1 hs
  obtain ⟨_, group, _, _, rfl, h₂, hg, -⟩ := takes_append.1 h₁
  obtain ⟨_, name, _, _, rfl, he, hn, -⟩ := takes_append.1 h₂
  obtain ⟨rfl, -⟩ := takes_wordEdge.1 he
  obtain ⟨rfl, -⟩ := takes_word.1 hn
  obtain ⟨name, hname, hgroup⟩ : ∃ name ∈ ["test".toList, "test.describe".toList],
      [] ++ "test".toList ++ group = name := by
    rcases takes_optional.1 hg with hg' | ⟨rfl, -⟩
    · obtain ⟨rfl, -⟩ := takes_word.1 hg'
      exact ⟨"test.describe".toList, by decide, by decide⟩
    · exact ⟨"test".toList, by decide, by decide⟩
  rw [hgroup, mem_headTexts]
  refine ⟨name, hname, ?_⟩
  rcases (takes_optional_words.1 hm).1 with rfl | hmod
  · exact .inl (List.append_nil _)
  · exact .inr ⟨modifier, hmod, rfl⟩

/-- A call that looks like a declaration up to where that is known. -/
theorem takes_candidate {f : Framework} {p : Pattern} {last : Option Char} {s rest : Text}
    {kept : Kept} (hp : Slot.candidate.pattern? f = some p) (hs : p.Takes last s rest kept) :
    ∃ w b x, s = w ++ (b ++ '(' :: x) ∧ b.all isBlank = true ∧ w ∈ candidateLeads f ∧
      x.all (· ≠ ';') = true := by
  have hopening {h : Pattern} (hs : (opening h).Takes last s rest kept)
      (hlead : ∀ w t kept', h.Takes last w t kept' → w ∈ candidateLeads f) :
      ∃ w b x, s = w ++ (b ++ '(' :: x) ∧ b.all isBlank = true ∧ w ∈ candidateLeads f ∧
        x.all (· ≠ ';') = true := by
    obtain ⟨w, b, x, _, rfl, hb, hw, hx⟩ := takes_opening hs
    exact ⟨w, b, x, rfl, hb, hlead w _ _ hw, hx⟩
  cases f with
  | cypress | testRail =>
    exact hopening (Option.some.inj hp ▸ hs) fun _ _ _ hw => (takes_head.1 hw).1
  | playwright =>
    exact hopening (Option.some.inj hp ▸ hs) fun _ _ _ hw => takes_testLead hw

end Slot

/-- A fold that keeps what it has or takes the next one ends with one of them. -/
theorem foldl_choice_mem {α : Type} (prefers : α → α → Prop) [DecidableRel prefers] (best : α)
    (rest : List α) :
    rest.foldl (fun best e => if prefers best e then e else best) best ∈ best :: rest := by
  induction rest generalizing best with
  | nil => exact List.mem_cons_self
  | cons e rest ih =>
    rw [List.foldl_cons]
    split
    · exact List.mem_cons_of_mem _ (ih e)
    · exact List.cons_subset_cons _ (List.subset_cons_self e rest) (ih best)

namespace Opening

open Slot

theorem mem_of_longest? {os : List Opening} {o : Opening} (h : longest? os = some o) :
    o ∈ os := by
  cases os with
  | nil => simp [longest?] at h
  | cons a rest => exact Option.some.inj h ▸ foldl_choice_mem _ a rest

theorem longest?_isSome {os : List Opening} (h : os ≠ []) : (longest? os).isSome = true := by
  cases os with
  | nil => exact absurd rfl h
  | cons a rest => rfl

theorem ofSlot?_eq_some_iff {f : Framework} {slot : Slot} (h : slot ∈ declarations)
    {last : Option Char} {t : Text} {o : Opening} :
    ofSlot? f ⟨last, t⟩ slot = some o ↔
      ∃ s rest, t = s ++ rest ∧ Heads f slot last s rest o.title ∧ o.slot = slot ∧
        o.length = s.length := by
  have hp := pattern?_declaration (f := f) h
  rw [ofSlot?, hp]
  simp only [bind, Option.bind_some, Option.bind_eq_some_iff, Option.some.injEq]
  constructor
  · rintro ⟨hit, hhit, rfl⟩
    obtain ⟨s, rest, kept, rfl, hs, rfl⟩ := exists_takes_of_hit? hhit
    refine ⟨s, rest, rfl, heads_of_takes h hp hs, rfl, ?_⟩
    simp [hitBehind]
  · rintro ⟨s, rest, rfl, hs, hslot, hlength⟩
    obtain ⟨kept, htakes, htitle⟩ := hs.takes hp
    have hsome := hit?_isSome.2 ⟨s, rest, kept, rfl, htakes⟩
    obtain ⟨hit, hhit⟩ := Option.isSome_iff_exists.1 hsome
    obtain ⟨s', rest', kept', ht, hs', rfl⟩ := exists_takes_of_hit? hhit
    refine ⟨_, hhit, ?_⟩
    obtain ⟨-, rfl, heq⟩ := Heads.unique ht hs (heads_of_takes h hp hs')
    cases o
    simp_all [hitBehind]

theorem at?_eq_some_iff {f : Framework} {last : Option Char} {t : Text} {o : Opening} :
    at? f ⟨last, t⟩ = some o ↔
      ∃ s rest, t = s ++ rest ∧ Heads f o.slot last s rest o.title ∧ o.length = s.length := by
  have hmem {o : Opening} : o ∈ Slot.declarations.filterMap (ofSlot? f ⟨last, t⟩) ↔
      ∃ s rest, t = s ++ rest ∧ Heads f o.slot last s rest o.title ∧ o.length = s.length := by
    rw [List.mem_filterMap]
    constructor
    · rintro ⟨slot, hd, ho⟩
      obtain ⟨s, rest, ht, hs, rfl, hl⟩ := (ofSlot?_eq_some_iff hd).1 ho
      exact ⟨s, rest, ht, hs, hl⟩
    · rintro ⟨s, rest, ht, hs, hl⟩
      exact ⟨o.slot, hs.declared, (ofSlot?_eq_some_iff hs.declared).2 ⟨s, rest, ht, hs, rfl, hl⟩⟩
  constructor
  · intro h
    exact hmem.1 (mem_of_longest? h)
  · rintro ⟨s, rest, ht, hs, hl⟩
    have hsome := longest?_isSome (List.ne_nil_of_mem (hmem.2 ⟨s, rest, ht, hs, hl⟩))
    obtain ⟨o', ho'⟩ := Option.isSome_iff_exists.1 hsome
    obtain ⟨s', rest', ht', hs', hl'⟩ := hmem.1 (mem_of_longest? ho')
    obtain ⟨hslot, rfl, htitle⟩ := Heads.unique (ht.symm.trans ht') hs hs'
    rw [at?, ho']
    cases o
    cases o'
    simp_all

end Opening

end Parlance
