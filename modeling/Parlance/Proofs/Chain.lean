import Parlance.Proofs.Statement
import Parlance.Source.Chain

/-!
Call chains are read back as they are written, link by link, if every name is one and every argument
list stands on its own. Such a chain is one statement.
-/

namespace Parlance.Source

/-! ## 1. Names -/

def isName : Text → Bool
  | [] => false
  | c :: rest => isNameStart c && rest.all isNamePart

theorem isPlain_of_isNamePart : ∀ c, isNamePart c = true → isPlain c = true :=
  isPlain_of_holds (by decide) (by decide) (by decide) (by decide)

theorem isNamePart_of_isNameStart {c : Char} (h : isNameStart c = true) : isNamePart c = true := by
  simp [isNamePart, h]

theorem all_isNamePart {name : Text} (h : isName name = true) : name.all isNamePart = true := by
  cases name with
  | nil => exact absurd h (by decide)
  | cons c rest =>
    simp only [isName, Bool.and_eq_true] at h
    rw [List.all_cons, isNamePart_of_isNameStart h.1, h.2]
    rfl

theorem isCodeBlank_of_isNamePart {c : Char} (h : isNamePart c = true) : isCodeBlank c = false := by
  cases hb : isCodeBlank c with
  | false => rfl
  | true =>
    simp only [isCodeBlank, Bool.or_eq_true, decide_eq_true_eq] at hb
    rcases hb with (((rfl | rfl) | rfl) | rfl) | rfl <;> exact absurd h (by decide)

theorem isNamePart_of_isCodeBlank {c : Char} (h : isCodeBlank c = true) : isNamePart c = false := by
  cases hpart : isNamePart c with
  | false => rfl
  | true => exact absurd (isCodeBlank_of_isNamePart hpart) (by simp [h])

theorem skipBlanks_append {gap tail : Text} (hgap : gap.all isCodeBlank = true)
    (htail : tail.head?.all (!isCodeBlank ·) = true) : skipBlanks (gap ++ tail) = tail := by
  unfold skipBlanks
  rw [List.dropWhile_append_of_pos (List.all_eq_true.1 hgap)]
  exact (Text.splitWhile_of_head htail).2

/-- A name is read up to the first character that is neither part of it nor a blank. -/
theorem splitName_append {name gap tail : Text} (h : isName name = true)
    (hgap : gap.all isCodeBlank = true)
    (htail : tail.head?.all (fun c => !isNamePart c && !isCodeBlank c) = true) :
    splitName (name ++ (gap ++ tail)) = some (name, tail) := by
  cases name with
  | nil => exact absurd h (by decide)
  | cons c rest =>
    simp only [isName, Bool.and_eq_true] at h
    have hall : ∀ d ∈ rest, isNamePart d = true := List.all_eq_true.1 h.2
    have htail : tail.head?.all (!isNamePart ·) = true ∧ tail.head?.all (!isCodeBlank ·) = true := by
      cases tail with
      | nil => exact ⟨rfl, rfl⟩
      | cons d tail => simpa using htail
    -- the blanks stop the name, or else the tail does
    have hstop : (gap ++ tail).head?.all (!isNamePart ·) = true := by
      cases gap with
      | nil => exact htail.1
      | cons d gap =>
        have hd := isNamePart_of_isCodeBlank (List.all_eq_true.1 hgap d List.mem_cons_self)
        simp [hd]
    obtain ⟨htake, hdrop⟩ := Text.splitWhile_of_head hstop
    rw [List.cons_append, splitName, if_pos h.1, List.takeWhile_append_of_pos hall,
      List.dropWhile_append_of_pos hall, htake, hdrop, List.append_nil,
      skipBlanks_append hgap htail.2]

/-! ## 2. Links -/

/-- What follows the name of a link: its arguments in parentheses, if it is a call. -/
def Link.callText (l : Link) : Text :=
  match l.args with
  | some args => '(' :: args ++ [')']
  | none => []

def Link.text (l : Link) : Text := l.name ++ l.callText

/-- A link whose name is one and whose arguments end where their parenthesis closes. -/
structure Link.IsReadable (l : Link) : Prop where
  name : isName l.name = true
  args : ∀ args, l.args = some args → IsArgumentList args

/-- A link whose name is one and whose arguments stand on their own. -/
structure Link.IsSound (l : Link) : Prop where
  name : isName l.name = true
  args : ∀ args, l.args = some args → SelfContained args

theorem Link.IsSound.isReadable {l : Link} (h : l.IsSound) : l.IsReadable where
  name := h.name
  args args hargs := (h.args args hargs).isArgumentList

theorem Link.IsSound.property {name : Text} (hname : isName name = true) :
    Link.IsSound ⟨name, none⟩ where
  name := hname
  args args h := absurd h (by simp)

theorem Link.IsSound.call {name args : Text} (hname : isName name = true)
    (hargs : SelfContained args) : Link.IsSound ⟨name, some args⟩ where
  name := hname
  args _ ha := Option.some.inj ha ▸ hargs

/-- Where a chain ends or goes on, no name goes on and no blank stands. -/
theorem stops_of_dot {tail : Text} (h : tail.head?.all (· = '.') = true) :
    tail.head?.all (fun c => !isNamePart c && !isCodeBlank c) = true ∧
      tail.head?.all (!isCodeBlank ·) = true ∧ splitCall tail = some (none, tail) := by
  cases tail with
  | nil => exact ⟨rfl, rfl, rfl⟩
  | cons c tail =>
    obtain rfl : c = '.' := by simpa using h
    exact ⟨rfl, rfl, rfl⟩

/-- The name and the arguments of a link are told apart if the chain ends or goes on behind it. -/
theorem Link.IsReadable.split {l : Link} (h : l.IsReadable) {tail : Text}
    (htail : tail.head?.all (· = '.') = true) :
    splitName (l.text ++ tail) = some (l.name, l.callText ++ tail) ∧
      splitCall (l.callText ++ tail) = some (l.args, tail) := by
  obtain ⟨hstop, hblank, hproperty⟩ := stops_of_dot htail
  obtain ⟨name, args⟩ := l
  unfold Link.text
  rw [List.append_assoc]
  cases args with
  | none => exact ⟨@splitName_append _ [] _ h.name rfl hstop, hproperty⟩
  | some args =>
    have hskip : skipBlanks tail = tail := @skipBlanks_append [] tail rfl hblank
    refine ⟨@splitName_append _ [] _ h.name rfl rfl, ?_⟩
    show splitCall ('(' :: (args ++ [')'] ++ tail)) = _
    rw [List.append_assoc, List.singleton_append, splitCall,
      (h.args args rfl).enclosed?_append (show isCloser ')' = true by decide)]
    simp only [Option.map_some, hskip]

/-- A chain ends behind the link that is all there is. -/
theorem readLinks_of_end {t name after : Text} {args : Option Text}
    (hn : splitName t = some (name, after)) (hc : splitCall after = some (args, [])) :
    readLinks t = some [⟨name, args⟩] := by
  rw [readLinks]
  split
  · simp_all
  · rename_i n a hn'
    rw [hn] at hn'
    obtain ⟨rfl, rfl⟩ := Prod.mk.inj (Option.some.inj hn')
    split <;> simp_all

/-- A chain goes on behind a dot. -/
theorem readLinks_of_dot {t name after tail : Text} {args : Option Text}
    (hn : splitName t = some (name, after)) (hc : splitCall after = some (args, '.' :: tail)) :
    readLinks t = (readLinks (skipBlanks tail)).map (⟨name, args⟩ :: ·) := by
  rw [readLinks]
  split
  · simp_all
  · rename_i n a hn'
    rw [hn] at hn'
    obtain ⟨rfl, rfl⟩ := Prod.mk.inj (Option.some.inj hn')
    split <;> simp_all

theorem readLinks_text {l : Link} (h : l.IsReadable) : readLinks l.text = some [l] := by
  have hs := @Link.IsReadable.split l h [] rfl
  rw [List.append_nil, List.append_nil] at hs
  rw [readLinks_of_end hs.1 hs.2]

theorem readLinks_text_dot {l : Link} (h : l.IsReadable) (tail : Text) :
    readLinks (l.text ++ '.' :: tail) = (readLinks (skipBlanks tail)).map (l :: ·) := by
  have hs := @Link.IsReadable.split l h ('.' :: tail) rfl
  rw [readLinks_of_dot hs.1 hs.2]

/-! ## 3. Chains -/

/-- A chain as it is written: its root, and the other links each behind a dot. -/
def chainText (root : Link) (links : List Link) : Text :=
  root.text ++ links.flatMap fun l => '.' :: l.text

@[simp] theorem chainText_nil (root : Link) : chainText root [] = root.text := by
  simp [chainText]

@[simp] theorem chainText_cons (root l : Link) (links : List Link) :
    chainText root (l :: links) = root.text ++ '.' :: chainText l links := by
  simp [chainText]

theorem chainText_concat (root : Link) (links : List Link) (l : Link) :
    chainText root (links ++ [l]) = chainText root links ++ '.' :: l.text := by
  simp [chainText]

theorem Link.IsReadable.head_text {l : Link} (h : l.IsReadable) (tail : Text) :
    ∃ c rest, l.text ++ tail = c :: rest ∧ isNameStart c = true := by
  obtain ⟨name, args⟩ := l
  have hname := h.name
  cases name with
  | nil => exact absurd hname Bool.false_ne_true
  | cons c name =>
    simp only [isName, Bool.and_eq_true] at hname
    exact ⟨c, _, rfl, hname.1⟩

theorem skipBlanks_chainText {root : Link} (h : root.IsReadable) (links : List Link) :
    skipBlanks (chainText root links) = chainText root links := by
  obtain ⟨c, rest, ht, hc⟩ := h.head_text (links.flatMap fun l => '.' :: l.text)
  have hblank := isCodeBlank_of_isNamePart (isNamePart_of_isNameStart hc)
  unfold chainText
  rw [ht, skipBlanks, List.dropWhile_cons, if_neg (by simp [hblank])]

theorem readLinks_chainText {root : Link} {links : List Link} (hroot : root.IsReadable)
    (hlinks : ∀ l ∈ links, l.IsReadable) : readLinks (chainText root links) = some (root :: links) := by
  induction links generalizing root with
  | nil =>
    rw [chainText_nil]
    exact readLinks_text hroot
  | cons l links ih =>
    have hl := hlinks l List.mem_cons_self
    rw [chainText_cons, readLinks_text_dot hroot, skipBlanks_chainText hl,
      ih hl fun k hk => hlinks k (List.mem_cons_of_mem l hk)]
    rfl

/-- A chain is read back as it is written. -/
theorem readChain_chainText {root : Link} {links : List Link} (hroot : root.IsReadable)
    (hlinks : ∀ l ∈ links, l.IsReadable) : readChain (chainText root links) = some (root :: links) := by
  unfold readChain
  rw [skipBlanks_chainText hroot, readLinks_chainText hroot hlinks]

/-! ## 4. Chains as statements -/

/-- A text that is not cut into statements, and leaves nothing open. -/
structure Undivided (t : Text) : Prop where
  mode : finalMode t = .code
  marks : Unbroken Mark.boundsStatement (marks t)

theorem Undivided.selfContained {t : Text} (h : Undivided t) : SelfContained t :=
  ⟨h.mode, h.marks.nested⟩

/-- Whether a character of code neither opens or closes anything nor bounds a statement. -/
def isFlat (c : Char) : Bool :=
  isPlain c && !isOpener c && !isCloser c && c ≠ ';' && c ≠ '\n'

theorem isFlat_of_holds {p : Char → Bool}
    (hp : ['(', '[', '\x7b', ')', ']', '\x7d'].all (!p ·) = true)
    (hplain : ∀ c, p c = true → isPlain c = true) (hs : p ';' = false) (hn : p '\n' = false)
    (c : Char) (h : p c = true) : isFlat c = true := by
  have hbracket := not_bracket_of_holds hp h
  have hne (d : Char) (hd : p d = false) : c ≠ d := of_decide_eq_true (Text.ne_of_holds hd c h)
  simp [isFlat, hplain c h, hbracket, hne _ hs, hne _ hn]

theorem isFlat_of_isNamePart : ∀ c, isNamePart c = true → isFlat c = true :=
  isFlat_of_holds (by decide) isPlain_of_isNamePart (by decide) (by decide)

theorem isPlain_of_isFlat : ∀ c, isFlat c = true → isPlain c = true := by
  intro c h
  simp only [isFlat, Bool.and_eq_true] at h
  exact h.1.1.1.1

theorem unbroken_flat {s : Text} (hs : s.all isFlat = true) :
    Unbroken Mark.boundsStatement (s.map codeMark) := by
  apply unbroken_of_flat
  intro m hm
  obtain ⟨c, hc, rfl⟩ := List.mem_map.1 hm
  have h := List.all_eq_true.1 hs c hc
  simp only [isFlat, Bool.and_eq_true, Bool.not_eq_true', ne_eq, decide_eq_true_eq] at h
  simp [Mark.opens, Mark.closes, Mark.boundsStatement, Mark.isCode, codeMark, h]

theorem Undivided.flat_append {s t : Text} (hs : s.all isFlat = true) (ht : Undivided t) :
    Undivided (s ++ t) := by
  have hplain := Text.all_mono isPlain_of_isFlat hs
  refine ⟨?_, ?_⟩
  · rw [finalMode_plain_append hplain]
    exact ht.mode
  · rw [marks_plain_append hplain]
    exact (unbroken_flat hs).append ht.marks

theorem undivided_nil : Undivided [] := ⟨rfl, .nil⟩

/-- A pair of parentheses does not divide a text, whatever stands between them. -/
theorem Undivided.parenthesis {args t : Text} (hargs : SelfContained args) (ht : Undivided t) :
    Undivided ('(' :: args ++ ')' :: t) := by
  have hmarks : Source.marks ('(' :: args ++ ')' :: t) =
      codeMark '(' :: (Source.marks args ++ codeMark ')' :: Source.marks t) := by
    rw [List.cons_append, marks_plain_cons (by decide),
      hargs.marks_append_cons (by decide) (by decide)]
  refine ⟨?_, ?_⟩
  · rw [List.cons_append, finalMode_plain_cons (by decide),
      hargs.finalMode_append_cons (by decide) (by decide)]
    exact ht.mode
  · rw [hmarks]
    exact .bracket (by decide) (by decide) hargs.nested ht.marks

theorem Link.IsSound.undivided_append {l : Link} (h : l.IsSound) {t : Text} (ht : Undivided t) :
    Undivided (l.text ++ t) := by
  obtain ⟨name, args⟩ := l
  have hflat : name.all isFlat = true :=
    Text.all_mono isFlat_of_isNamePart (all_isNamePart h.name)
  unfold Link.text
  rw [List.append_assoc]
  cases args with
  | none => exact ht.flat_append hflat
  | some args =>
    have hcall := Undivided.parenthesis (h.args args rfl) ht
    show Undivided (name ++ ('(' :: args ++ [')'] ++ t))
    rw [List.append_assoc, List.singleton_append]
    exact hcall.flat_append hflat

theorem undivided_chainText {root : Link} {links : List Link} (hroot : root.IsSound)
    (hlinks : ∀ l ∈ links, l.IsSound) : Undivided (chainText root links) := by
  induction links generalizing root with
  | nil =>
    rw [chainText_nil, ← List.append_nil root.text]
    exact hroot.undivided_append undivided_nil
  | cons l links ih =>
    have htail := ih (hlinks l List.mem_cons_self)
      fun k hk => hlinks k (List.mem_cons_of_mem l hk)
    have hdot : Undivided ('.' :: chainText l links) :=
      Undivided.flat_append (show ['.'].all isFlat = true by decide) htail
    rw [chainText_cons]
    exact hroot.undivided_append hdot

theorem isBlank_of_isNamePart {c : Char} (h : isNamePart c = true) : isBlank c = false := by
  simp only [isNamePart, isNameStart, Bool.or_eq_true, decide_eq_true_eq] at h
  rcases h with ((rfl | rfl) | h) | h
  · decide
  · decide
  all_goals exact Text.isBlank_of_isAlphanum (by simp [Char.isAlphanum, h])

theorem Link.IsReadable.last_text {l : Link} (h : l.IsReadable) :
    l.text ≠ [] ∧ l.text.getLast?.all (!isBlank ·) = true := by
  obtain ⟨c, rest, ht, -⟩ := h.head_text []
  rw [List.append_nil] at ht
  refine ⟨by rw [ht]; simp, ?_⟩
  obtain ⟨name, args⟩ := l
  unfold Link.text
  cases args with
  | some args =>
    have hcall : (Link.callText ⟨name, some args⟩).getLast? = some ')' := List.getLast?_concat
    apply Text.last_append
    · intro hnil
      rw [hnil] at hcall
      simp at hcall
    · rw [hcall]
      decide
  | none =>
    show (name ++ []).getLast?.all _ = true
    rw [List.append_nil]
    cases hl : name.getLast? with
    | none => rfl
    | some d =>
      have hd := List.all_eq_true.1 (all_isNamePart h.name) d (List.mem_of_getLast? hl)
      simp [isBlank_of_isNamePart hd]

theorem isTrimmed_chainText {root : Link} {links : List Link} (hroot : root.IsReadable)
    (hlinks : ∀ l ∈ links, l.IsReadable) : Text.IsTrimmed (chainText root links) := by
  have hlast : chainText root links ≠ [] ∧
      (chainText root links).getLast?.all (!isBlank ·) = true := by
    induction links generalizing root with
    | nil =>
      rw [chainText_nil]
      exact hroot.last_text
    | cons l links ih =>
      obtain ⟨hne, htail⟩ := ih (hlinks l List.mem_cons_self)
        fun k hk => hlinks k (List.mem_cons_of_mem l hk)
      rw [chainText_cons]
      refine ⟨by simp, Text.last_append (by simp) ?_⟩
      exact @Text.last_append _ ['.'] _ hne htail
  refine ⟨?_, hlast.2⟩
  obtain ⟨c, rest, ht, hc⟩ := hroot.head_text (links.flatMap fun l => '.' :: l.text)
  unfold chainText
  rw [ht]
  simp [isBlank_of_isNamePart (isNamePart_of_isNameStart hc)]

/-! ## 5. What has been read as a chain -/

theorem exists_skipBlanks (t : Text) :
    ∃ gap, gap.all isCodeBlank = true ∧ t = gap ++ skipBlanks t :=
  ⟨t.takeWhile isCodeBlank, List.all_takeWhile, List.takeWhile_append_dropWhile.symm⟩

theorem exists_of_splitName {t name rest : Text} (h : splitName t = some (name, rest)) :
    ∃ gap, gap.all isCodeBlank = true ∧ t = name ++ gap ++ rest := by
  unfold splitName at h
  split at h
  · simp at h
  · rename_i c tail
    split at h
    · obtain ⟨rfl, rfl⟩ := Prod.mk.inj (Option.some.inj h)
      obtain ⟨gap, hgap, htail⟩ := exists_skipBlanks (tail.dropWhile isNamePart)
      refine ⟨gap, hgap, ?_⟩
      rw [List.append_assoc, ← htail, List.cons_append, List.takeWhile_append_dropWhile]
    · simp at h

/-- What follows a name is an argument list, with blanks behind it, or no part of the link. -/
theorem splitCall_cases {t rest : Text} {args : Option Text} (h : splitCall t = some (args, rest)) :
    (args = none ∧ t = rest) ∨
      ∃ inner tail after gap, args = some inner ∧ t = '(' :: tail ∧
        enclosed? tail = some (inner, after) ∧ gap.all isCodeBlank = true ∧
          after = gap ++ rest := by
  unfold splitCall at h
  split at h
  · rename_i tail
    obtain ⟨⟨inner, after⟩, hs, he⟩ := Option.map_eq_some_iff.1 h
    obtain ⟨rfl, rfl⟩ := Prod.mk.inj he
    obtain ⟨gap, hgap, hafter⟩ := exists_skipBlanks after
    exact .inr ⟨inner, tail, after, gap, rfl, rfl, hs, hgap, hafter⟩
  · obtain ⟨rfl, rfl⟩ := Prod.mk.inj (Option.some.inj h)
    exact .inl ⟨rfl, rfl⟩

/-- The first link of a chain, and what the chain goes on with. -/
theorem readLinks_cases {t : Text} {links : List Link} (h : readLinks t = some links) :
    ∃ l after rest more, links = l :: more ∧ splitName t = some (l.name, after) ∧
      splitCall after = some (l.args, rest) ∧
        ((rest = [] ∧ more = []) ∨
          ∃ tail, rest = '.' :: tail ∧ readLinks (skipBlanks tail) = some more) := by
  rw [readLinks] at h
  split at h
  · simp at h
  · rename_i name after hn
    split at h
    · simp at h
    · rename_i args hc
      obtain rfl := Option.some.inj h
      exact ⟨⟨name, args⟩, after, [], [], rfl, hn, hc, .inl ⟨rfl, rfl⟩⟩
    · rename_i args tail hc
      obtain ⟨more, hmore, rfl⟩ := Option.map_eq_some_iff.1 h
      exact ⟨⟨name, args⟩, after, '.' :: tail, more, rfl, hn, hc, .inr ⟨tail, rfl, hmore⟩⟩
    · simp at h

/-- The name of a call stands before its opening parenthesis. -/
theorem exists_open_of_call {t after rest : Text} {l : Link}
    (hn : splitName t = some (l.name, after)) (hc : splitCall after = some (l.args, rest))
    (hcall : l.args.isSome = true) :
    ∃ gap tail, gap.all isCodeBlank = true ∧ t = l.name ++ gap ++ '(' :: tail := by
  obtain ⟨gap, hgap, ht⟩ := exists_of_splitName hn
  rcases splitCall_cases hc with ⟨hnone, -⟩ | ⟨inner, tail, -, -, -, rfl, -⟩
  · rw [hnone] at hcall
    exact absurd hcall Bool.false_ne_true
  · exact ⟨gap, tail, hgap, ht⟩

theorem exists_rest_of_link {t name after rest : Text} {args : Option Text}
    (hn : splitName t = some (name, after)) (hc : splitCall after = some (args, rest)) :
    ∃ before, t = before ++ rest := by
  obtain ⟨gap, -, ht⟩ := exists_of_splitName hn
  rcases splitCall_cases hc with ⟨-, rfl⟩ | ⟨inner, tail, behind, blanks, -, rfl, hs, -, rfl⟩
  · exact ⟨name ++ gap, ht⟩
  · obtain ⟨-, c, -, rfl⟩ := of_enclosed? hs
    refine ⟨name ++ gap ++ '(' :: (inner ++ c :: blanks), ?_⟩
    rw [ht]
    simp

/-- Every call of a chain but the first stands behind a dot. -/
theorem exists_dot_of_mem {t : Text} {root : Link} {links : List Link}
    (h : readLinks t = some (root :: links)) {l : Link} (hl : l ∈ links)
    (hcall : l.args.isSome = true) :
    ∃ before gap gap' after, gap.all isCodeBlank = true ∧ gap'.all isCodeBlank = true ∧
      t = before ++ '.' :: (gap ++ l.name ++ gap' ++ '(' :: after) := by
  induction links generalizing t root with
  | nil => exact absurd hl List.not_mem_nil
  | cons k links ih =>
    obtain ⟨r, after, rest, more, heq, hn, hc, htail⟩ := readLinks_cases h
    obtain ⟨rfl, rfl⟩ := List.cons.inj heq
    obtain ⟨before, ht⟩ := exists_rest_of_link hn hc
    rcases htail with ⟨-, hnil⟩ | ⟨tail, rfl, hmore⟩
    · exact absurd hnil (by simp)
    -- what follows the first link stands behind a dot, since the chain goes on
    obtain ⟨gap, hgap, hskip⟩ := exists_skipBlanks tail
    rcases List.mem_cons.1 hl with rfl | hl
    · -- the link right behind this dot
      obtain ⟨k, after', rest', more', heq', hn', hc', -⟩ := readLinks_cases hmore
      obtain ⟨rfl, -⟩ := List.cons.inj heq'
      obtain ⟨gap', tail', hgap', hopen⟩ := exists_open_of_call hn' hc' hcall
      refine ⟨before, gap, gap', tail', hgap, hgap', ?_⟩
      rw [ht, hskip, hopen]
      simp
    · obtain ⟨before', gap₁, gap₂, after', h₁, h₂, hs⟩ := ih hmore hl
      refine ⟨before ++ '.' :: (gap ++ before'), gap₁, gap₂, after', h₁, h₂, ?_⟩
      rw [ht, hskip, hs]
      simp

theorem args_length_of_readLinks {t : Text} {root : Link} {links : List Link}
    (h : readLinks t = some (root :: links)) {args : Text} (hargs : root.args = some args) :
    args.length < t.length := by
  obtain ⟨l, after, rest, more, heq, hn, hc, -⟩ := readLinks_cases h
  obtain ⟨rfl, rfl⟩ := List.cons.inj heq
  have hname := splitName_length hn
  rcases splitCall_cases hc with ⟨hnone, -⟩ | ⟨inner, tail, behind, gap, hsome, rfl, hs, -, -⟩
  · rw [hnone] at hargs
    exact absurd hargs (by simp)
  · rw [hsome] at hargs
    obtain rfl := Option.some.inj hargs
    have hlength := enclosed?_length hs
    simp only [List.length_cons] at hname
    omega

/-! ## 6. Blanks around a chain -/

theorem isName_of_splitName {t name rest : Text} (h : splitName t = some (name, rest)) :
    isName name = true := by
  unfold splitName at h
  split at h
  · simp at h
  · split at h
    · rename_i hc
      obtain ⟨rfl, -⟩ := Prod.mk.inj (Option.some.inj h)
      rw [isName, hc, List.all_takeWhile]
      rfl
    · simp at h

/-- The part of a text that is its first link is read as this link with any blanks behind it, at the
end of the text or before a dot. -/
theorem exists_core {t after rest : Text} {l : Link} (hn : splitName t = some (l.name, after))
    (hc : splitCall after = some (l.args, rest)) :
    ∃ core gap, gap.all isCodeBlank = true ∧ t = core ++ (gap ++ rest) ∧
      core.getLast?.any (!isBlank ·) = true ∧
        ∀ gap' rest', gap'.all isCodeBlank = true → rest'.head?.all (· = '.') = true →
          ∃ after', splitName (core ++ (gap' ++ rest')) = some (l.name, after') ∧
            splitCall after' = some (l.args, rest') := by
  have hname := isName_of_splitName hn
  obtain ⟨gap, hgap, ht⟩ := exists_of_splitName hn
  rcases splitCall_cases hc with ⟨hargs, rfl⟩ | ⟨inner, tail, behind, gap', hargs, rfl, hs, hgap', rfl⟩
  -- a property: the name is all of it
  · refine ⟨l.name, gap, hgap, by rw [ht, List.append_assoc], ?_, ?_⟩
    · cases hl : l.name.getLast? with
      | none =>
        rw [List.getLast?_eq_none_iff] at hl
        rw [hl] at hname
        exact absurd hname (by decide)
      | some c =>
        have hpart := List.all_eq_true.1 (all_isNamePart hname) c (List.mem_of_getLast? hl)
        simp [isBlank_of_isNamePart hpart]
    · intro gap' rest' hgap' hrest
      obtain ⟨hstop, -, hproperty⟩ := stops_of_dot hrest
      exact ⟨rest', splitName_append hname hgap' hstop, hargs ▸ hproperty⟩
  · obtain ⟨hlist, c, hcloser, rfl⟩ := of_enclosed? hs
    -- a call: up to the closer of its arguments
    refine ⟨l.name ++ (gap ++ '(' :: (inner ++ [c])), gap', hgap', by rw [ht]; simp, ?_, ?_⟩
    · simp [List.getLast?_append, List.getLast?_cons, isBlank_of_isCloser hcloser]
    · intro gap₁ rest₁ hgap₁ hrest₁
      refine ⟨'(' :: (inner ++ c :: (gap₁ ++ rest₁)), ?_, ?_⟩
      · have h := @splitName_append _ _ ('(' :: (inner ++ c :: (gap₁ ++ rest₁))) hname hgap rfl
        simpa using h
      · rw [splitCall, hlist.enclosed?_append hcloser, hargs]
        simp [skipBlanks_append hgap₁ (stops_of_dot hrest₁).2.1]

theorem exists_head_of_readLinks {t : Text} {links : List Link} (h : readLinks t = some links) :
    ∃ c rest, t = c :: rest ∧ isNameStart c = true := by
  obtain ⟨l, after, rest, more, -, hn, -, -⟩ := readLinks_cases h
  unfold splitName at hn
  split at hn
  · simp at hn
  · rename_i c tail
    split at hn
    · exact ⟨c, tail, rfl, ‹_›⟩
    · simp at hn

/-- Blanks at the end of a chain make no difference. -/
theorem readLinks_trimEnd {t : Text} {links : List Link} (h : readLinks t = some links) :
    readLinks (Text.trimEnd t) = some links := by
  induction links generalizing t with
  | nil =>
    obtain ⟨l, after, rest, more, hnil, -⟩ := readLinks_cases h
    exact absurd hnil (by simp)
  | cons l more ih =>
    obtain ⟨l, after, rest, more, heq, hn, hc, htail⟩ := readLinks_cases h
    obtain ⟨rfl, rfl⟩ := List.cons.inj heq
    obtain ⟨core, gap, hgap, rfl, hlast, hread⟩ := exists_core hn hc
    have hblank := Text.all_mono (fun _ => isBlank_of_isCodeBlank) hgap
    rcases htail with ⟨rfl, rfl⟩ | ⟨tail, rfl, hmore⟩
    · obtain ⟨after', hn', hc'⟩ := hread [] [] rfl rfl
      rw [List.append_nil, Text.trimEnd_append_blanks hlast hblank]
      rw [List.append_nil, List.append_nil] at hn'
      exact readLinks_of_end hn' hc'
    · -- the dot ends the blanks before it
      obtain ⟨after', hn', hc'⟩ := hread gap ('.' :: Text.trimEnd tail) hgap rfl
      obtain ⟨c, x, hx, hstart⟩ := exists_head_of_readLinks hmore
      have hpart := isNamePart_of_isNameStart hstart
      obtain ⟨gap', hgap', hskip⟩ := exists_skipBlanks tail
      have htrim : skipBlanks (Text.trimEnd tail) = Text.trimEnd (skipBlanks tail) := by
        rw [hskip, hx, Text.trimEnd_append_cons (isBlank_of_isNamePart hpart),
          skipBlanks_append hgap' (by simp [isCodeBlank_of_isNamePart hpart]), ← hx, ← hskip, hx,
          Text.trimEnd_cons (isBlank_of_isNamePart hpart)]
      rw [← List.append_assoc, Text.trimEnd_append_cons (by decide), List.append_assoc,
        readLinks_of_dot hn' hc', htrim, ih hmore]
      rfl

/-- Blanks around a chain make no difference. -/
theorem readChain_trim {t : Text} {links : List Link} (h : readChain t = some links) :
    readChain (Text.trim t) = some links := by
  unfold readChain at h ⊢
  obtain ⟨c, x, hx, hstart⟩ := exists_head_of_readLinks h
  have hpart := isNamePart_of_isNameStart hstart
  obtain ⟨gap, hgap, hskip⟩ := exists_skipBlanks t
  have hblank := Text.all_mono (fun _ => isBlank_of_isCodeBlank) hgap
  have htrim : Text.trim t = Text.trimEnd (c :: x) := by
    unfold Text.trim Text.trimStart
    rw [hskip, List.dropWhile_append_of_pos (List.all_eq_true.1 hblank), hx,
      List.dropWhile_cons, if_neg (by simp [isBlank_of_isNamePart hpart])]
  have hkept := @skipBlanks_append [] (Text.trim t) rfl (by
    rw [htrim, Text.trimEnd_cons (isBlank_of_isNamePart hpart)]
    simp [isCodeBlank_of_isNamePart hpart])
  rw [List.nil_append] at hkept
  rw [hkept, htrim, ← hx]
  exact readLinks_trimEnd h

end Parlance.Source
