import Parlance.Proofs.Chain

/-!
All the ways to write a call chain. Names are joined by dots, and blanks may stand around every name,
parenthesis and dot. A text is read as a chain exactly if it is one of these spellings, so reading is
known from the links alone, and a chain that has been read can be written down again without any
blanks.
-/

namespace Parlance.Source

instance (l : Link) : Decidable l.IsReadable :=
  decidable_of_iff (isName l.name = true ∧ ∀ args ∈ l.args, IsArgumentList args)
    ⟨fun h => ⟨h.1, h.2⟩, fun h => ⟨h.name, h.args⟩⟩

/-! ## 1. Spellings -/

/-- How a link may be written: with blanks before its name, behind it and behind its arguments. All
kinds of brackets count together, so any closer ends the arguments. -/
inductive Link.Spelling : Link → Text → Prop
  | property {name before behind : Text} (hbefore : before.all isCodeBlank = true)
      (hbehind : behind.all isCodeBlank = true) :
      Link.Spelling ⟨name, none⟩ (before ++ (name ++ behind))
  | call {name args before gap behind : Text} {closer : Char}
      (hbefore : before.all isCodeBlank = true) (hgap : gap.all isCodeBlank = true)
      (hcloser : isCloser closer = true) (hbehind : behind.all isCodeBlank = true) :
      Link.Spelling ⟨name, some args⟩
        (before ++ (name ++ (gap ++ '(' :: (args ++ closer :: behind))))

/-- How the links of a chain may be written: each as it may be, with a dot between neighbours. -/
inductive ChainSpelling : List Link → Text → Prop
  | last {l : Link} {s : Text} (h : l.Spelling s) : ChainSpelling [l] s
  | dot {l : Link} {s t : Text} {links : List Link} (h : l.Spelling s)
      (more : ChainSpelling links t) : ChainSpelling (l :: links) (s ++ '.' :: t)

theorem Link.spelling_text (l : Link) : l.Spelling l.text := by
  obtain ⟨name, args⟩ := l
  cases args with
  | none => exact @Link.Spelling.property name [] [] rfl rfl
  | some args => exact @Link.Spelling.call name args [] [] [] ')' rfl rfl (by decide) rfl

theorem chainSpelling_join {links : List Link} (h : links ≠ []) :
    ChainSpelling links (Text.join ['.'] (links.map Link.text)) := by
  induction links with
  | nil => exact absurd rfl h
  | cons l links ih =>
    cases links with
    | nil =>
      rw [List.map_singleton, Text.join, List.intercalate_singleton]
      exact .last l.spelling_text
    | cons k links =>
      rw [List.map_cons, List.map_cons, Text.join, List.intercalate_cons_cons, List.append_assoc]
      exact .dot l.spelling_text (ih (List.cons_ne_nil k links))

/-! ## 2. Spellings are read -/

theorem skipBlanks_name {before name : Text} (hbefore : before.all isCodeBlank = true)
    (hname : isName name = true) (tail : Text) :
    skipBlanks (before ++ (name ++ tail)) = name ++ tail := by
  apply skipBlanks_append hbefore
  cases name with
  | nil => exact absurd hname Bool.false_ne_true
  | cons c name =>
    simp only [isName, Bool.and_eq_true] at hname
    simp [isCodeBlank_of_isNamePart (isNamePart_of_isNameStart hname.1)]

/-- The name and the arguments of a link are told apart in each of its spellings. -/
theorem Link.Spelling.split {l : Link} {s : Text} (h : l.Spelling s) (hl : l.IsReadable)
    (tail : Text) (htail : tail.head?.all (· = '.') = true) :
    ∃ after, splitName (skipBlanks (s ++ tail)) = some (l.name, after) ∧
      splitCall after = some (l.args, tail) := by
  obtain ⟨hstop, hblank, hproperty⟩ := stops_of_dot htail
  have hname := hl.name
  cases h with
  | @property name before behind hbefore hbehind =>
    refine ⟨tail, ?_, hproperty⟩
    rw [List.append_assoc, List.append_assoc, skipBlanks_name hbefore hname]
    exact splitName_append hname hbehind hstop
  | @call name args before gap behind closer hbefore hgap hcloser hbehind =>
    have htext : before ++ (name ++ (gap ++ '(' :: (args ++ closer :: behind))) ++ tail =
        before ++ (name ++ (gap ++ '(' :: (args ++ closer :: (behind ++ tail)))) := by simp
    refine ⟨'(' :: (args ++ closer :: (behind ++ tail)), ?_, ?_⟩
    · rw [htext, skipBlanks_name hbefore hname]
      exact splitName_append hname hgap rfl
    · rw [splitCall, (hl.args args rfl).enclosed?_append hcloser]
      simp only [Option.map_some, skipBlanks_append hbehind hblank]

theorem ChainSpelling.readChain_eq {links : List Link} {t : Text} (h : ChainSpelling links t)
    (hlinks : ∀ l ∈ links, l.IsReadable) : readChain t = some links := by
  unfold readChain
  induction h with
  | @last l s h =>
    obtain ⟨after, hn, hc⟩ := h.split (hlinks l List.mem_cons_self) [] rfl
    rw [List.append_nil] at hn
    exact readLinks_of_end hn hc
  | @dot l s t links h _ ih =>
    obtain ⟨after, hn, hc⟩ := h.split (hlinks l List.mem_cons_self) ('.' :: t) rfl
    rw [readLinks_of_dot hn hc, ih fun k hk => hlinks k (List.mem_cons_of_mem l hk)]
    rfl

/-! ## 3. What is read is a spelling -/

/-- The link that a chain begins with, behind the blanks that are skipped. -/
theorem exists_spelling {t after rest : Text} {l : Link}
    (hn : splitName (skipBlanks t) = some (l.name, after))
    (hc : splitCall after = some (l.args, rest)) :
    l.IsReadable ∧ ∃ s, l.Spelling s ∧ t = s ++ rest := by
  obtain ⟨before, hbefore, ht⟩ := exists_skipBlanks t
  obtain ⟨gap, hgap, hname⟩ := exists_of_splitName hn
  obtain ⟨name, args⟩ := l
  simp only at hn hc hname
  rw [hname] at ht
  rcases splitCall_cases hc with ⟨rfl, rfl⟩ | ⟨inner, tail, -, behind, rfl, rfl, hs, hbehind, rfl⟩
  · refine ⟨⟨isName_of_splitName hn, fun _ h => absurd h (by simp)⟩, _,
      .property hbefore hgap, ?_⟩
    rw [ht]
    simp
  · obtain ⟨hlist, closer, hcloser, rfl⟩ := of_enclosed? hs
    refine ⟨⟨isName_of_splitName hn, fun _ h => Option.some.inj h ▸ hlist⟩, _,
      .call hbefore hgap hcloser hbehind, ?_⟩
    rw [ht]
    simp

theorem chainSpelling_of_readChain {t : Text} {links : List Link}
    (h : readChain t = some links) : (∀ l ∈ links, l.IsReadable) ∧ ChainSpelling links t := by
  unfold readChain at h
  induction links generalizing t with
  | nil =>
    obtain ⟨_, _, _, _, hnil, -⟩ := readLinks_cases h
    exact absurd hnil (by simp)
  | cons first links ih =>
    obtain ⟨l, after, rest, more, heq, hn, hc, htail⟩ := readLinks_cases h
    obtain ⟨rfl, rfl⟩ := List.cons.inj heq
    obtain ⟨hl, s, hs, rfl⟩ := exists_spelling hn hc
    rcases htail with ⟨rfl, rfl⟩ | ⟨tail, rfl, hmore⟩
    · rw [List.append_nil]
      exact ⟨by simpa using hl, .last hs⟩
    · obtain ⟨hlinks, hspelling⟩ := ih hmore
      exact ⟨List.forall_mem_cons.2 ⟨hl, hlinks⟩, .dot hs hspelling⟩

theorem ChainSpelling.ne_nil {links : List Link} {t : Text} (h : ChainSpelling links t) :
    links ≠ [] := by
  cases h <;> exact List.cons_ne_nil _ _

/-- A text is read as a chain of some links exactly if it is a spelling of these links, each with a
name for its name and arguments that end where their parenthesis closes. What has been read is read
again from its links joined by dots without a blank. -/
theorem readChain_spellings (t : Text) (links : List Link) :
    (readChain t = some links ↔ (∀ l ∈ links, l.IsReadable) ∧ ChainSpelling links t) ∧
    (readChain t = some links →
      readChain (Text.join ['.'] (links.map Link.text)) = some links) := by
  refine ⟨⟨chainSpelling_of_readChain, fun ⟨hlinks, h⟩ => h.readChain_eq hlinks⟩, fun h => ?_⟩
  obtain ⟨hlinks, hspelling⟩ := chainSpelling_of_readChain h
  exact (chainSpelling_join hspelling.ne_nil).readChain_eq hlinks

/-- A chain with blanks wherever they may stand, and with closers in a literal and in a comment among
its arguments. -/
def looseChain : Text := " cy\n\t. get ( '.a)' /* ) */ ) .first".toList

/-- The links of this chain. -/
def looseLinks : List Link := [⟨"cy", none⟩, ⟨"get", some " '.a)' /* ) */ "⟩, ⟨"first", none⟩]

theorem readChain_spellings_looseChain :
    (∀ l ∈ looseLinks, l.IsReadable) ∧ ChainSpelling looseLinks looseChain ∧
      readChain looseChain = some looseLinks ∧
      readChain "cy.get( '.a)' /* ) */ ).first".toList = some looseLinks := by
  have hlinks : ∀ l ∈ looseLinks, l.IsReadable := by decide +kernel
  -- blanks around every name, parenthesis and dot but the last
  have hspelling : ChainSpelling looseLinks looseChain :=
    .dot (@Link.Spelling.property "cy" " " "\n\t" rfl rfl)
      (.dot (@Link.Spelling.call "get" " '.a)' /* ) */ " " " " " " " ')' rfl rfl rfl rfl)
        (.last (@Link.Spelling.property "first" [] [] rfl rfl)))
  have hread := (readChain_spellings looseChain looseLinks).1.2 ⟨hlinks, hspelling⟩
  exact ⟨hlinks, hspelling, hread, (readChain_spellings looseChain looseLinks).2 hread⟩

end Parlance.Source
