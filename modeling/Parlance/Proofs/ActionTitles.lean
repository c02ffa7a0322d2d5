import Parlance.Proofs.Targets

/-!
Titles of commands, written and read again. The value of a title stands behind the last `with`
between spaces, so that a title is read as it was written unless its value holds these words too.
-/

namespace Parlance

open Source

/-! ## 1. Labels -/

namespace Action

/-- Whether the words of a command begin a title and end with it or before a blank. -/
def isLabelOf (label title : Text) : Bool :=
  (Text.after? label title).any fun rest => rest.head?.all isBlank

theorem isLabelOf_iff {label title : Text} :
    isLabelOf label title = true ↔
      ∃ rest, title = label ++ rest ∧ rest.head?.all isBlank = true := by
  unfold isLabelOf
  rw [Option.any_eq_true]
  constructor
  · rintro ⟨rest, hrest, hblank⟩
    exact ⟨rest, Text.eq_append_of_after? hrest, hblank⟩
  · rintro ⟨rest, rfl, hblank⟩
    exact ⟨rest, Text.after?_append label rest, hblank⟩

/-- Words that go on behind those of a command on an element have one more word only. -/
theorem space_notMem_of_label {a b : Action} (ha : a.kind = .element) {label more : Text}
    (hb : b.label? = some label) (hmore : label = a.label ++ ' ' :: more) : ' ' ∉ more := by
  have hall : ∀ a ∈ all, a.kind = .element → ∀ b ∈ all, b.label?.all fun label =>
      (Text.after? (a.label ++ [' ']) label).all fun more => !more.contains ' ' := by
    decide +kernel
  have h := hall a (mem_all a) ha b (mem_all b)
  rw [hb, hmore, List.append_cons a.label ' ' more, Option.all_some, Text.after?_append,
    Option.all_some] at h
  simpa using h

/-- What stands behind another space has no say in which words begin a title. -/
theorem isLabelOf_append {a b : Action} (ha : a.kind = .element) {label : Text}
    (hb : b.label? = some label) (s tail : Text) :
    isLabelOf label (a.label ++ ' ' :: (s ++ ' ' :: tail)) =
      isLabelOf label (a.label ++ ' ' :: s) := by
  have hassoc : a.label ++ ' ' :: (s ++ ' ' :: tail) = (a.label ++ ' ' :: s) ++ ' ' :: tail := by
    simp
  rw [hassoc, Bool.eq_iff_iff, isLabelOf_iff, isLabelOf_iff]
  constructor
  · rintro ⟨rest, he, hrest⟩
    rcases List.append_eq_append_iff.1 he with ⟨extra, hlabel, hextra⟩ | ⟨front, hfront, rfl⟩
    · cases extra with
      | nil => exact ⟨[], by rw [hlabel]; simp, rfl⟩
      | cons c extra =>
        -- the words would reach over the space
        obtain ⟨rfl, -⟩ := List.cons.inj hextra
        have hmore : label = a.label ++ ' ' :: (s ++ ' ' :: extra) := by
          rw [hlabel]
          simp
        exact absurd (by simp) (space_notMem_of_label ha hb hmore)
    · refine ⟨front, hfront, ?_⟩
      cases front with
      | nil => rfl
      | cons c front => exact hrest
  · rintro ⟨rest, he, hrest⟩
    refine ⟨rest ++ ' ' :: tail, by rw [he, List.append_assoc], ?_⟩
    cases rest with
    | nil => rfl
    | cons c rest => exact hrest

/-- The commands whose words begin a title, with these words. -/
def labelsOf (title : Text) : List (Action × Text) :=
  all.filterMap fun a => (a.label?.filter (isLabelOf · title)).map (a, ·)

theorem ofTitle?_eq (title : Text) :
    ofTitle? title =
      (longest (labelsOf title)).map fun p => (p.1, Text.trim (title.drop p.2.length)) := rfl

theorem label_of_mem_labelsOf {a : Action} {label title : Text} (h : (a, label) ∈ labelsOf title) :
    label = a.label := by
  obtain ⟨b, -, hb⟩ := List.mem_filterMap.1 h
  obtain ⟨l, hl, he⟩ := Option.map_eq_some_iff.1 hb
  obtain ⟨rfl, rfl⟩ := Prod.mk.inj he
  rw [Action.label, (Option.filter_eq_some_iff.1 hl).1]
  rfl

theorem labelsOf_append {a : Action} (ha : a.kind = .element) (s tail : Text) :
    labelsOf (a.label ++ ' ' :: (s ++ ' ' :: tail)) = labelsOf (a.label ++ ' ' :: s) := by
  refine congrArg (List.filterMap · all) (funext fun b => ?_)
  cases hb : b.label? with
  | none => rfl
  | some label => rw [Option.filter_some, Option.filter_some, isLabelOf_append ha hb]

/-- A title begins with the same words, whatever is added behind another space. -/
theorem ofTitle?_append {a : Action} (ha : a.kind = .element) {s rest : Text}
    (h : ofTitle? (a.label ++ ' ' :: s) = some (a, rest)) (tail : Text) :
    rest = Text.trim s ∧
      ofTitle? (a.label ++ ' ' :: (s ++ ' ' :: tail)) = some (a, Text.trim (s ++ ' ' :: tail)) := by
  have hdrop (t : Text) : Text.trim ((a.label ++ ' ' :: t).drop a.label.length) = Text.trim t := by
    rw [List.drop_left, Text.trim_cons_blank (by decide)]
  rw [ofTitle?_eq] at h ⊢
  obtain ⟨⟨b, label⟩, hbest, he⟩ := Option.map_eq_some_iff.1 h
  obtain ⟨rfl, rfl⟩ := Prod.mk.inj he
  obtain rfl := label_of_mem_labelsOf ((longest_spec _).2 _ hbest)
  refine ⟨hdrop s, ?_⟩
  rw [labelsOf_append ha, hbest, Option.map_some, hdrop]

end Action

/-! ## 2. Values behind `with` -/

theorem startsWith_escaped {part : Text} (hpart : part.all (fun c => escapeValue c = [c]) = true)
    (t : Text) : Text.startsWith (t.flatMap escapeValue) part = Text.startsWith t part := by
  unfold Text.startsWith
  induction part generalizing t with
  | nil => cases t <;> rfl
  | cons p part ih =>
    simp only [List.all_cons, Bool.and_eq_true, decide_eq_true_eq] at hpart
    cases t with
    | nil => rfl
    | cons c t =>
      rw [List.flatMap_cons]
      rcases escapes_value c with ⟨d, he, -⟩ | ⟨he, -, -⟩
      · -- neither the backslash nor the character behind it is one of the part
        have hc : p ≠ c := by
          rintro rfl
          rw [hpart.1] at he
          exact absurd he (by simp)
        have hb : p ≠ '\\' := by
          rintro rfl
          exact absurd hpart.1 (by decide)
        rw [he, List.cons_append, List.isPrefixOf, List.isPrefixOf, beq_false_of_ne hb,
          beq_false_of_ne hc]
        rfl
      · rw [he, List.singleton_append, List.isPrefixOf, List.isPrefixOf, ih hpart.2]

/-- Escaping keeps the places where a part begins with a space. -/
theorem holds_escaped {part : Text} (hpart : part.all (fun c => escapeValue c = [c]) = true)
    (t : Text) : Text.holds (' ' :: part) (t.flatMap escapeValue) = Text.holds (' ' :: part) t := by
  have hspace : (' ' :: part).all (fun c => escapeValue c = [c]) = true := by
    rw [List.all_cons, hpart]
    rfl
  induction t with
  | nil => rfl
  | cons c t ih =>
    have hstart := startsWith_escaped hspace (c :: t)
    rw [Text.holds, ← hstart, ← ih, List.flatMap_cons]
    rcases escapes_value c with ⟨d, he, hd⟩ | ⟨he, -, -⟩
    · have hdspace : d ≠ ' ' := by
        rintro rfl
        obtain rfl : ' ' = c := hd
        exact absurd he (by decide)
      rw [he]
      simp [Text.holds, Text.startsWith, List.isPrefixOf, hdspace.symm]
    · rw [he, List.singleton_append, Text.holds]

theorem holds_quotedValue (v : Text) :
    Text.holds " with " (quotedValue v) = Text.holds " with " v := by
  have hescaped : Text.holds " with " (v.flatMap escapeValue) = Text.holds " with " v :=
    @holds_escaped "with ".toList (by decide) v
  rw [← hescaped, Bool.eq_iff_iff, Text.holds_iff_infix, Text.holds_iff_infix]
  constructor
  · intro h
    -- the quotes at both ends are no spaces
    rcases List.infix_cons_iff.1 h with ⟨_, hfirst⟩ | h
    · exact absurd (List.cons.inj hfirst).1 (by decide)
    · rcases List.infix_concat_iff.1 h with ⟨front, hlast⟩ | h
      · have hlast := congrArg List.getLast? hlast
        rw [List.getLast?_concat, List.getLast?_append] at hlast
        exact absurd (Option.some.inj hlast) (by decide)
      · exact h
  · intro h
    exact h.trans ⟨['"'], ['"'], rfl⟩

/-- A value is found behind the words in front of it, unless it holds them too. -/
theorem splitValue_append {v : Text} (hv : Text.holds " with " v = false) (s : Text) :
    splitValue (s ++ " with ".toList ++ quotedValue v) = (s, quotedValue v) := by
  have hagain : Text.holds " with " ("with ".toList ++ quotedValue v) = false := by
    have hquote : "with ".toList.isPrefixOf (quotedValue v) = false := rfl
    change Text.holds " with " ('w' :: 'i' :: 't' :: 'h' :: ' ' :: quotedValue v) = false
    rw [← holds_quotedValue] at hv
    simp only [Text.holds, hv]
    exact hquote
  have hcut : Text.splitLast? " with " (s ++ " with ".toList ++ quotedValue v) =
      some (s, quotedValue v) := @Text.splitLast?_append ' ' "with ".toList _ hagain s
  unfold splitValue
  simp only [hcut, (isTrimmed_quotedValue v).trim_eq]

/-- No quote opens a literal behind a blank inside a value: a quote there has a backslash before
it. -/
theorem unquote_of_quotedValue {v front back : Text} {c : Char} (hc : isBlank c = true)
    (h : quotedValue v = front ++ c :: back) : unquote back = none := by
  cases hvalue : unquote back with
  | none => rfl
  | some value =>
    obtain ⟨quote, inner, hq, -, ht, -⟩ := exists_literal_of_unquote hvalue
    obtain ⟨before, after, hbefore, hafter, hback⟩ := Text.exists_trim back
    have he : '"' :: v.flatMap escapeValue ++ '"' :: [] =
        (front ++ c :: (before ++ quote :: inner)) ++ quote :: after := by
      rw [ht] at hback
      rw [hback] at h
      simpa [quotedValue] using h
    obtain ⟨hbody, rfl, -⟩ :=
      Text.cut_last_unique he rfl hafter (by decide) (isBlank_of_isQuote hq)
    have hliteral := escapes_value.isLiteralBody_flatMap v
    cases front with
    | nil =>
      obtain ⟨rfl, -⟩ := List.cons.inj hbody
      exact absurd hc (by decide)
    | cons f front =>
      -- the last of the blanks would have to be a backslash
      obtain ⟨blanks, d, hlast⟩ : ∃ blanks d, c :: before = blanks ++ [d] :=
        ⟨_, _, (List.dropLast_concat_getLast (List.cons_ne_nil c before)).symm⟩
      have hd : isBlank d = true := by
        have hall : (c :: before).all isBlank = true := by rw [List.all_cons, hc, hbefore]; rfl
        exact List.all_eq_true.1 hall d (by simp [hlast])
      have hescaped : v.flatMap escapeValue = (front ++ blanks) ++ d :: '"' :: inner := by
        rw [(List.cons.inj hbody).2, ← List.cons_append, hlast]
        simp
      rw [hescaped] at hliteral
      obtain rfl := eq_backslash_of_isLiteralBody (by decide) hliteral
      exact absurd hd (by decide)

/-- Behind the words inside a value there is no value to be found. -/
theorem unquote_splitValue {v : Text} (hv : Text.holds " with " v = true) (s : Text) :
    unquote (splitValue (s ++ " with ".toList ++ quotedValue v)).2 = none := by
  rw [← holds_quotedValue] at hv
  cases hcut : Text.splitLast? " with " (quotedValue v) with
  | none =>
    rw [Text.splitLast?_eq_none_iff.1 hcut] at hv
    exact absurd hv (by decide)
  | some cut =>
    obtain ⟨front, back⟩ := cut
    have he : quotedValue v = (front ++ " with".toList) ++ ' ' :: back := by
      rw [Text.eq_append_of_splitLast? hcut]
      simp
    unfold splitValue
    simp only [Text.splitLast?_behind hcut, unquote_trim]
    exact unquote_of_quotedValue (by decide) he

theorem splitValue_eq {t : Text} (ht : Text.IsTrimmed t) (h : Text.trim (splitValue t).2 = []) :
    splitValue t = (t, []) := by
  unfold splitValue at h ⊢
  split at h
  · rename_i target value hcut
    have he := Text.eq_append_of_splitLast? hcut
    -- words at the end of the text would leave it with a blank there
    have hvalue : Text.allBlank (' ' :: value) = false := by
      refine @Text.IsTrimmed.not_allBlank (target ++ " with".toList) _ ?_ (by simp)
      rw [he] at ht
      rwa [List.append_assoc] at ht ⊢
    rw [(Text.isTrimmed_trim value).trim_eq, Text.trim_eq_nil_iff] at h
    rw [Text.allBlank, List.all_cons] at hvalue
    rw [Text.allBlank] at h
    rw [h] at hvalue
    exact absurd hvalue (by decide)
  · rfl

/-! ## 3. Titles -/

theorem readActionTitle_eq {a : Action} (ha : a.kind = .element) {title rest : Text}
    (h : Action.ofTitle? title = some (a, rest)) :
    readActionTitle title = (readTarget (splitValue rest).1).map fun q =>
      [.ofQuery .testRail q, .call (.known a) a.label (splitValue rest).2] := by
  unfold readActionTitle
  simp only [h, ha, bind, Option.bind_some]
  cases readTarget (splitValue rest).1 <;> rfl

/-- Two commands are read from the title of a command on an element only. -/
theorem exists_ofTitle? {title : Text} {a : Action} {c d : Command} (hd : d.action = .known a)
    (h : readActionTitle title = some [c, d]) :
    ∃ rest, Action.ofTitle? title = some (a, rest) := by
  unfold readActionTitle at h
  obtain ⟨⟨b, rest⟩, hb, hr⟩ := Option.bind_eq_some_iff.1 h
  refine ⟨rest, ?_⟩
  simp only at hr
  split at hr
  · exact absurd (congrArg List.length (Option.some.inj hr)) (by simp)
  · obtain ⟨q, -, hc⟩ := Option.bind_eq_some_iff.1 hr
    exact absurd (congrArg List.length (Option.some.inj hc)) (by simp)
  · obtain ⟨q, -, hc⟩ := Option.bind_eq_some_iff.1 hr
    obtain ⟨-, htail⟩ := List.cons.inj (Option.some.inj hc)
    obtain ⟨rfl, -⟩ := List.cons.inj htail
    rw [hb, Lookup.known.inj hd]

theorem actionTitle_literals (style : Style) {a : Action} (ha : a.kind = .element) (s v : Text) :
    actionTitle [⟨.locate, style.literal s⟩] a (style.literal v) =
      a.label ++ ' ' :: (s ++ " with ".toList ++ quotedValue v) := by
  have htrim := (style.isValueText_literal v).isTrimmed.trim_eq
  have hne := (style.isValueText_literal v).ne_nil
  unfold actionTitle
  simp only [ha, htrim, List.isEmpty_iff, hne, elementWords_locate (style.unquote_literal s),
    style.valueWords_literal]
  simp

/-- A title without a value that is read as a selector holds its label and the selector only. -/
theorem exists_of_plainTitle {a : Action} (ha : a.kind = .element) {s : Text} {q : Query}
    (hq : q.action = .locate) (hs : unquote q.selector = some s)
    (hplain : readActionTitle (a.label ++ ' ' :: s) =
      some [.ofQuery .testRail q, .call (.known a) a.label []]) :
    Text.IsTrimmed s ∧ s ≠ [] ∧ Action.ofTitle? (a.label ++ ' ' :: s) = some (a, s) ∧
      ∃ q', readTarget s = some q' ∧ Command.ofQuery .testRail q' = .ofQuery .testRail q := by
  obtain ⟨rest, hrest⟩ := exists_ofTitle? rfl hplain
  obtain ⟨rfl, -⟩ := Action.ofTitle?_append ha hrest []
  rw [readActionTitle_eq ha hrest] at hplain
  obtain ⟨q', hq', hcommands⟩ := Option.map_eq_some_iff.1 hplain
  obtain ⟨hquery, hcall⟩ := List.cons.inj hcommands
  -- no value has been cut off
  have hnone := Option.some.inj (Command.mk.inj (List.cons.inj hcall).1).2.2
  have htarget : readTarget (Text.trim s) = some q' := by
    rw [← hq', splitValue_eq (Text.isTrimmed_trim s) hnone]
  -- what a command says of its query is the action and the trimmed selector
  obtain ⟨haction, -, hselector⟩ := Command.mk.inj hquery
  have hlocate : q'.action = .locate := (Lookup.known.inj haction).trans hq
  have hvalue : unquote q'.selector = some s := by
    rw [← unquote_trim, Option.some.inj hselector, unquote_trim, hs]
  obtain ⟨hsame, htrim, hne, -⟩ :=
    isSelector_of_readTarget htarget hlocate hvalue (Text.length_trim s)
  rw [hsame] at hrest htarget
  exact ⟨htrim, hne, hrest, q', htarget, hquery⟩

/-- The title of a command with a target and a value is read as the target is without the value, and
as the value, exactly if the value does not hold the words that part them. -/
theorem readActionTitle_actionTitle_iff (style : Style) {a : Action} (ha : a.kind = .element)
    {s : Text} {q : Query} (hq : q.action = .locate) (hs : unquote q.selector = some s)
    (hplain : readActionTitle (a.label ++ " ".toList ++ s) =
      some [.ofQuery .testRail q, .call (.known a) a.label []]) (v : Text) :
    (∃ value, readActionTitle (actionTitle [⟨.locate, style.literal s⟩] a (style.literal v)) =
        some [.ofQuery .testRail q, ⟨.known a, a.label, some value⟩] ∧
      unquote value = some v) ↔ Text.holds " with " v = false := by
  have hlabel : a.label ++ " ".toList ++ s = a.label ++ ' ' :: s := by simp
  rw [hlabel] at hplain
  obtain ⟨htrim, hne, hrest, q', hq', hquery⟩ := exists_of_plainTitle ha hq hs hplain
  -- the title goes on with the value behind the whole selector
  have hwhole : Text.IsTrimmed (s ++ " with ".toList ++ quotedValue v) := by
    rw [List.append_assoc]
    exact htrim.append hne (Text.last_append (List.cons_ne_nil _ _) (isTrimmed_quotedValue v).last)
  have hassoc : s ++ ' ' :: ("with ".toList ++ quotedValue v) =
      s ++ " with ".toList ++ quotedValue v := by simp
  have htitle := (Action.ofTitle?_append ha hrest ("with ".toList ++ quotedValue v)).2
  rw [hassoc, hwhole.trim_eq] at htitle
  rw [actionTitle_literals style ha, readActionTitle_eq ha htitle]
  cases hv : Text.holds " with " v with
  | false =>
    refine iff_of_true ⟨quotedValue v, ?_, unquote_quotedValue v⟩ rfl
    rw [splitValue_append hv, hq', Option.map_some, hquery, Command.call,
      (isTrimmed_quotedValue v).trim_eq]
  | true =>
    refine iff_of_false ?_ Bool.true_eq_false.mp
    rintro ⟨value, hread, hvalue⟩
    obtain ⟨_, -, hcommands⟩ := Option.map_eq_some_iff.1 hread
    obtain ⟨-, hcall⟩ := List.cons.inj hcommands
    obtain rfl := Option.some.inj (Command.mk.inj (List.cons.inj hcall).1).2.2
    rw [unquote_trim, unquote_splitValue hv] at hvalue
    exact absurd hvalue (by simp)

/-- A value that holds quotes, a backslash, a line feed, a label and words close to those that part
a value from its target. -/
def typedValue : Text := "\"with\" C:\\new\nClick #card with"

theorem readActionTitle_typedValue :
    Action.fill.kind = .element ∧
      readActionTitle (Action.fill.label ++ " ".toList ++ listedSelector) =
        some [.ofQuery .testRail ⟨.locate, literal listedSelector⟩,
          .call (.known .fill) Action.fill.label []] ∧
      ∃ value, readActionTitle (actionTitle [⟨.locate, ({ quote := .double } : Style).literal
            listedSelector⟩] .fill (({ quote := .double } : Style).literal typedValue)) =
          some [.ofQuery .testRail ⟨.locate, literal listedSelector⟩,
            ⟨.known .fill, Action.fill.label, some value⟩] ∧
        unquote value = some typedValue := by
  have hplain : readActionTitle (Action.fill.label ++ " ".toList ++ listedSelector) =
      some [.ofQuery .testRail ⟨.locate, literal listedSelector⟩,
        .call (.known .fill) Action.fill.label []] := by decide +kernel
  have hread := readActionTitle_actionTitle_iff { quote := .double } (a := .fill) (by decide) rfl
    (unquote_singleQuoted listedSelector) hplain typedValue
  exact ⟨by decide, hplain, hread.2 (by decide)⟩

/-- A value with the words in it is cut in two, and the target takes the first half. -/
theorem readActionTitle_cutValue :
    readActionTitle (actionTitle [⟨.locate, ({} : Style).literal "#q"⟩] .fill
        (({} : Style).literal "tea with milk")) =
      some [.ofQuery .testRail ⟨.locate, "'#q with \"tea'"⟩,
        ⟨.known .fill, "Enter text into", some "milk\""⟩] := by
  decide +kernel

end Parlance
