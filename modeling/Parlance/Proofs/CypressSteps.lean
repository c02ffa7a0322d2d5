import Parlance.Proofs.ChainReading
import Parlance.Proofs.Items

/-!
Chained commands say the same after they have been written and read again: reading a chain gathers
its queries one by one, and the command or check at its end has them all before it.
-/

namespace Parlance

open Source (Link SelfContained isName chainText splitArguments)

/-! ## 1. Reading a chain -/

namespace ChainReading

/-- What has been read of a chain behind some queries. -/
def reached (links : List Link) : ChainReading :=
  { queries := links.map (linkQuery .cypress), chain := links.map (linkCommand .cypress) }

theorem resumed_reached (links : List Link) :
    (reached links).resumed = links.map (linkCommand .cypress) := by
  unfold resumed reached
  cases links with
  | nil => rfl
  | cons l links => rfl

/-- One more query. -/
theorem next_query (source : Text) (links : List Link) {l : Link}
    (h : IsQueryCall .cypress l) :
    (reached links).next source l.name (l.args.getD []) = some (reached (links ++ [l])) := by
  have hquery := query?_linkCommand h
  obtain ⟨a, hcall, -⟩ := h
  rw [next_command (c := linkCommand .cypress l) _ _ (isChainer_of_lookup hcall.lookup) rfl,
    hquery, resumed_reached]
  simp [reached]

/-- One command that is no query. -/
theorem next_act (source : Text) (links : List Link) {act : Link} {a : Action}
    (h : IsCall .cypress a act) (ha : a.isQuery = false) :
    (reached links).next source act.name (act.args.getD []) =
      some { reached links with
        chain := (links ++ [act]).map (linkCommand .cypress), acts := true } := by
  rw [next_command (c := linkCommand .cypress act) _ _ (isChainer_of_lookup h.lookup) rfl,
    query?_linkCommand_act h ha, resumed_reached]
  simp [reached]

/-- Reading queries, one after another. -/
theorem links_reached (source : Text) (links : List Link) {more : List Link}
    (hmore : ∀ l ∈ more, IsQueryCall .cypress l) (tail : List Link) :
    (reached links).links source (more ++ tail) = (reached (links ++ more)).links source tail := by
  induction more generalizing links with
  | nil => simp
  | cons l more ih =>
    have hl := hmore l List.mem_cons_self
    have hnext := next_query source links hl
    obtain ⟨a, hcall, -⟩ := hl
    obtain ⟨args, hargs⟩ := Option.isSome_iff_exists.1 hcall.isCall
    rw [hargs, Option.getD_some] at hnext
    rw [List.cons_append, ChainReading.links, hargs]
    show ((reached links).next source l.name args).bind _ = _
    rw [hnext, Option.bind_some, ih _ fun k hk => hmore k (List.mem_cons_of_mem l hk),
      List.append_assoc, List.singleton_append]

/-- A query at the root of a chain does not read the page. -/
theorem pageCheck?_query {l : Link} (h : IsQueryCall .cypress l) : pageCheck? l.name = none := by
  obtain ⟨a, hcall, ha⟩ := h
  unfold pageCheck?
  rw [hcall.lookup]
  cases a <;> first | rfl | exact absurd ha (by decide)

end ChainReading

/-- Reading a chain from its root over the queries it begins with. -/
theorem readCommands_queries (source : Text) {links : List Link}
    (hlinks : ∀ l ∈ links, IsQueryCall .cypress l) (hne : links ≠ []) (tail : List Link) :
    readCommands source (links ++ tail) =
      ((ChainReading.reached links).links source tail).map ChainReading.finish := by
  cases links with
  | nil => exact absurd rfl hne
  | cons l links =>
    have hl := hlinks l List.mem_cons_self
    -- the first query is read as one more behind none
    have hfirst := ChainReading.next_query source [] hl
    have hpage := ChainReading.pageCheck?_query hl
    obtain ⟨a, hcall, -⟩ := hl
    obtain ⟨args, hargs⟩ := Option.isSome_iff_exists.1 hcall.isCall
    rw [hargs, Option.getD_some] at hfirst
    rw [List.cons_append, readCommands, hargs]
    unfold ChainReading.first
    rw [hpage]
    show ((ChainReading.reached []).next source l.name args).bind _ = _
    rw [hfirst, Option.bind_some, ChainReading.links_reached source _
      (fun k hk => hlinks k (List.mem_cons_of_mem l hk)), List.nil_append, List.singleton_append]
    cases (ChainReading.reached (l :: links)).links source tail with
    | none => rfl
    | some r => rfl

/-- A chain with one command behind its queries is one step. -/
theorem readCommands_act (source : Text) {links : List Link}
    (hlinks : ∀ l ∈ links, IsQueryCall .cypress l) {act : Link} {a : Action}
    (hact : IsCall .cypress a act) (ha : a.isQuery = false) :
    readCommands source (links ++ [act]) =
      some [.chain ((links ++ [act]).map (linkCommand .cypress))] := by
  obtain ⟨args, hargs⟩ := Option.isSome_iff_exists.1 hact.isCall
  have hnext := ChainReading.next_act source links hact ha
  rw [hargs, Option.getD_some] at hnext
  by_cases hne : links = []
  · subst hne
    rw [List.nil_append, readCommands, hargs]
    unfold ChainReading.first
    cases hpage : ChainReading.pageCheck? act.name with
    | some check =>
      -- the page is read, and nothing is checked
      simp [ChainReading.links, ChainReading.finish, linkCommand, hargs]
    | none =>
      show ((ChainReading.reached []).next source act.name args).bind _ = _
      rw [hnext]
      simp [ChainReading.links, ChainReading.finish, ChainReading.reached]
  · rw [readCommands_queries source hlinks hne, ChainReading.links, hargs]
    show (((ChainReading.reached links).next source act.name args).bind _).map _ = _
    rw [hnext]
    simp [ChainReading.links, ChainReading.finish, ChainReading.reached]

/-- The link of a check. -/
def shouldLink (args : Text) : Link := ⟨"should", some args⟩

theorem ChainReading.next_should (r : ChainReading) {source args : Text} {assertion : Assertion}
    (h : r.should source args = some assertion) :
    r.next source "should" args =
      some { r.close with steps := r.close.steps ++ [.verify assertion] } := by
  rw [r.next_check source args rfl, h]
  rfl

/-- A chain with a check behind its queries is a check of the element that they reach. -/
theorem readCommands_should (source : Text) {links : List Link}
    (hlinks : ∀ l ∈ links, IsQueryCall .cypress l) (hne : links ≠ []) {args : Text}
    {assertion : Assertion} (h : (ChainReading.reached links).should source args = some assertion) :
    readCommands source (links ++ [shouldLink args]) = some [.verify assertion] := by
  rw [readCommands_queries source hlinks hne, ChainReading.links]
  show (((ChainReading.reached links).next source "should" args).bind _).map _ = _
  rw [ChainReading.next_should _ h]
  simp [ChainReading.links, ChainReading.finish, ChainReading.reached, ChainReading.close]

/-- A check right behind a reading of the page is a check of the page. -/
theorem readCommands_page (source : Text) {name : Text} {check : Expectation}
    (hpage : ChainReading.pageCheck? name = some check) {args : Text} {assertion : Assertion}
    (h : ∀ r : ChainReading, r.page = some check → r.should source args = some assertion) :
    readCommands source [⟨name, some []⟩, shouldLink args] = some [.verify assertion] := by
  unfold readCommands ChainReading.first
  simp only [hpage]
  show ((ChainReading.next _ source "should" args).bind _).bind _ = _
  rw [ChainReading.next_should _ (h _ rfl)]
  simp [ChainReading.links, ChainReading.finish, ChainReading.close]

/-! ## 2. Checks -/

/-- No name of a check begins as a negation does. -/
theorem after?_not_name {e : Expectation} {name : Text} (h : e.name? .cypress = some name) :
    Text.after? "not." name = none := by
  have hall : ∀ e ∈ Expectation.all,
      (e.name? .cypress).all (fun name => (Text.after? "not." name).isNone) = true := by
    decide
  have he := hall e e.mem_all
  rw [h] at he
  simpa using he

namespace Route

variable (r : Route)

/-- The arguments of a check: its name, and what it compares with. -/
def shouldArgs (chainer : Text) (argument : Option Text) : Text :=
  r.style.literal chainer ++ ((argument.map r.arguments).map (", ".toList ++ ·)).getD []

/-- What stands behind the name of a check, cut into arguments. -/
def shouldRest : (argument : Option Text) → List Text
  | none => []
  | some args => Source.splitCommas [' '] 0 (Source.marks (r.arguments args))

theorem splitArguments_shouldArgs (chainer : Text) (argument : Option Text) :
    splitArguments (r.shouldArgs chainer argument) =
      r.style.literal chainer :: r.shouldRest argument := by
  have hlit := r.style.isValueText_literal chainer
  have hblank (t : Text) : Text.allBlank (r.style.literal chainer ++ t) = false := by
    have hq := isBlank_of_isQuote r.style.quote.isQuote_char
    simp [Text.allBlank, Style.literal, hq]
  unfold shouldArgs splitArguments
  rw [hblank, if_neg Bool.false_ne_true]
  cases argument with
  | none =>
    show Source.splitCommas [] 0 (Source.marks (r.style.literal chainer ++ [])) = _
    rw [List.append_nil, hlit.splitCommas_eq]
    rfl
  | some args =>
    have hcomma := hlit.splitCommas_comma (r.arguments args)
    rw [List.append_assoc] at hcomma
    exact hcomma

theorem joinArguments?_shouldRest {argument : Option Text}
    (h : hasValues (argument.getD []) = true) :
    joinArguments? (r.shouldRest argument) = argument.map r.arguments := by
  cases argument with
  | none => rfl
  | some args =>
    obtain ⟨vs, hvs, hargs, -⟩ := r.exists_arguments h
    rw [Option.getD_some] at hargs
    show joinArguments? (Source.splitCommas [' '] 0 (Source.marks (r.arguments args))) =
      some (r.arguments args)
    rw [hargs]
    by_cases hne : vs = []
    · -- nothing behind the comma is still an argument
      subst hne
      rfl
    · rw [splitCommas_join hvs hne]
      cases vs with
      | nil => exact absurd rfl hne
      | cons v vs => rfl

theorem selfContained_shouldArgs (chainer : Text) {argument : Option Text}
    (h : SelfContained ((argument.map r.arguments).getD [])) :
    SelfContained (r.shouldArgs chainer argument) := by
  have hlit := r.style.isValueText_literal chainer
  unfold shouldArgs
  cases argument with
  | none =>
    show SelfContained (r.style.literal chainer ++ [])
    rw [List.append_nil]
    exact hlit.selfContained
  | some args =>
    show SelfContained (r.style.literal chainer ++ (", ".toList ++ r.arguments args))
    rw [← List.append_assoc]
    exact selfContained_comma hlit.selfContained h

/-- How a negated check begins. -/
def negation (negated : Bool) : Text := if negated then "not." else ""

/-- A written check is read with the same negation and what stands behind its name. -/
theorem should_shouldArgs (reading : ChainReading) (source : Text) (negated : Bool) {verb : Text}
    (hverb : Text.after? "not." verb = none) (argument : Option Text) {subject : Subject}
    {expectation : Lookup Expectation}
    (hcheck : reading.checked verb = some (subject, expectation)) :
    reading.should source (r.shouldArgs (negation negated ++ verb) argument) =
      some ⟨subject, expectation, negated, joinArguments? (r.shouldRest argument), source⟩ := by
  have hafter : (Text.after? "not." (negation negated ++ verb)).getD (negation negated ++ verb) =
      verb ∧ (Text.after? "not." (negation negated ++ verb)).isSome = negated := by
    cases negated with
    | true =>
      have hnot := Text.after?_append "not." verb
      exact ⟨by rw [negation, if_pos rfl, hnot]; rfl, by rw [negation, if_pos rfl, hnot]; rfl⟩
    | false =>
      have hnone : Text.after? "not." (negation false ++ verb) = none := hverb
      exact ⟨by rw [hnone]; rfl, by rw [hnone]; rfl⟩
  unfold ChainReading.should
  rw [r.splitArguments_shouldArgs]
  simp only [r.style.unquote_literal, hafter.1, hafter.2, Option.bind_eq_bind, Option.bind_some,
    hcheck]

/-! ## 3. Written chains -/

/-- The root of a chain of commands. -/
def cyRoot : Link := ⟨"cy", none⟩

theorem isSound_cyRoot : cyRoot.IsSound := .property (by decide)

/-- The call that is written for a query. -/
def cypressLink (isFirst : Bool) (q : Query) : Link :=
  r.call (if q.action = .locateText then "contains" else if isFirst then "get" else "find")
    q.selector

/-- The calls that are written for some queries. -/
def cypressLinks : List Query → List Link
  | [] => []
  | q :: rest => r.cypressLink true q :: rest.map (r.cypressLink false)

theorem cypressQuery_eq (isFirst : Bool) {q : Query} (hq : q.isSayable = true) :
    r.cypressQuery isFirst q = some ('.' :: (r.cypressLink isFirst q).text) := by
  have hsel := r.arguments_selector hq
  unfold cypressQuery cypressLink
  rcases (Query.isSayable_cases hq).1 with ha | ha
  · cases isFirst <;> simp [ha, call, Link.text, Link.callText, hsel]
  · simp [ha, call, Link.text, Link.callText]

theorem cypressLink_spec (isFirst : Bool) {q : Query} (hq : q.isSayable = true) :
    IsQueryCall .cypress (r.cypressLink isFirst q) ∧
      (linkQuery .cypress (r.cypressLink isFirst q)).said = q.said := by
  unfold cypressLink
  rcases (Query.isSayable_cases hq).1 with ha | ha
  · cases isFirst with
    | true => exact r.said_call hq (by rw [ha]; decide) (by rw [ha]; rfl)
    | false => exact r.said_call hq (by rw [ha]; decide) (by rw [ha]; rfl)
  · rw [if_pos ha]
    exact r.said_call hq (by decide) (by rw [ha]; rfl)

theorem cypressLinks_spec {queries : List Query} (h : ∀ q ∈ queries, q.isSayable = true) :
    (∀ l ∈ r.cypressLinks queries, IsQueryCall .cypress l) ∧
      (r.cypressLinks queries).map (fun l => (linkQuery .cypress l).said) =
        queries.map Query.said := by
  cases queries with
  | nil => exact ⟨by simp [cypressLinks], rfl⟩
  | cons q rest =>
    have hq := r.cypressLink_spec true (h q List.mem_cons_self)
    have hrest (p : Query) (hp : p ∈ rest) :=
      r.cypressLink_spec false (h p (List.mem_cons_of_mem q hp))
    -- the first query is written by another name than the others, and says the same
    refine ⟨?_, ?_⟩
    · intro l hl
      rcases List.mem_cons.1 hl with rfl | hl
      · exact hq.1
      · obtain ⟨p, hp, rfl⟩ := List.mem_map.1 hl
        exact (hrest p hp).1
    · rw [cypressLinks, List.map_cons, hq.2, List.map_map, List.map_cons]
      congr 1
      apply List.map_congr_left
      intro p hp
      exact (hrest p hp).2

theorem mapM_cypressQuery {queries : List Query} (h : ∀ q ∈ queries, q.isSayable = true) :
    queries.mapM (r.cypressQuery false) =
      some (queries.map fun q => '.' :: (r.cypressLink false q).text) := by
  induction queries with
  | nil => rfl
  | cons q rest ih =>
    rw [List.mapM_cons, r.cypressQuery_eq false (h q List.mem_cons_self),
      ih fun p hp => h p (List.mem_cons_of_mem q hp)]
    rfl

/-- A written locator is the chain of its queries. -/
theorem cypressLocator_eq {queries : List Query} (h : ∀ q ∈ queries, q.isSayable = true) :
    r.cypressLocator queries = some (chainText cyRoot (r.cypressLinks queries)) := by
  cases queries with
  | nil => rfl
  | cons q rest =>
    rw [cypressLocator, r.cypressQuery_eq true (h q List.mem_cons_self),
      r.mapM_cypressQuery fun p hp => h p (List.mem_cons_of_mem q hp)]
    simp [cypressLinks, chainText, cyRoot, Link.text, Link.callText, List.flatMap_def,
      Function.comp_def]

/-! ## 4. Statements -/

theorem readCypress_chainText {links : List Link} (h : ∀ l ∈ links, l.IsSound) :
    readCypress (chainText cyRoot links) = readCommands (chainText cyRoot links) links := by
  unfold readCypress
  rw [Source.readChain_chainText isSound_cyRoot.isReadable fun l hl => (h l hl).isReadable]
  rfl

/-- A chain of queries and one other command is read as it is written. -/
theorem rereads_cypressChain {links : List Link} (hlinks : ∀ l ∈ links, IsQueryCall .cypress l)
    {act : Link} {a : Action} (hact : IsCall .cypress a act) (ha : a.isQuery = false) :
    Rereads .cypress (chainText cyRoot (links ++ [act]) ++ [';'])
      [.act (if a.kind = .page then [] else links.map fun l => (linkQuery .cypress l).said)
        (.known a) (operands (Text.trim (act.args.getD [])))] := by
  have hsound := isSound_concat hlinks hact.sound
  apply rereads_call (isStatement_chainText isSound_cyRoot hsound) hlinks hact ha
  show readCypress _ = _
  rw [readCypress_chainText hsound, readCommands_act _ hlinks hact ha]

/-- A written command says what it said behind the same queries. -/
theorem rereads_cypressCommand (hr : r.target = .cypress) {queries : List Query}
    (hqueries : ∀ q ∈ queries, q.isSayable = true) {c : Command} {a : Action} {name : Text}
    (haction : c.action = .known a) (hname : a.name? .cypress = some name)
    (ha : a.isQuery = false) (hargs : hasValues (c.args.getD []) = true) :
    ∃ code, r.codeAction queries a c = some code ∧ Rereads .cypress code [c.item queries] := by
  obtain ⟨hlookup, hisName⟩ := Action.lookup_name (by decide) hname
  obtain ⟨hlinks, hsaid⟩ := r.cypressLinks_spec hqueries
  have hcall : IsCall .cypress a (r.call name (c.args.getD [])) :=
    ⟨r.isSound_call hisName hargs, rfl, hlookup⟩
  have hoperands := @operands_call r name _ hargs
  unfold codeAction
  rw [hr, hname]
  by_cases hp : a.kind = .page
  · -- a command of the page is written right behind the root
    refine ⟨chainText cyRoot ([] ++ [r.call name (c.args.getD [])]) ++ [';'], ?_, ?_⟩
    · simp [hp, chainText, cyRoot, call, Link.text, Link.callText]
    · have h := @rereads_cypressChain [] (fun l hl => absurd hl List.not_mem_nil) _ _ hcall ha
      rw [hoperands, ← Command.item_eq haction (fun hne => absurd hp hne)] at h
      exact h
  · refine ⟨chainText cyRoot (r.cypressLinks queries ++ [r.call name (c.args.getD [])]) ++ [';'],
      ?_, ?_⟩
    · rw [Source.chainText_concat]
      simp [hp, r.cypressLocator_eq hqueries, call, Link.text, Link.callText]
    · have h := rereads_cypressChain hlinks hcall ha
      rw [hoperands, ← Command.item_eq haction (fun _ => hsaid)] at h
      exact h

theorem isSound_shouldLink (chainer : Text) {argument : Option Text}
    (h : SelfContained ((argument.map r.arguments).getD [])) :
    (shouldLink (r.shouldArgs chainer argument)).IsSound :=
  .call rfl (r.selfContained_shouldArgs chainer h)

/-! ## 5. Statements that check -/

/-- A check behind a chain. -/
def shouldText (links : List Link) (chainer : Text) (argument : Option Text) : Text :=
  chainText cyRoot (links ++ [shouldLink (r.shouldArgs chainer argument)])

/-- A check behind a chain, as it is written. -/
theorem shouldText_semicolon (links : List Link) (chainer : Text) (argument : Option Text) :
    r.shouldText links chainer argument ++ [';'] =
      chainText cyRoot links ++ ".should(".toList ++ r.shouldArgs chainer argument ++
        ");".toList := by
  have hopen : ".should(".toList = '.' :: ("should".toList ++ ['(']) := rfl
  have hclose : ");".toList = [')', ';'] := rfl
  have htext : (shouldLink (r.shouldArgs chainer argument)).text =
      "should".toList ++ '(' :: (r.shouldArgs chainer argument ++ [')']) := rfl
  unfold shouldText
  rw [Source.chainText_concat, htext, hopen, hclose]
  simp only [List.append_assoc, List.cons_append, List.nil_append]

theorem shouldArgs_some (chainer args : Text) :
    r.shouldArgs chainer (some args) =
      r.style.literal chainer ++ (", ".toList ++ r.arguments args) := rfl

section

variable {links : List Link} {argument : Option Text}

theorem isSound_should (hlinks : ∀ l ∈ links, l.IsSound) (chainer : Text)
    (hargs : SelfContained ((argument.map r.arguments).getD [])) :
    ∀ l ∈ links ++ [shouldLink (r.shouldArgs chainer argument)], l.IsSound :=
  List.forall_mem_append.2
    ⟨hlinks, List.forall_mem_singleton.2 (r.isSound_shouldLink chainer hargs)⟩

theorem isStatement_shouldText (hlinks : ∀ l ∈ links, l.IsSound) (chainer : Text)
    (hargs : SelfContained ((argument.map r.arguments).getD [])) :
    IsStatement (r.shouldText links chainer argument) :=
  isStatement_chainText isSound_cyRoot (r.isSound_should hlinks chainer hargs)

theorem readCypress_shouldText (hlinks : ∀ l ∈ links, l.IsSound) (chainer : Text)
    (hargs : SelfContained ((argument.map r.arguments).getD [])) :
    readCypress (r.shouldText links chainer argument) =
      readCommands (r.shouldText links chainer argument)
        (links ++ [shouldLink (r.shouldArgs chainer argument)]) :=
  readCypress_chainText (r.isSound_should hlinks chainer hargs)

/-- A check behind queries is read as a check of the element that they reach. -/
theorem read_elementCheck (hlinks : ∀ l ∈ links, IsQueryCall .cypress l) (hne : links ≠ [])
    {verb : Text} (hverb : Text.after? "not." verb = none) (negated : Bool)
    (hargs : SelfContained ((argument.map r.arguments).getD [])) :
    readCypress (r.shouldText links (negation negated ++ verb) argument) =
      some [.verify ⟨.element (links.map (linkQuery .cypress)), Expectation.lookup .cypress verb,
        negated, joinArguments? (r.shouldRest argument),
        r.shouldText links (negation negated ++ verb) argument⟩] := by
  have hchecked : (ChainReading.reached links).checked verb =
      some (.element (links.map (linkQuery .cypress)), Expectation.lookup .cypress verb) := by
    unfold ChainReading.checked ChainReading.reached
    simp [hne]
  rw [r.readCypress_shouldText (fun l hl => (hlinks l hl).sound) _ hargs]
  exact readCommands_should _ hlinks hne (r.should_shouldArgs _ _ negated hverb argument hchecked)

theorem isSound_pageCall {name : Text} (hname : isName name = true) :
    ∀ l ∈ [(⟨name, some []⟩ : Link)], l.IsSound := by
  intro l hl
  rw [List.mem_singleton.1 hl]
  exact .call hname ⟨rfl, .nil⟩

/-- A check behind a reading of the page is the check that the page is read for. -/
theorem read_pageCheck {name : Text} (hname : isName name = true) {e : Expectation}
    (hpage : ChainReading.pageCheck? name = some e) {verb : Text}
    (hverb : Text.after? "not." verb = none) (negated : Bool)
    (hargs : SelfContained ((argument.map r.arguments).getD [])) :
    readCypress (r.shouldText [⟨name, some []⟩] (negation negated ++ verb) argument) =
      some [.verify ⟨.page, .known e, negated, joinArguments? (r.shouldRest argument),
        r.shouldText [⟨name, some []⟩] (negation negated ++ verb) argument⟩] := by
  have hchecked {reading : ChainReading} (hreading : reading.page = some e) :
      reading.checked verb = some (.page, .known e) := by
    unfold ChainReading.checked
    rw [hreading]
  rw [r.readCypress_shouldText (isSound_pageCall hname) _ hargs]
  exact readCommands_page _ hpage fun reading hreading =>
    r.should_shouldArgs reading _ negated hverb argument (hchecked hreading)

/-- A check is read with the values that it compares with. -/
theorem rereads_shouldText {chainer : Text} (hlinks : ∀ l ∈ links, l.IsSound)
    (hargs : hasValues (argument.getD []) = true) {subject : Subject} {e : Lookup Expectation}
    {negated : Bool} {source : Text}
    (hread : readCypress (r.shouldText links chainer argument) =
      some [.verify ⟨subject, e, negated, joinArguments? (r.shouldRest argument), source⟩]) :
    Rereads .cypress (r.shouldText links chainer argument ++ [';'])
      [.check subject.said e negated (operands (argument.getD []))] := by
  have hstatement := r.isStatement_shouldText hlinks chainer (r.selfContained_argument hargs)
  have h := @rereads_check .cypress _ hstatement _ hread
  unfold Assertion.item at h
  rw [r.joinArguments?_shouldRest hargs, r.operands_argument hargs] at h
  exact h

end

/-- A written check of the page reads the page for it. -/
theorem exists_pageCheck {a : Assertion} (hsubject : a.subject = .page) {args : Text}
    (hargument : a.argument = some args) {e : Expectation} (he : e.isAboutPage = true) :
    ∃ name verb, isName name = true ∧ ChainReading.pageCheck? name = some e ∧
      Text.after? "not." verb = none ∧
      r.cypressCheck a e =
        some (r.shouldText [⟨name, some []⟩] (negation a.negated ++ verb) a.argument ++ [';']) := by
  simp only [Expectation.isAboutPage, Bool.or_eq_true, decide_eq_true_eq] at he
  rcases he with rfl | rfl
  · -- the name of the check depends on what is compared, but says nothing
    generalize hverb : (if isPatternLiteral (r.arguments args) then "match".toList
      else "include".toList) = verb
    have hnot : Text.after? "not." verb = none := by
      rw [← hverb]
      split <;> decide
    have hlead : "cy.url().should(".toList =
        chainText cyRoot [⟨"url", some []⟩] ++ ".should(".toList := rfl
    refine ⟨"url", verb, by decide, rfl, hnot, ?_⟩
    unfold cypressCheck
    rw [shouldText_semicolon, hsubject, hargument, shouldArgs_some, ← hlead, ← hverb]
    simp only [Option.map_some, List.append_assoc, negation]
    rfl
  · have hlead : "cy.title().should(".toList =
        chainText cyRoot [⟨"title", some []⟩] ++ ".should(".toList := rfl
    refine ⟨"title", "eq", by decide, rfl, by decide, ?_⟩
    unfold cypressCheck
    rw [shouldText_semicolon, hsubject, hargument, shouldArgs_some, ← hlead]
    simp only [Option.map_some, List.append_assoc, negation]
    rfl

/-- A written check of an element stands behind the chain that reaches it. -/
theorem cypressCheck_element {a : Assertion} {queries : List Query}
    (hsubject : a.subject = .element queries) {e : Expectation} {links : List Link}
    (hlocator : r.cypressLocator queries = some (chainText cyRoot links)) {verb : Text}
    (hname : e.name? .cypress = some verb) :
    r.cypressCheck a e =
      some (r.shouldText links (negation a.negated ++ verb) a.argument ++ [';']) := by
  unfold cypressCheck
  rw [shouldText_semicolon, hsubject]
  dsimp only
  rw [hlocator, hname]
  simp only [Option.bind_eq_bind, Option.bind_some, List.append_assoc, negation, shouldArgs]

/-- A written check says what it said. -/
theorem rereads_cypressCheck (hr : r.target = .cypress) {a : Assertion}
    (h : a.isSayable .cypress = true) :
    ∃ e code, a.expectation = .known e ∧ r.check a e = some code ∧
      Rereads .cypress code [a.item] := by
  obtain ⟨hargs, e, he, hcases⟩ := Assertion.isSayable_cases h
  have hself := r.selfContained_argument hargs
  unfold Assertion.item check
  rw [hr, he]
  rcases hcases with ⟨hsubject, hsome, hcheck⟩ | ⟨queries, hsubject, hne, hqueries, habout⟩
  -- the page: its address or its title is read and then checked
  · obtain ⟨args, hargument⟩ := Option.isSome_iff_exists.1 hsome
    have habout : e.isAboutPage = true := by
      rcases hcheck with rfl | ⟨rfl, -⟩ <;> rfl
    obtain ⟨name, verb, hname, hpage, hverb, hcode⟩ :=
      r.exists_pageCheck hsubject hargument habout
    rw [hsubject]
    exact ⟨e, _, rfl, hcode, r.rereads_shouldText (isSound_pageCall hname) hargs
      (r.read_pageCheck hname hpage hverb a.negated hself)⟩
  -- an element: the check stands behind the queries that reach it
  · obtain ⟨verb, hname, hlookup⟩ := Expectation.lookup_name (by decide : .cypress ∈ _)
      (fun _ => habout)
    obtain ⟨hlinks, hsaid⟩ := r.cypressLinks_spec hqueries
    have hlinksNe : r.cypressLinks queries ≠ [] := by
      cases queries with
      | nil => exact absurd rfl hne
      | cons q rest => simp [cypressLinks]
    have hread := r.read_elementCheck hlinks hlinksNe (after?_not_name hname) a.negated hself
    rw [hlookup] at hread
    have helement := r.rereads_shouldText (fun l hl => (hlinks l hl).sound) hargs hread
    rw [said_element hsaid] at helement
    rw [hsubject]
    exact ⟨e, _, rfl, r.cypressCheck_element hsubject (r.cypressLocator_eq hqueries) hname,
      helement⟩

end Route

end Parlance
