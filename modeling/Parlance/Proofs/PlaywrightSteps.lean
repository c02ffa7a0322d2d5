import Parlance.Proofs.Items

/-!
Awaited calls say the same after they have been written and read again: the calls of a locator are
read as its queries, and a check is about what stands between the parentheses of `expect`.
-/

namespace Parlance

open Source (Link SelfContained isName chainText)

/-! ## 1. Reading calls -/

theorem unawaited_await {t : Text} (h : Text.IsTrimmed t) :
    unawaited ("await ".toList ++ t) = t := by
  have hafter : Text.after? "await" ("await ".toList ++ t) = some (' ' :: t) := rfl
  unfold unawaited
  rw [hafter]
  show Text.trim ([' '] ++ t) = t
  exact Text.trim_blanks_append (by decide) h

theorem readCalls_eq {links : List Link} (h : ∀ l ∈ links, l.args.isSome = true) :
    readCalls links = some (links.map (linkCommand .playwright)) := by
  induction links with
  | nil => rfl
  | cons l links ih =>
    obtain ⟨args, hargs⟩ := Option.isSome_iff_exists.1 (h l List.mem_cons_self)
    rw [readCalls, hargs, ih fun k hk => h k (List.mem_cons_of_mem l hk)]
    simp [linkCommand, readCall, hargs]

/-- A call right behind the page that does not act on an element is the command it names. -/
theorem readPageCall_command {name : Text} {a : Action}
    (hlookup : Action.lookup .playwright name = .known a) (ha : a.kind ≠ .element) (args : Text) :
    readPageCall name args = [readCall name args] := by
  unfold readPageCall
  simp only [hlookup]
  split
  · rename_i hkind _
    exact absurd (Option.some.inj hkind) ha
  · rfl

theorem readPage_eq {l : Link} {a : Action} (hl : IsCall .playwright a l) (ha : a.kind ≠ .element)
    {links : List Link} (h : ∀ k ∈ links, k.args.isSome = true) :
    readPage (l :: links) = some ((l :: links).map (linkCommand .playwright)) := by
  obtain ⟨args, hargs⟩ := Option.isSome_iff_exists.1 hl.isCall
  have hcall : readPageCall l.name args = [linkCommand .playwright l] := by
    rw [readPageCall_command hl.lookup ha, readCall, linkCommand, hargs]
    rfl
  rw [readPage, hargs, readCalls_eq h]
  simp [hcall]

/-- Behind a query every call is read as the command it names. -/
theorem readPage_queries {links : List Link} (hlinks : ∀ l ∈ links, IsQueryCall .playwright l)
    (hne : links ≠ []) {last : Link} (hlast : last.args.isSome = true) :
    readPage (links ++ [last]) = some ((links ++ [last]).map (linkCommand .playwright)) := by
  cases links with
  | nil => exact absurd rfl hne
  | cons l links =>
    obtain ⟨b, hcall, hb⟩ := hlinks l List.mem_cons_self
    -- a query acts on no element, so the first call is not split
    have hkind : b.kind ≠ .element := by
      intro hk
      simp [Action.isQuery, hk] at hb
    apply readPage_eq hcall hkind
    refine List.forall_mem_append.2 ⟨fun k hk => ?_, List.forall_mem_singleton.2 hlast⟩
    obtain ⟨c, hc, -⟩ := hlinks k (List.mem_cons_of_mem l hk)
    exact hc.isCall

/-- Queries and one other command, which acts on the page only if no query stands before it. -/
theorem readPage_act {links : List Link} (hlinks : ∀ l ∈ links, IsQueryCall .playwright l)
    {act : Link} {a : Action} (hact : IsCall .playwright a act)
    (ha : links = [] → a.kind ≠ .element) :
    readPage (links ++ [act]) = some ((links ++ [act]).map (linkCommand .playwright)) := by
  by_cases hne : links = []
  · subst hne
    exact readPage_eq hact (ha rfl) fun k hk => absurd hk List.not_mem_nil
  · exact readPage_queries hlinks hne hact.isCall

/-! ## 2. Reading checks -/

theorem mapM_readQuery {links : List Link} (h : ∀ l ∈ links, IsQueryCall .playwright l) :
    links.mapM readQuery = some (links.map (linkQuery .playwright)) := by
  induction links with
  | nil => rfl
  | cons l links ih =>
    obtain ⟨a, hcall, ha⟩ := h l List.mem_cons_self
    obtain ⟨args, hargs⟩ := Option.isSome_iff_exists.1 hcall.isCall
    have hread : readQuery l = some (linkQuery .playwright l) := by
      simp [readQuery, linkQuery, hcall.lookup, hargs, Lookup.value?, ha]
    rw [List.mapM_cons, hread, ih fun k hk => h k (List.mem_cons_of_mem l hk)]
    rfl

/-- The root of a locator. -/
def pageRoot : Link := ⟨"page", none⟩

theorem isSound_pageRoot : pageRoot.IsSound := .property (by decide)

theorem isReadable_pageRoot : pageRoot.IsReadable := isSound_pageRoot.isReadable

/-- What is written between the parentheses of `expect` is the page or the element its queries
reach. -/
theorem readCheckedSubject_eq {links : List Link}
    (h : ∀ l ∈ links, IsQueryCall .playwright l) :
    readCheckedSubject (chainText pageRoot links) =
      if links.isEmpty then .page else .element (links.map (linkQuery .playwright)) := by
  have hlinks : ∀ l ∈ links, l.IsReadable := fun l hl => (h l hl).sound.isReadable
  unfold readCheckedSubject
  simp only [(Source.isTrimmed_chainText isReadable_pageRoot hlinks).trim_eq,
    Source.readChain_chainText isReadable_pageRoot hlinks, mapM_readQuery h]
  rfl

/-- The links of a negation. -/
def notLinks (negated : Bool) : List Link := if negated then [⟨"not", none⟩] else []

theorem isSound_notLinks (negated : Bool) : ∀ l ∈ notLinks negated, l.IsSound := by
  intro l hl
  cases negated with
  | false => exact absurd hl List.not_mem_nil
  | true =>
    rw [List.mem_singleton.1 hl]
    exact .property (by decide)

theorem isSound_matcher (negated : Bool) {name args : Text} (hname : isName name = true)
    (hargs : SelfContained args) : ∀ l ∈ notLinks negated ++ [⟨name, some args⟩], l.IsSound :=
  List.forall_mem_append.2
    ⟨isSound_notLinks negated, List.forall_mem_singleton.2 (.call hname hargs)⟩

theorem readMatcher_eq (source subject name args : Text) (negated : Bool) :
    readMatcher source subject (notLinks negated ++ [⟨name, some args⟩]) =
      some ⟨readCheckedSubject subject, Expectation.lookup .playwright name, negated,
        nonEmpty? (Text.trim args), source⟩ := by
  unfold readMatcher
  cases negated with
  | false => rfl
  | true => rfl

theorem getD_nonEmpty? (t : Text) : (nonEmpty? t).getD [] = t := by
  cases t with
  | nil => rfl
  | cons c t => rfl

/-! ## 3. Written calls -/

theorem isName_matcher {e : Expectation} {name : Text} (h : e.name? .playwright = some name) :
    isName name = true := by
  have hall : ∀ e ∈ Expectation.all, (e.name? .playwright).all isName = true := by
    decide
  have he := hall e e.mem_all
  rw [h] at he
  exact he

theorem isTrimmed_await {root : Link} {links : List Link} (hroot : root.IsReadable)
    (hlinks : ∀ l ∈ links, l.IsReadable) :
    Text.IsTrimmed ("await ".toList ++ chainText root links) := by
  obtain ⟨c, rest, ht, -⟩ := hroot.head_text (links.flatMap fun l => '.' :: l.text)
  refine ⟨rfl, Text.last_append ?_ (Source.isTrimmed_chainText hroot hlinks).last⟩
  unfold chainText
  rw [ht]
  simp

theorem isStatement_await {root : Link} {links : List Link} (hroot : root.IsSound)
    (hlinks : ∀ l ∈ links, l.IsSound) :
    IsStatement ("await ".toList ++ chainText root links) := by
  have h := isStatement_chainText hroot hlinks
  have htrimmed := isTrimmed_await hroot.isReadable fun l hl => (hlinks l hl).isReadable
  exact ⟨h.undivided.flat_append (by decide), htrimmed, by simp, isComment_cons (by decide) _⟩

namespace Route

variable (r : Route)

/-- The call that is written for a query. -/
def playwrightLink (q : Query) : Link :=
  r.call ((q.action.name? .playwright).getD "locator") q.selector

theorem playwrightQuery_eq (q : Query) :
    r.playwrightQuery q = '.' :: (r.playwrightLink q).text := by
  unfold playwrightQuery playwrightLink
  simp [call, Link.text, Link.callText]

theorem playwrightLink_spec {q : Query} (hq : q.isSayable = true) :
    IsQueryCall .playwright (r.playwrightLink q) ∧
      (linkQuery .playwright (r.playwrightLink q)).said = q.said := by
  unfold playwrightLink
  rcases (Query.isSayable_cases hq).1 with ha | ha
  · exact r.said_call hq (by rw [ha]; decide) (by rw [ha]; rfl)
  · exact r.said_call hq (by rw [ha]; decide) (by rw [ha]; rfl)

theorem playwrightLinks_spec {queries : List Query} (h : ∀ q ∈ queries, q.isSayable = true) :
    (∀ l ∈ queries.map r.playwrightLink, IsQueryCall .playwright l) ∧
      (queries.map r.playwrightLink).map (fun l => (linkQuery .playwright l).said) =
        queries.map Query.said := by
  refine ⟨?_, ?_⟩
  · intro l hl
    obtain ⟨q, hq, rfl⟩ := List.mem_map.1 hl
    exact (r.playwrightLink_spec (h q hq)).1
  · rw [List.map_map]
    apply List.map_congr_left
    intro q hq
    exact (r.playwrightLink_spec (h q hq)).2

/-- A written locator is the chain of its queries. -/
theorem playwrightLocator_eq (queries : List Query) :
    r.playwrightLocator queries = chainText pageRoot (queries.map r.playwrightLink) := by
  unfold playwrightLocator chainText
  rw [List.flatMap_map]
  simp only [← playwrightQuery_eq]
  rfl

/-! ## 4. Statements -/

theorem readPlaywright_page {links : List Link} (h : ∀ l ∈ links, l.IsReadable) :
    readPlaywright ("await ".toList ++ chainText pageRoot links) =
      (readPage links).map fun commands => [.chain commands] := by
  unfold readPlaywright
  rw [unawaited_await (Source.isTrimmed_chainText isReadable_pageRoot h),
    Source.readChain_chainText isReadable_pageRoot h]
  rfl

/-- Queries and one other command are read as they are written. -/
theorem rereads_playwrightChain {links : List Link}
    (hlinks : ∀ l ∈ links, IsQueryCall .playwright l) {act : Link} {a : Action}
    (hact : IsCall .playwright a act) (ha : a.isQuery = false)
    (hpage : links = [] → a.kind ≠ .element) :
    Rereads .playwright ("await ".toList ++ chainText pageRoot (links ++ [act]) ++ [';'])
      [.act (if a.kind = .page then [] else links.map fun l => (linkQuery .playwright l).said)
        (.known a) (operands (Text.trim (act.args.getD [])))] := by
  have hsound := isSound_concat hlinks hact.sound
  apply rereads_call (isStatement_await isSound_pageRoot hsound) hlinks hact ha
  show readPlaywright _ = _
  rw [readPlaywright_page fun l hl => (hsound l hl).isReadable, readPage_act hlinks hact hpage]
  rfl

/-- A written command says what it said behind the same queries. -/
theorem rereads_playwrightCommand (hr : r.target = .playwright) {queries : List Query}
    (hqueries : ∀ q ∈ queries, q.isSayable = true) {c : Command} {a : Action} {name : Text}
    (haction : c.action = .known a) (hname : a.name? .playwright = some name)
    (ha : a.isQuery = false) (hargs : hasValues (c.args.getD []) = true)
    (hreached : a.kind ≠ .page → queries ≠ []) :
    ∃ code, r.codeAction queries a c = some code ∧ Rereads .playwright code [c.item queries] := by
  obtain ⟨hlookup, hisName⟩ := Action.lookup_name (by decide) hname
  obtain ⟨hlinks, hsaid⟩ := r.playwrightLinks_spec hqueries
  have hcall : IsCall .playwright a (r.call name (c.args.getD [])) :=
    ⟨r.isSound_call hisName hargs, rfl, hlookup⟩
  have hoperands := @operands_call r name _ hargs
  unfold codeAction
  rw [hr, hname]
  by_cases hp : a.kind = .page
  · -- a command of the page is written right behind it
    refine ⟨"await ".toList ++ chainText pageRoot ([] ++ [r.call name (c.args.getD [])]) ++ [';'],
      ?_, ?_⟩
    · simp [hp, chainText, pageRoot, call, Link.text, Link.callText]
    · have h := @rereads_playwrightChain [] (fun l hl => absurd hl List.not_mem_nil) _ _ hcall ha
        (fun _ => by rw [hp]; decide)
      rw [hoperands, ← Command.item_eq haction (fun hne => absurd hp hne)] at h
      exact h
  · refine ⟨"await ".toList ++ chainText pageRoot
      (queries.map r.playwrightLink ++ [r.call name (c.args.getD [])]) ++ [';'], ?_, ?_⟩
    · rw [Source.chainText_concat]
      simp [hp, r.playwrightLocator_eq queries, call, Link.text, Link.callText]
    · have h := rereads_playwrightChain hlinks hcall ha
        (fun hnil => absurd (List.map_eq_nil_iff.1 hnil) (hreached hp))
      rw [hoperands, ← Command.item_eq haction (fun _ => hsaid)] at h
      exact h

/-- The root of a check. -/
def expectRoot (subject : Text) : Link := ⟨"expect", some subject⟩

theorem isSound_expectRoot {subject : Text} (h : SelfContained subject) :
    (expectRoot subject).IsSound := .call rfl h

/-- A check is read alike with the word that awaits it and without. -/
theorem readPlaywright_expect {subject : Text} (hsubject : SelfContained subject)
    {links : List Link} (h : ∀ l ∈ links, l.IsSound) {t : Text}
    (ht : unawaited t = chainText (expectRoot subject) links) :
    readPlaywright t =
      (readMatcher t subject links).map fun assertion => [.verify assertion] := by
  unfold readPlaywright
  rw [ht, Source.readChain_chainText (isSound_expectRoot hsubject).isReadable
    fun l hl => (h l hl).isReadable]
  rfl

theorem unawaited_expect {subject : Text} (hsubject : SelfContained subject) {links : List Link}
    (h : ∀ l ∈ links, l.IsSound) :
    unawaited ("await ".toList ++ chainText (expectRoot subject) links) =
      chainText (expectRoot subject) links :=
  unawaited_await (Source.isTrimmed_chainText (isSound_expectRoot hsubject).isReadable
    fun l hl => (h l hl).isReadable)

/-- The links of a check behind its subject. -/
def matcherLinks (negated : Bool) (name : Text) (argument : Option Text) : List Link :=
  notLinks negated ++ [⟨name, some ((argument.map r.arguments).getD [])⟩]

theorem trim_argument {argument : Option Text} (h : hasValues (argument.getD []) = true) :
    Text.trim ((argument.map r.arguments).getD []) = (argument.map r.arguments).getD [] := by
  cases argument with
  | none => rfl
  | some args => exact r.trim_arguments h

/-- A written check is about the page or the element that is written, and compares with the same
values. -/
theorem rereads_matcher {queries : List Query} (hqueries : ∀ q ∈ queries, q.isSayable = true)
    {e : Expectation} {name : Text} (hname : e.name? .playwright = some name)
    (hlookup : Expectation.lookup .playwright name = .known e) (negated : Bool)
    {argument : Option Text} (hargs : hasValues (argument.getD []) = true) :
    Rereads .playwright
      ("await ".toList ++ chainText (expectRoot (r.playwrightLocator queries))
        (r.matcherLinks negated name argument) ++ [';'])
      [.check (if queries.isEmpty then .page else (Subject.element queries).said) (.known e)
        negated (operands (argument.getD []))] := by
  obtain ⟨hlinks, hsaid⟩ := r.playwrightLinks_spec hqueries
  have hsubject : SelfContained (r.playwrightLocator queries) := by
    rw [r.playwrightLocator_eq queries]
    have hundivided := Source.undivided_chainText isSound_pageRoot fun l hl => (hlinks l hl).sound
    exact hundivided.selfContained
  have hsound := isSound_matcher negated (isName_matcher hname) (r.selfContained_argument hargs)
  -- the check is read from the whole statement, and its subject from the parentheses
  have hread := readPlaywright_expect hsubject hsound (unawaited_expect hsubject hsound)
  rw [readMatcher_eq] at hread
  have h := @rereads_check .playwright _
    (isStatement_await (isSound_expectRoot hsubject) hsound) _ hread
  have haim : (readCheckedSubject (r.playwrightLocator queries)).said =
      if queries.isEmpty then .page else (Subject.element queries).said := by
    rw [r.playwrightLocator_eq queries, readCheckedSubject_eq hlinks]
    cases queries with
    | nil => rfl
    | cons q rest => exact said_element hsaid
  unfold Assertion.item at h
  simp only [haim, hlookup, getD_nonEmpty?, r.trim_argument hargs,
    r.operands_argument hargs] at h
  exact h

/-- A matcher behind what it checks, as it is written. -/
theorem chainText_matcher (subject : Text) (negated : Bool) (name args : Text) :
    chainText (expectRoot subject) (notLinks negated ++ [⟨name, some args⟩]) ++ [';'] =
      "expect(".toList ++ subject ++ (")".toList ++
        (if negated then ".not".toList else "".toList) ++ ".".toList ++ name ++ "(".toList ++
          args ++ ");".toList) := by
  have hlead : "expect(".toList = "expect".toList ++ ['('] := rfl
  have hroot : (expectRoot subject).text = "expect".toList ++ '(' :: (subject ++ [')']) := rfl
  have hcall : (Link.mk name (some args)).text = name ++ '(' :: (args ++ [')']) := rfl
  have hclose : ");".toList = [')', ';'] := rfl
  have hnot : chainText (expectRoot subject) (notLinks negated) =
      (expectRoot subject).text ++ if negated then ".not".toList else "".toList := by
    cases negated with
    | true =>
      rw [show notLinks true = [⟨"not", none⟩] from rfl, Source.chainText_cons,
        Source.chainText_nil]
      rfl
    | false =>
      rw [show notLinks false = [] from rfl, Source.chainText_nil]
      exact (List.append_nil _).symm
  rw [Source.chainText_concat, hnot, hroot, hcall, hlead, hclose, show ")".toList = [')'] from rfl,
    show ".".toList = ['.'] from rfl, show "(".toList = ['('] from rfl]
  simp only [List.append_assoc, List.cons_append, List.nil_append]

/-- What is written between the parentheses of `expect`. -/
def checkedText : Subject → Text
  | .page => r.playwrightLocator []
  | .element queries => r.playwrightLocator queries
  | .value expr => expr

/-- What is written before `expect`: a plain value is not awaited. -/
def checkLead : Subject → Text
  | .page | .element _ => "await "
  | .value _ => []

/-- The chain of a check. -/
def matcherText (a : Assertion) (e : Expectation) (name : Text) : Text :=
  chainText (expectRoot (r.checkedText a.subject))
    (notLinks a.negated ++ [⟨name, some (r.matcherArguments a e)⟩])

theorem playwrightCheck_eq (a : Assertion) {e : Expectation} {name : Text}
    (hname : e.name? .playwright = some name) :
    r.playwrightCheck a e = some (checkLead a.subject ++ r.matcherText a e name ++ [';']) := by
  have hlead : "await expect(".toList = "await ".toList ++ "expect(".toList := rfl
  have hpage : "await expect(page".toList =
      "await ".toList ++ "expect(".toList ++ r.playwrightLocator [] := rfl
  unfold playwrightCheck matcherText
  rw [List.append_assoc, chainText_matcher, hname, hlead, hpage]
  rw [Option.bind_eq_bind, Option.bind_some]
  cases a.subject with
  | page =>
    dsimp only [checkedText, checkLead]
    rw [List.append_assoc "await ".toList, List.append_assoc "await ".toList]
  | element queries =>
    dsimp only [checkedText, checkLead]
    rw [List.append_assoc "await ".toList, List.append_assoc "await ".toList]
  | value expr => rfl

/-- A written check says what it said. -/
theorem rereads_playwrightCheck (hr : r.target = .playwright) {a : Assertion}
    (h : a.isSayable .playwright = true) :
    ∃ e code, a.expectation = .known e ∧ r.check a e = some code ∧
      Rereads .playwright code [a.item] := by
  obtain ⟨hargs, e, he, hcases⟩ := Assertion.isSayable_cases h
  obtain ⟨name, hname, hlookup⟩ := Expectation.lookup_name (by decide : .playwright ∈ _)
    (fun hf => absurd hf (by decide) : _ → e.isAboutPage = false)
  -- only an address is written in another form
  have hurl : e ≠ .haveUrl := by
    rcases hcases with ⟨-, -, rfl | ⟨-, hf⟩⟩ | ⟨queries, -, -, -, habout⟩
    · decide
    · exact absurd hf (by decide)
    · intro heq
      subst heq
      exact absurd habout (by decide)
  have hmatcher : r.matcherArguments a e = (a.argument.map r.arguments).getD [] := by
    unfold matcherArguments
    rw [if_neg hurl]
  have hcode := r.playwrightCheck_eq a hname
  unfold matcherText at hcode
  rw [hmatcher] at hcode
  unfold Assertion.item check
  rw [hr, he]
  rcases hcases with ⟨hsubject, -, -⟩ | ⟨queries, hsubject, hne, hqueries, -⟩
  · have hpage := @rereads_matcher r [] (fun q hq => absurd hq List.not_mem_nil) e name hname
      hlookup a.negated _ hargs
    rw [hsubject] at hcode ⊢
    exact ⟨e, _, rfl, hcode, hpage⟩
  · have helement := r.rereads_matcher hqueries hname hlookup a.negated hargs
    have hfull : queries.isEmpty = false := List.isEmpty_eq_false_iff.2 hne
    rw [hfull, if_neg Bool.false_ne_true] at helement
    rw [hsubject] at hcode ⊢
    exact ⟨e, _, rfl, hcode, helement⟩

end Route

end Parlance
