import Parlance.Proofs.CypressSteps
import Parlance.Proofs.PlaywrightSteps

/-!
Code that is written for a command or a check, and what the reader of the target makes of it. The
values in it are as they come: they only have to stand on their own, so that nothing in them runs
into the code around them.
-/

namespace Parlance

open Source (Link SelfContained isName chainText splitArguments)

/-! ## 1. Steps that are understood -/

/-- Whether a table knows the command. -/
def Command.isKnown (c : Command) : Bool := c.action.value?.isSome

/-- Whether the tables know all that a step does. -/
def Step.isUnderstood : Step → Bool
  | .chain commands => commands.all Command.isKnown
  | .verify a => a.expectation.value?.isSome
  | .raw _ => false

theorem Step.hasUnknownCallback_of_isUnderstood {step : Step} (h : step.isUnderstood = true) :
    step.hasUnknownCallback = false := by
  cases step with
  | verify a => rfl
  | raw code => exact absurd h Bool.false_ne_true
  | chain commands =>
    show commands.any Command.hasUnknownCallback = false
    rw [List.any_eq_false]
    intro c hc
    have hknown : c.isKnown = true := List.all_eq_true.1 h c hc
    unfold Command.isKnown at hknown
    unfold Command.hasUnknownCallback
    rw [← Option.not_isSome, hknown]
    exact Bool.false_ne_true

/-- A text whose statements are understood, or are not, whatever follows it. -/
def Yields (f : Framework) (t : Text) (good : Bool) : Prop :=
  ∀ rest, (Step.ofBody f (t ++ rest)).all Step.isUnderstood =
    (good && (Step.ofBody f rest).all Step.isUnderstood)

namespace Yields

variable {f : Framework} {t u : Text} {good more : Bool}

theorem nil : Yields f [] true := fun _ => rfl

theorem append (ht : Yields f t good) (hu : Yields f u more) :
    Yields f (t ++ u) (good && more) := by
  intro rest
  rw [List.append_assoc, ht, hu, Bool.and_assoc]

theorem all_eq (h : Yields f t good) : (Step.ofBody f t).all Step.isUnderstood = good := by
  have hall := h []
  rw [List.append_nil] at hall
  rw [hall]
  exact Bool.and_true good

end Yields

/-- Code of one line that is read again, as steps that are understood or are not. -/
def ReadsBack (f : Framework) (code : Text) (good : Bool) : Prop :=
  ∃ t, code = t ++ [';'] ∧ IsStatement t ∧ (Step.ofStatement f t).all Step.isUnderstood = good

namespace IsStatement

variable (f : Framework) {t : Text}

/-- A statement that has the shape of the vocabulary is read by it. A callback for an unknown
command keeps the statement instead, which is no better. -/
theorem readsBack (ht : IsStatement t) {steps : List Step} (hread : readShape f t = some steps)
    {good : Bool} (hgood : steps.all Step.isUnderstood = good) :
    ReadsBack f (t ++ [';']) good := by
  refine ⟨t, rfl, ht, ?_⟩
  unfold Step.ofStatement
  simp only [ht.trimmed.trim_eq, ht.code, hread, Bool.false_eq_true, if_false]
  cases hcallback : steps.any Step.hasUnknownCallback with
  | false => simpa [Option.filter, hcallback] using hgood
  | true =>
    -- a step with such a callback is not understood, and what is kept is not either
    obtain ⟨step, hmem, hstep⟩ := List.any_eq_true.1 hcallback
    have hunknown : step.isUnderstood = false := by
      rw [Bool.eq_false_iff]
      intro hknown
      rw [Step.hasUnknownCallback_of_isUnderstood hknown] at hstep
      exact Bool.false_ne_true hstep
    have hall : steps.all Step.isUnderstood = false :=
      List.all_eq_false.2 ⟨step, hmem, by rw [hunknown]; exact Bool.false_ne_true⟩
    rw [hall] at hgood
    simpa [Option.filter, hcallback, Step.isUnderstood] using hgood

/-- A statement of another shape is kept. -/
theorem readsBack_kept (ht : IsStatement t) (hread : readShape f t = none) :
    ReadsBack f (t ++ [';']) false := by
  refine ⟨t, rfl, ht, ?_⟩
  unfold Step.ofStatement
  simp only [ht.trimmed.trim_eq, ht.code, hread, Bool.false_eq_true, if_false]
  rfl

/-- A chain is understood if all its commands are known. -/
theorem readsBack_chain (ht : IsStatement t) {commands : List Command}
    (hread : readShape f t = some [.chain commands]) :
    ReadsBack f (t ++ [';']) (commands.all Command.isKnown) := by
  apply ht.readsBack f hread
  exact Bool.and_true _

/-- A check is understood if it is known. -/
theorem readsBack_check (ht : IsStatement t) {a : Assertion}
    (hread : readShape f t = some [.verify a]) :
    ReadsBack f (t ++ [';']) a.expectation.value?.isSome := by
  apply ht.readsBack f hread
  exact Bool.and_true _

end IsStatement

theorem ReadsBack.yields {f : Framework} {code : Text} {good : Bool} (h : ReadsBack f code good)
    (r : Route) (level : Nat) : Yields f (r.line level code).text good := by
  obtain ⟨t, rfl, ht, rfl⟩ := h
  intro rest
  unfold Step.ofBody Route.line
  rw [ht.splitStatements_line, List.flatMap_cons, List.all_append]

/-! ## 2. Arguments that stand on their own -/

/-- Whether an argument list and each of its arguments stand on their own. -/
def isIntact (args : Text) : Bool :=
  decide (SelfContained (Text.trim args)) &&
    (splitArguments args).all fun a => decide (SelfContained (Text.trim a))

/-- Whether what a check is about stands on its own. -/
def Subject.isIntact : Subject → Bool
  | .page => true
  | .element queries => queries.all fun q => Parlance.isIntact q.selector
  | .value expr => decide (SelfContained expr)

theorem Style.selfContained_requote (s : Style) {t : Text} (h : SelfContained (Text.trim t)) :
    SelfContained (s.requote t) := by
  rcases s.requote_cases t with hsame | ⟨value, -, hliteral⟩
  · rw [hsame]
    exact h
  · rw [hliteral]
    exact (s.isValueText_literal value).selfContained

namespace Route

variable (r : Route)

theorem selfContained_arguments_of_isIntact {args : Text} (h : isIntact args = true) :
    SelfContained (r.arguments args) := by
  simp only [isIntact, Bool.and_eq_true, List.all_eq_true, decide_eq_true_eq] at h
  apply selfContained_join
  intro t ht
  obtain ⟨a, ha, rfl⟩ := List.mem_map.1 ht
  exact r.style.selfContained_requote (h.2 a ha)

theorem selfContained_argument_of_isIntact {argument : Option Text}
    (h : isIntact (argument.getD []) = true) :
    SelfContained ((argument.map r.arguments).getD []) := by
  cases argument with
  | none => exact ⟨rfl, .nil⟩
  | some args => exact r.selfContained_arguments_of_isIntact h

end Route

/-! ## 3. Chained commands -/

theorem isKnown_linkCommand {f : Framework} {a : Action} {l : Link} (h : IsCall f a l) :
    (linkCommand f l).isKnown = true := by
  unfold Command.isKnown linkCommand Command.call
  rw [h.lookup]
  rfl

theorem all_isKnown_linkCommand {f : Framework} {links : List Link}
    (h : ∀ l ∈ links, IsQueryCall f l) :
    (links.map (linkCommand f)).all Command.isKnown = true := by
  rw [List.all_map, List.all_eq_true]
  intro l hl
  obtain ⟨a, hcall, -⟩ := h l hl
  exact isKnown_linkCommand hcall

/-- A call on the page itself is read as one command or two, all of them known. -/
theorem all_isKnown_readPageCall {l : Link} {a : Action} (h : IsCall .playwright a l)
    (args : Text) : (readPageCall l.name args).all Command.isKnown = true := by
  have hcall (args : Text) : (Command.call (.known a) l.name args).isKnown = true := rfl
  unfold readPageCall readCall
  simp only [h.lookup]
  split
  · simp only [List.all_cons, List.all_nil, hcall, Bool.and_true]
    rfl
  · simp only [List.all_cons, List.all_nil, hcall, Bool.and_true]

/-- Calls that are all known are read as known commands. -/
theorem exists_readPage {links : List Link} (h : ∀ l ∈ links, ∃ a, IsCall .playwright a l) :
    ∃ commands, readPage links = some commands ∧ commands.all Command.isKnown = true := by
  cases links with
  | nil => exact ⟨[], rfl, rfl⟩
  | cons l links =>
    obtain ⟨a, hl⟩ := h l List.mem_cons_self
    obtain ⟨args, hargs⟩ := Option.isSome_iff_exists.1 hl.isCall
    have hrest (k : Link) (hk : k ∈ links) := h k (List.mem_cons_of_mem l hk)
    have hcalls : ∀ k ∈ links, k.args.isSome = true := by
      intro k hk
      obtain ⟨b, hb⟩ := hrest k hk
      exact hb.isCall
    refine ⟨readPageCall l.name args ++ links.map (linkCommand .playwright), ?_, ?_⟩
    · rw [readPage, hargs, readCalls_eq hcalls]
      rfl
    · rw [List.all_append, all_isKnown_readPageCall hl, Bool.true_and, List.all_map,
        List.all_eq_true]
      intro k hk
      obtain ⟨b, hb⟩ := hrest k hk
      exact isKnown_linkCommand hb

namespace Route

variable (r : Route)

/-- A query that can be written is a call that is read as a query. -/
theorem exists_cypressLink {isFirst : Bool} {q : Query} {t : Text}
    (h : r.cypressQuery isFirst q = some t) (hq : isIntact q.selector = true) :
    ∃ l, t = '.' :: l.text ∧ IsQueryCall .cypress l := by
  have hargs := r.selfContained_arguments_of_isIntact hq
  have hselector : SelfContained (r.style.requote q.selector) := by
    rw [isIntact, Bool.and_eq_true, decide_eq_true_eq] at hq
    exact r.style.selfContained_requote hq.1
  -- all three queries that there are are written as one of two calls
  have hcall {name args : Text} {a : Action} (hname : isName name = true)
      (hargs : SelfContained args) (hlookup : Action.lookup .cypress name = .known a)
      (ha : a.isQuery = true) :
      ∃ l : Link, '.' :: (name ++ '(' :: (args ++ [')'])) = '.' :: l.text ∧
        IsQueryCall .cypress l :=
    ⟨⟨name, some args⟩, by simp [Link.text, Link.callText], a,
      ⟨.call hname hargs, rfl, hlookup⟩, ha⟩
  have hlocate {args : Text} (hargs : SelfContained args) :
      ∃ l : Link, (if isFirst then ".get(".toList else ".find(".toList) ++ args ++ ")".toList =
        '.' :: l.text ∧ IsQueryCall .cypress l := by
    cases isFirst with
    | true => simpa using @hcall "get" args .locate (by decide) hargs rfl rfl
    | false => simpa using @hcall "find" args .locate (by decide) hargs rfl rfl
  unfold cypressQuery at h
  cases haction : q.action with
  | locate =>
    rw [haction] at h
    obtain rfl := Option.some.inj h
    exact hlocate hselector
  | locateText =>
    rw [haction] at h
    obtain rfl := Option.some.inj h
    simpa using @hcall "contains" _ .locateText (by decide) hargs rfl rfl
  | locateTestId =>
    rw [haction] at h
    obtain ⟨id, -, h⟩ := Option.bind_eq_some_iff.1 h
    obtain rfl := Option.some.inj h
    exact hlocate (r.style.isValueText_literal _).selfContained
  | _ =>
    rw [haction] at h
    exact absurd h (by simp)

theorem exists_cypressLinks {queries : List Query} {parts : List Text}
    (h : queries.mapM (r.cypressQuery false) = some parts)
    (hqueries : ∀ q ∈ queries, isIntact q.selector = true) :
    ∃ links : List Link, parts.flatten = (links.flatMap fun l => '.' :: l.text) ∧
      ∀ l ∈ links, IsQueryCall .cypress l := by
  induction queries generalizing parts with
  | nil =>
    obtain rfl := Option.some.inj h
    exact ⟨[], rfl, fun l hl => absurd hl List.not_mem_nil⟩
  | cons q queries ih =>
    rw [List.mapM_cons] at h
    obtain ⟨t, ht, h⟩ := Option.bind_eq_some_iff.1 h
    obtain ⟨rest, hrest, h⟩ := Option.bind_eq_some_iff.1 h
    obtain rfl := Option.some.inj h
    obtain ⟨l, rfl, hl⟩ := r.exists_cypressLink ht (hqueries q List.mem_cons_self)
    obtain ⟨links, hparts, hlinks⟩ := ih hrest fun p hp => hqueries p (List.mem_cons_of_mem q hp)
    refine ⟨l :: links, by rw [List.flatten_cons, hparts, List.flatMap_cons], ?_⟩
    intro k hk
    rcases List.mem_cons.1 hk with rfl | hk
    · exact hl
    · exact hlinks k hk

/-- A locator that can be written is a chain of queries. -/
theorem exists_cypressLocator {queries : List Query} {t : Text}
    (h : r.cypressLocator queries = some t)
    (hqueries : ∀ q ∈ queries, isIntact q.selector = true) :
    ∃ links, t = chainText cyRoot links ∧ (∀ l ∈ links, IsQueryCall .cypress l) ∧
      (links = [] ↔ queries = []) := by
  cases queries with
  | nil =>
    obtain rfl := Option.some.inj h
    exact ⟨[], rfl, fun l hl => absurd hl List.not_mem_nil, by simp⟩
  | cons q queries =>
    obtain ⟨head, hhead, h⟩ := Option.bind_eq_some_iff.1 h
    obtain ⟨parts, hparts, h⟩ := Option.bind_eq_some_iff.1 h
    obtain rfl := Option.some.inj h
    obtain ⟨l, rfl, hl⟩ := r.exists_cypressLink hhead (hqueries q List.mem_cons_self)
    obtain ⟨links, htail, hlinks⟩ :=
      r.exists_cypressLinks hparts fun p hp => hqueries p (List.mem_cons_of_mem q hp)
    refine ⟨l :: links, ?_, ?_, by simp⟩
    · rw [htail]
      simp [chainText, cyRoot, Link.text, Link.callText]
    · intro k hk
      rcases List.mem_cons.1 hk with rfl | hk
      · exact hl
      · exact hlinks k hk

/-- A chain that only reaches an element is read as its queries. -/
theorem readsBack_cypressLocator {queries : List Query} {t : Text} (hne : queries ≠ [])
    (h : r.cypressLocator queries = some t)
    (hqueries : ∀ q ∈ queries, isIntact q.selector = true) :
    ReadsBack .cypress (t ++ [';']) true := by
  obtain ⟨links, rfl, hlinks, hnil⟩ := r.exists_cypressLocator h hqueries
  have hfull : links ≠ [] := fun hl => hne (hnil.1 hl)
  have hsound : ∀ l ∈ links, l.IsSound := fun l hl => (hlinks l hl).sound
  have hread (source : Text) :
      readCommands source links = some [.chain (links.map (linkCommand .cypress))] := by
    have hqueries := readCommands_queries source hlinks hfull []
    rw [List.append_nil] at hqueries
    rw [hqueries]
    simp [ChainReading.links, ChainReading.finish, ChainReading.reached, hfull]
  have hback := (isStatement_chainText isSound_cyRoot hsound).readsBack_chain .cypress
    ((readCypress_chainText hsound).trans (hread _))
  rw [all_isKnown_linkCommand hlinks] at hback
  exact hback

theorem readsBack_cypressAct {links : List Link} (hlinks : ∀ l ∈ links, IsQueryCall .cypress l)
    {act : Link} {a : Action} (hact : IsCall .cypress a act) (ha : a.isQuery = false) :
    ReadsBack .cypress (chainText cyRoot (links ++ [act]) ++ [';']) true := by
  have hsound := isSound_concat hlinks hact.sound
  have hback := (isStatement_chainText isSound_cyRoot hsound).readsBack_chain .cypress
    ((readCypress_chainText hsound).trans (readCommands_act _ hlinks hact ha))
  rw [List.map_append, List.all_append, all_isKnown_linkCommand hlinks, List.map_singleton,
    List.all_cons, isKnown_linkCommand hact] at hback
  exact hback

/-- A written command is read as a command. -/
theorem readsBack_cypressCommand (hr : r.target = .cypress) {queries : List Query}
    (hqueries : ∀ q ∈ queries, isIntact q.selector = true) {c : Command} {a : Action}
    (ha : a.isQuery = false) (hargs : isIntact (c.args.getD []) = true) {code : Text}
    (h : r.codeAction queries a c = some code) : ReadsBack .cypress code true := by
  unfold codeAction at h
  rw [hr] at h
  obtain ⟨name, hname, h⟩ := Option.bind_eq_some_iff.1 h
  obtain ⟨hlookup, hisName⟩ := Action.lookup_name (by decide) hname
  have hcall : IsCall .cypress a (r.call name (c.args.getD [])) :=
    ⟨.call hisName (r.selfContained_arguments_of_isIntact hargs), rfl, hlookup⟩
  obtain ⟨t, ht, rfl⟩ := Option.map_eq_some_iff.1 h
  -- a command of the page is written right behind the root
  obtain ⟨links, rfl, hlinks⟩ : ∃ links, t = chainText cyRoot links ∧
      ∀ l ∈ links, IsQueryCall .cypress l := by
    by_cases hp : a.kind = .page
    · rw [if_pos hp] at ht
      obtain rfl := Option.some.inj ht
      exact ⟨[], rfl, fun l hl => absurd hl List.not_mem_nil⟩
    · rw [if_neg hp] at ht
      obtain ⟨links, rfl, hlinks, -⟩ := r.exists_cypressLocator ht hqueries
      exact ⟨links, rfl, hlinks⟩
  have hread := readsBack_cypressAct hlinks hcall ha
  rw [Source.chainText_concat] at hread
  simpa [call, Link.text, Link.callText] using hread

/-! ## 4. Chained checks -/

/-- The name of a chained check is known as the name of a check, but for that of an address. -/
theorem isSome_lookup_cypress {e : Expectation} {verb : Text} (h : e.name? .cypress = some verb) :
    (Expectation.lookup .cypress verb).value?.isSome = decide (e ≠ .haveUrl) := by
  have hall : ∀ e ∈ Expectation.all, (e.name? .cypress).all (fun verb =>
      (Expectation.lookup .cypress verb).value?.isSome = decide (e ≠ .haveUrl)) = true := by
    decide +kernel
  have he := hall e e.mem_all
  rw [h] at he
  simpa using he

/-- A written check of the page is read as that check. -/
theorem readsBack_pageCheck {a : Assertion} (hsubject : a.subject = .page)
    (hargs : isIntact (a.argument.getD []) = true) {e : Expectation} {code : Text}
    (h : r.cypressCheck a e = some code) : ReadsBack .cypress code true := by
  have hself := r.selfContained_argument_of_isIntact hargs
  obtain ⟨args, hargument⟩ : ∃ args, a.argument = some args := by
    cases hargument : a.argument with
    | some args => exact ⟨args, rfl⟩
    | none =>
      -- without an argument nothing is written
      unfold cypressCheck at h
      rw [hsubject, hargument] at h
      cases e <;> exact absurd h.symm (Option.some_ne_none code)
  have habout : e.isAboutPage = true := by
    unfold cypressCheck at h
    rw [hsubject] at h
    cases e <;> first | rfl | exact absurd h.symm (Option.some_ne_none code)
  obtain ⟨name, verb, hname, hpage, hverb, hcode⟩ := r.exists_pageCheck hsubject hargument habout
  rw [hcode] at h
  obtain rfl := Option.some.inj h
  exact (r.isStatement_shouldText (isSound_pageCall hname) _ hself).readsBack_check .cypress
    (r.read_pageCheck hname hpage hverb a.negated hself)

/-- A written check of an element is read as a check of it; what is checked is known, but for an
address. -/
theorem readsBack_elementCheck {a : Assertion} {queries : List Query}
    (hsubject : a.subject = .element queries)
    (hqueries : ∀ q ∈ queries, isIntact q.selector = true)
    (hargs : isIntact (a.argument.getD []) = true) {e : Expectation} {code : Text}
    (h : r.cypressCheck a e = some code) :
    ReadsBack .cypress code (decide (queries ≠ []) && decide (e ≠ .haveUrl)) := by
  have hself := r.selfContained_argument_of_isIntact hargs
  obtain ⟨locator, verb, hlocator, hname⟩ : ∃ locator verb,
      r.cypressLocator queries = some locator ∧ e.name? .cypress = some verb := by
    unfold cypressCheck at h
    rw [hsubject] at h
    obtain ⟨locator, hlocator, h⟩ := Option.bind_eq_some_iff.1 h
    obtain ⟨verb, hname, -⟩ := Option.bind_eq_some_iff.1 h
    exact ⟨locator, verb, hlocator, hname⟩
  obtain ⟨links, rfl, hlinks, hnil⟩ := r.exists_cypressLocator hlocator hqueries
  rw [r.cypressCheck_element hsubject hlocator hname] at h
  obtain rfl := Option.some.inj h
  have hsound : ∀ l ∈ links, l.IsSound := fun l hl => (hlinks l hl).sound
  have hstatement := r.isStatement_shouldText hsound (negation a.negated ++ verb) hself
  by_cases hne : queries = []
  · -- nothing is reached that could be checked
    obtain rfl := hnil.2 hne
    have hread := r.readCypress_shouldText hsound (negation a.negated ++ verb) hself
    rw [hne]
    apply hstatement.readsBack_kept .cypress
    show readCypress _ = none
    rw [hread]
    show Option.bind (ChainReading.next {} _ "should" _) _ = none
    rw [ChainReading.next_check _ _ _ rfl]
    unfold ChainReading.should
    rw [r.splitArguments_shouldArgs]
    simp [ChainReading.checked]
  · have hread := r.read_elementCheck hlinks (fun hl => hne (hnil.1 hl)) (after?_not_name hname)
      a.negated hself
    have hback := hstatement.readsBack_check .cypress hread
    rw [isSome_lookup_cypress hname] at hback
    rw [decide_eq_true hne, Bool.true_and]
    exact hback

/-- Words of which the last one may be called. -/
def wordLinks (words : List Text) (last : Text) (args : Option Text) : List Link :=
  words.map (fun w => ⟨w, none⟩) ++ [⟨last, args⟩]

theorem isSound_wordLinks {words : List Text} {last : Text} {args : Option Text}
    (hwords : ∀ w ∈ words ++ [last], isName w = true) (hargs : SelfContained (args.getD [])) :
    ∀ l ∈ wordLinks words last args, l.IsSound := by
  intro l hl
  rcases List.mem_append.1 hl with hl | hl
  · obtain ⟨w, hw, rfl⟩ := List.mem_map.1 hl
    exact .property (hwords w (List.mem_append_left _ hw))
  · rw [List.mem_singleton.1 hl]
    have hlast : isName last = true := hwords last (by simp)
    cases args with
    | none => exact .property hlast
    | some args => exact .call hlast hargs

theorem chainText_wordLinks (root : Link) (words : List Text) (last : Text)
    (args : Option Text) :
    chainText root (wordLinks words last args) =
      root.text ++ '.' :: (words.flatMap (· ++ ['.']) ++ (Link.mk last args).text) := by
  unfold wordLinks chainText
  congr 1
  induction words with
  | nil => simp
  | cons w words ih =>
    rw [List.map_cons, List.cons_append, List.flatMap_cons, ih, List.flatMap_cons]
    simp [Link.text, Link.callText]

/-- Words after `expect` are a check of what stands between its parentheses. -/
theorem readExpectation_wordLinks (source subject : Text) (words : List Text) (last : Text)
    (args : Option Text) :
    readExpectation source subject (wordLinks words last args) =
      some ⟨.value (Text.trim subject),
        Expectation.lookup .cypress (Text.join "."
          ((words ++ [last]).filter fun w => w ≠ "to".toList && w ≠ "not".toList)),
        (words ++ [last]).contains "not".toList, (args.map Text.trim).bind nonEmpty?, source⟩ := by
  have hlast : (wordLinks words last args).getLast? = some ⟨last, args⟩ := by
    unfold wordLinks
    exact List.getLast?_concat
  have hwords : (wordLinks words last args).dropLast.any (fun l => l.args.isSome) = false := by
    unfold wordLinks
    rw [List.dropLast_concat]
    simp
  have hnames : (wordLinks words last args).map Link.name = words ++ [last] := by
    unfold wordLinks
    simp [Function.comp_def]
  unfold readExpectation
  simp only [hlast, hwords, hnames, Option.bind_eq_bind, Option.bind_some, Bool.false_eq_true,
    if_false]

/-- The name of a chained check is one word or two. -/
theorem exists_words {e : Expectation} {verb : Text} (h : e.name? .cypress = some verb) :
    ∃ words last, verb = words.flatMap (· ++ ['.']) ++ last ∧
      verb = Text.join "." (words ++ [last]) ∧
      ∀ w ∈ words ++ [last], isName w = true ∧ w ≠ "to" ∧ w ≠ "not" := by
  have hall : ∀ e ∈ Expectation.all, (e.name? .cypress).all (fun verb =>
      let words := (verb.splitOn '.').dropLast
      let last := (verb.splitOn '.').getLastD []
      verb = words.flatMap (· ++ ['.']) ++ last && verb = Text.join "." (words ++ [last]) &&
        (words ++ [last]).all fun w => isName w && w ≠ "to" && w ≠ "not") = true := by
    decide +kernel
  have he := hall e e.mem_all
  rw [h] at he
  simp only [Option.all_some, Bool.and_eq_true, decide_eq_true_eq, List.all_eq_true] at he
  exact ⟨_, _, he.1.1, he.1.2, fun w hw => ⟨(he.2 w hw).1.1, (he.2 w hw).1.2, (he.2 w hw).2⟩⟩

/-- The words before the name of a chained check. -/
def leadWords (negated : Bool) : List Text := if negated then ["to", "not"] else ["to"]

/-- The arguments of the check of a plain value: a check that needs some is called in any case. -/
def valueArgs (argument : Option Text) (e : Expectation) : Option Text :=
  (argument.map r.arguments).or (if e.takesArgument then some [] else none)

theorem cypressCheck_value {a : Assertion} {expr : Text} (hsubject : a.subject = .value expr)
    {e : Expectation} {words : List Text} {last : Text}
    (hname : e.name? .cypress = some (words.flatMap (· ++ ['.']) ++ last)) :
    r.cypressCheck a e =
      some (chainText (expectRoot expr)
        (wordLinks (leadWords a.negated ++ words) last (r.valueArgs a.argument e)) ++ [';']) := by
  have hroot : (expectRoot expr).text = "expect(".toList ++ expr ++ ")".toList := by
    have hopen : "expect(".toList = "expect".toList ++ ['('] := rfl
    rw [hopen, List.append_assoc, List.append_assoc]
    rfl
  have hlead : (leadWords a.negated).flatMap (· ++ ['.']) =
      "to.".toList ++ (if a.negated then "not.".toList else "".toList) := by
    unfold leadWords
    cases a.negated <;> rfl
  have hcall : (Link.mk last (r.valueArgs a.argument e)).text = last ++
      ((a.argument.map r.arguments).map fun args => "(".toList ++ args ++ ")".toList).getD
        (if e.takesArgument then "()".toList else "".toList) := by
    unfold valueArgs
    cases a.argument with
    | some args => simp [Link.text, Link.callText]
    | none => cases e.takesArgument <;> simp [Link.text, Link.callText]
  unfold cypressCheck
  rw [hsubject, chainText_wordLinks, hroot, hcall, List.flatMap_append, hlead]
  dsimp only
  rw [hname]
  simp only [Option.bind_eq_bind, Option.bind_some, List.append_assoc]
  cases a.argument with
  | some args => simp
  | none => simp

theorem readCypress_expect {expr : Text} (hexpr : SelfContained expr) {links : List Link}
    (h : ∀ l ∈ links, l.IsSound) :
    readCypress (chainText (expectRoot expr) links) =
      (readExpectation (chainText (expectRoot expr) links) expr links).map
        fun assertion => [.verify assertion] := by
  unfold readCypress
  rw [Source.readChain_chainText (isSound_expectRoot hexpr).isReadable
    fun l hl => (h l hl).isReadable]
  rfl

/-- A check of a value that is written has a name. -/
theorem exists_name_of_cypressCheck_value {a : Assertion} {expr : Text}
    (hsubject : a.subject = .value expr) {e : Expectation} {code : Text}
    (h : r.cypressCheck a e = some code) : ∃ verb, e.name? .cypress = some verb := by
  cases hname : e.name? .cypress with
  | some verb => exact ⟨verb, rfl⟩
  | none =>
    unfold cypressCheck at h
    rw [hsubject] at h
    dsimp only at h
    rw [hname] at h
    exact absurd h (by simp)

theorem selfContained_valueArgs {argument : Option Text} (h : isIntact (argument.getD []) = true)
    (e : Expectation) : SelfContained ((r.valueArgs argument e).getD []) := by
  have hargument := r.selfContained_argument_of_isIntact h
  unfold valueArgs
  cases argument with
  | some args => exact hargument
  | none => cases e.takesArgument <;> exact ⟨rfl, .nil⟩

theorem isName_leadWords {negated : Bool} : ∀ w ∈ leadWords negated, isName w = true := by
  cases negated <;> decide

/-- The words that lead to the name of a check are left out of it. -/
theorem filter_leadWords (negated : Bool) {words : List Text}
    (h : ∀ w ∈ words, w ≠ "to".toList ∧ w ≠ "not".toList) :
    (leadWords negated ++ words).filter (fun w => w ≠ "to".toList && w ≠ "not".toList) =
      words := by
  have hlead : (leadWords negated).filter
      (fun w => w ≠ "to".toList && w ≠ "not".toList) = [] := by
    cases negated <;> decide
  rw [List.filter_append, hlead, List.nil_append, List.filter_eq_self]
  intro w hw
  simpa using h w hw

/-- A written check of a plain value is read as a check of it; what is checked is known, but for an
address. -/
theorem readsBack_valueCheck {a : Assertion} {expr : Text} (hsubject : a.subject = .value expr)
    (hexpr : SelfContained expr) (hargs : isIntact (a.argument.getD []) = true) {e : Expectation}
    {code : Text} (h : r.cypressCheck a e = some code) :
    ReadsBack .cypress code (decide (e ≠ .haveUrl)) := by
  obtain ⟨verb, hname⟩ := r.exists_name_of_cypressCheck_value hsubject h
  rw [← isSome_lookup_cypress hname]
  -- the name is cut at its dots, and the words of the check are put in front of it
  obtain ⟨words, last, rfl, hjoin, hwords⟩ := exists_words hname
  rw [r.cypressCheck_value hsubject hname] at h
  obtain rfl := Option.some.inj h
  have hnames : ∀ w ∈ leadWords a.negated ++ words ++ [last], isName w = true := by
    rw [List.append_assoc]
    exact List.forall_mem_append.2 ⟨isName_leadWords, fun w hw => (hwords w hw).1⟩
  have hverb : (leadWords a.negated ++ words ++ [last]).filter
      (fun w => w ≠ "to".toList && w ≠ "not".toList) = words ++ [last] := by
    rw [List.append_assoc]
    exact filter_leadWords a.negated fun w hw => (hwords w hw).2
  have hlinks := isSound_wordLinks hnames (r.selfContained_valueArgs hargs e)
  have hread := readCypress_expect hexpr hlinks
  rw [readExpectation_wordLinks, hverb, ← hjoin] at hread
  exact (isStatement_chainText (isSound_expectRoot hexpr) hlinks).readsBack_check .cypress hread

/-! ## 5. Awaited commands -/

theorem isName_playwrightLink (q : Query) : isName (r.playwrightLink q).name = true := by
  have hall : ∀ a ∈ Action.all, isName ((a.name? .playwright).getD "locator") = true := by
    decide +kernel
  exact hall q.action q.action.mem_all

theorem isSound_playwrightLink {q : Query} (hq : isIntact q.selector = true) :
    (r.playwrightLink q).IsSound :=
  .call (r.isName_playwrightLink q) (r.selfContained_arguments_of_isIntact hq)

/-- A query is written as a call that is read as the same query. -/
theorem isQueryCall_playwrightLink {q : Query} (ha : q.action.isQuery = true)
    (hq : isIntact q.selector = true) : IsQueryCall .playwright (r.playwrightLink q) := by
  have hall : ∀ a ∈ Action.all, a.isQuery = true →
      Action.lookup .playwright ((a.name? .playwright).getD "locator") = .known a := by
    decide +kernel
  exact ⟨q.action, ⟨r.isSound_playwrightLink hq, rfl, hall _ q.action.mem_all ha⟩, ha⟩

/-- Waiting for what a locator reaches. -/
def waitLink : Link := ⟨"waitFor", some []⟩

theorem isSound_waitLink : waitLink.IsSound := .call (by decide) ⟨rfl, .nil⟩

section

variable {queries : List Query} (hactions : ∀ q ∈ queries, q.action.isQuery = true)
  (hqueries : ∀ q ∈ queries, isIntact q.selector = true)

include hactions hqueries

theorem isQueryCall_playwrightLinks :
    ∀ l ∈ queries.map r.playwrightLink, IsQueryCall .playwright l := by
  intro l hl
  obtain ⟨q, hq, rfl⟩ := List.mem_map.1 hl
  exact r.isQueryCall_playwrightLink (hactions q hq) (hqueries q hq)

/-- A written command is read as known commands. -/
theorem readsBack_playwrightCommand (hr : r.target = .playwright) {c : Command} {a : Action}
    (hargs : isIntact (c.args.getD []) = true) {code : Text}
    (h : r.codeAction queries a c = some code) : ReadsBack .playwright code true := by
  unfold codeAction at h
  rw [hr] at h
  obtain ⟨name, hname, h⟩ := Option.bind_eq_some_iff.1 h
  obtain ⟨hlookup, hisName⟩ := Action.lookup_name (by decide) hname
  have hcall : IsCall .playwright a (r.call name (c.args.getD [])) :=
    ⟨.call hisName (r.selfContained_arguments_of_isIntact hargs), rfl, hlookup⟩
  -- a command of the page is written without the queries before it
  obtain ⟨links, hlinks, htext⟩ : ∃ links : List Link,
      (∀ l ∈ links, IsQueryCall .playwright l) ∧
        (if a.kind = .page then "page".toList else r.playwrightLocator queries) =
          chainText pageRoot links := by
    by_cases hp : a.kind = .page
    · exact ⟨[], fun l hl => absurd hl List.not_mem_nil, by rw [if_pos hp]; rfl⟩
    · exact ⟨queries.map r.playwrightLink, r.isQueryCall_playwrightLinks hactions hqueries,
        by rw [if_neg hp, r.playwrightLocator_eq queries]⟩
  have hknown : ∀ l ∈ links ++ [r.call name (c.args.getD [])], ∃ b, IsCall .playwright b l := by
    refine List.forall_mem_append.2 ⟨fun l hl => ?_, List.forall_mem_singleton.2 ⟨a, hcall⟩⟩
    obtain ⟨b, hb, -⟩ := hlinks l hl
    exact ⟨b, hb⟩
  obtain ⟨commands, hread, hall⟩ := exists_readPage hknown
  have hsound := isSound_concat hlinks hcall.sound
  have hpage := readPlaywright_page fun l hl => (hsound l hl).isReadable
  rw [hread] at hpage
  have hback := (isStatement_await isSound_pageRoot hsound).readsBack_chain .playwright hpage
  rw [hall, Source.chainText_concat] at hback
  have hcode := Option.some.inj h
  rw [← hcode]
  simp only [htext]
  simpa [call, Link.text, Link.callText] using hback

/-- A locator that is waited for is not understood: waiting for an element is no command of the
table. -/
theorem readsBack_waitFor (hne : queries ≠ []) :
    ReadsBack .playwright ("await ".toList ++ r.playwrightLocator queries ++ ".waitFor();".toList)
      false := by
  have hlinks := r.isQueryCall_playwrightLinks hactions hqueries
  have hsound := isSound_concat hlinks isSound_waitLink
  have hread := @readPage_queries _ hlinks (by simpa using hne) waitLink rfl
  have hpage := readPlaywright_page fun l hl => (hsound l hl).isReadable
  rw [hread] at hpage
  have hlast : (linkCommand .playwright waitLink).isKnown = false := by decide
  have hunknown : ((queries.map r.playwrightLink ++ [waitLink]).map
      (linkCommand .playwright)).all Command.isKnown = false := by
    rw [List.map_append, List.all_append]
    simp [hlast]
  have hback := (isStatement_await isSound_pageRoot hsound).readsBack_chain .playwright hpage
  rw [hunknown, Source.chainText_concat, ← r.playwrightLocator_eq queries] at hback
  have hclose : ".waitFor();".toList = '.' :: waitLink.text ++ [';'] := rfl
  rw [hclose, ← List.append_assoc, List.append_assoc "await ".toList]
  exact hback

end

/-! ## 6. Awaited checks -/

theorem selfContained_checkedText {subject : Subject} (h : subject.isIntact = true) :
    SelfContained (r.checkedText subject) := by
  have hlocator {queries : List Query} (hqueries : ∀ q ∈ queries, isIntact q.selector = true) :
      SelfContained (r.playwrightLocator queries) := by
    rw [r.playwrightLocator_eq queries]
    refine (Source.undivided_chainText isSound_pageRoot ?_).selfContained
    intro l hl
    obtain ⟨q, hq, rfl⟩ := List.mem_map.1 hl
    exact r.isSound_playwrightLink (hqueries q hq)
  cases subject with
  | page => exact hlocator fun q hq => absurd hq List.not_mem_nil
  | element queries => exact hlocator (List.all_eq_true.1 h)
  | value expr => exact of_decide_eq_true h

/-- A written check is read as a check that is known. -/
theorem readsBack_playwrightCheck {a : Assertion} {e : Expectation}
    (hsubject : SelfContained (r.checkedText a.subject))
    (hargs : SelfContained (r.matcherArguments a e)) {code : Text}
    (h : r.playwrightCheck a e = some code) : ReadsBack .playwright code true := by
  obtain ⟨name, hname, hlookup⟩ := Expectation.lookup_name (by decide : .playwright ∈ _)
    (fun hf => absurd hf (by decide) : _ → e.isAboutPage = false)
  rw [r.playwrightCheck_eq a hname] at h
  obtain rfl := Option.some.inj h
  have hsound := isSound_matcher a.negated (isName_matcher hname) hargs
  have hroot := isSound_expectRoot hsubject
  have hknown : (Expectation.lookup .playwright name).value?.isSome = true := by
    rw [hlookup]
    rfl
  have hread {t : Text} (ht : unawaited t = r.matcherText a e name) :
      readPlaywright t = some [.verify ⟨readCheckedSubject (r.checkedText a.subject),
        Expectation.lookup .playwright name, a.negated,
        nonEmpty? (Text.trim (r.matcherArguments a e)), t⟩] := by
    rw [readPlaywright_expect hsubject hsound ht, readMatcher_eq]
    rfl
  have hawaited : ReadsBack .playwright ("await ".toList ++ r.matcherText a e name ++ [';']) true :=
    hknown ▸ (isStatement_await hroot hsound).readsBack_check .playwright
      (hread (unawaited_expect hsubject hsound))
  -- a plain value is not awaited
  cases hs : a.subject with
  | page => exact hawaited
  | element queries => exact hawaited
  | value expr =>
    exact hknown ▸ (isStatement_chainText hroot hsound).readsBack_check .playwright (hread rfl)

end Route

end Parlance
