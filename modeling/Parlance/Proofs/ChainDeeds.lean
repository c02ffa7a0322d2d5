import Parlance.Proofs.CheckRecord

/-!
What the steps of a chain of commands do is what its links say, each link once and in order. Every
command has the queries before it in the chain, and so has every check, unless it is about a page
that was read at the root.
-/

namespace Parlance

open Source (Link splitArguments unquote)

/-! ## 1. Deeds of steps -/

/-- One thing that steps do. -/
inductive Deed where
  /-- A command that is no query, with the queries before it. -/
  | act (queries : List Query) (command : Command)
  | check (assertion : Assertion)
  /-- A statement that is kept as it is. -/
  | kept (code : Text)
deriving DecidableEq, Repr

/-- What the commands of a step do; `queries` are those before them. -/
def Command.deeds (queries : List Query) : List Command → List Deed
  | [] => []
  | c :: rest =>
    match c.query? with
    | some query => deeds (queries ++ [query]) rest
    | none => .act queries c :: deeds queries rest

/-- What a step does. -/
def Step.deeds : Step → List Deed
  | .chain commands => Command.deeds [] commands
  | .verify a => [.check a]
  | .raw code => [.kept code]

theorem Command.deeds_append (queries : List Query) (cs ds : List Command) :
    deeds queries (cs ++ ds) = deeds queries cs ++ deeds (queries ++ cs.filterMap query?) ds := by
  induction cs generalizing queries with
  | nil => simp [deeds]
  | cons c cs ih =>
    cases hc : c.query? with
    | some query => simp [deeds, hc, ih]
    | none => simp [deeds, hc, ih]

/-- Queries alone do nothing. -/
theorem Command.deeds_ofQuery {queries before : List Query}
    (h : ∀ q ∈ queries, (ofQuery .cypress q).query? = some q) :
    deeds before (queries.map (ofQuery .cypress)) = [] ∧
      (queries.map (ofQuery .cypress)).filterMap query? = queries := by
  induction queries generalizing before with
  | nil => exact ⟨rfl, rfl⟩
  | cons q rest ih =>
    have hq := h q List.mem_cons_self
    obtain ⟨hdeeds, hfilter⟩ := @ih (before ++ [q]) fun p hp => h p (List.mem_cons_of_mem q hp)
    refine ⟨?_, ?_⟩
    · rw [List.map_cons, deeds, hq]
      exact hdeeds
    · rw [List.map_cons, List.filterMap_cons, hq, hfilter]

/-! ## 2. Deeds of links -/

/-- The query that a link of a chain is, if it is one. -/
def linkQuery? (l : Link) : Option Query := (linkCommand .cypress l).query?

/-- The check that the page is read for behind some links: the first of them reads its address or
its title, and the others check it. -/
def pageRead? : (before : List Link) → Option Expectation
  | [] => none
  | root :: rest =>
    if rest.all (fun l => isChainer l.name) then ChainReading.pageCheck? root.name else none

/-- What a check behind some links is about: the page that they have read, or the element that their
queries reach. -/
def subjectBehind (before : List Link) : Subject :=
  if (pageRead? before).isSome then .page else .element (before.filterMap linkQuery?)

/-- The name that a check gives as its first argument. -/
def chainer (l : Link) : Text :=
  ((splitArguments (l.args.getD [])).head?.bind unquote).getD []

/-- The check that a link makes behind some others. -/
def linkCheck (source : Text) (before : List Link) (l : Link) : Assertion :=
  let positive := Text.after? "not." (chainer l)
  { subject := subjectBehind before
    expectation := ((pageRead? before).map Lookup.known).getD
      (Expectation.lookup .cypress (positive.getD (chainer l)))
    negated := positive.isSome
    argument := joinArguments? (splitArguments (l.args.getD [])).tail
    source := source }

/-- What links do behind some others: each one that is no query is a check or a command. -/
def linkDeeds (source : Text) (before : List Link) : List Link → List Deed
  | [] => []
  | l :: rest =>
    (if isChainer l.name then [.check (linkCheck source before l)]
      else if (linkQuery? l).isSome then []
      else [.act (before.filterMap linkQuery?) (linkCommand .cypress l)]) ++
      linkDeeds source (before ++ [l]) rest

/-- Whether the first link that is no query is a check. -/
def checksFirst (links : List Link) : Bool :=
  (links.find? fun l => (linkQuery? l).isNone).any fun l => isChainer l.name

theorem linkCommand_of_args {l : Link} {args : Text} (h : l.args = some args) :
    linkCommand .cypress l = .call (Action.lookup .cypress l.name) l.name args := by
  rw [linkCommand, h, Option.getD_some]

/-- A check is no query. -/
theorem linkQuery?_of_isChainer {l : Link} (h : isChainer l.name = true) : linkQuery? l = none := by
  simp only [isChainer, Bool.or_eq_true, decide_eq_true_eq] at h
  unfold linkQuery? linkCommand
  rcases h with h | h <;> rw [h] <;> rfl

/-- A query of a link can be taken up again as a command. -/
theorem query?_ofQuery {l : Link} {q : Query} (h : linkQuery? l = some q) :
    (Command.ofQuery .cypress q).query? = some q := by
  unfold linkQuery? Command.query? linkCommand Command.call at h
  obtain ⟨a, ha, rfl⟩ := Option.map_eq_some_iff.1 h
  obtain ⟨-, hquery⟩ := Option.filter_eq_some_iff.1 ha
  simp [Command.ofQuery, Command.query?, Command.call, Lookup.value?, hquery,
    (Text.isTrimmed_trim _).trim_eq]

/-! ## 3. What is known of a reading -/

namespace ChainReading

/-- What is known of a reading behind some links. `done` is what they have done, and `pending` what
the step being read has done so far and gives up if a check comes before any command: a reading of
the page at the root. -/
structure Follows (before : List Link) (done pending : List Deed) (r : ChainReading) : Prop where
  queries : r.queries = before.filterMap linkQuery?
  page : r.page = pageRead? before
  reaches : r.chain = [] ∨ r.chain.filterMap Command.query? = r.queries
  acting : r.acts = true →
    r.steps.flatMap Step.deeds ++ Command.deeds [] r.chain = done ∧ pending = []
  idle : r.acts = false →
    r.steps.flatMap Step.deeds = done ∧ Command.deeds [] r.chain = pending
  kept : pending = [] ∨ (r.steps = [] ∧ r.chain ≠ [])

variable {before : List Link} {done pending : List Deed} {r r' : ChainReading} {source args : Text}
  {l : Link}

/-- A step that is taken up again begins with the queries of the current element. -/
theorem Follows.resumed (h : Follows before done pending r) :
    Command.deeds [] r.resumed = Command.deeds [] r.chain ∧
      r.resumed.filterMap Command.query? = r.queries := by
  have hqueries : ∀ q ∈ r.queries, (Command.ofQuery .cypress q).query? = some q := by
    intro q hq
    rw [h.queries] at hq
    obtain ⟨l, -, hl⟩ := List.mem_filterMap.1 hq
    exact query?_ofQuery hl
  obtain ⟨hdeeds, hfilter⟩ := @Command.deeds_ofQuery r.queries [] hqueries
  unfold ChainReading.resumed
  by_cases hchain : r.chain = []
  · rw [hchain, List.isEmpty_nil, if_pos rfl]
    exact ⟨hdeeds, hfilter⟩
  · rw [List.isEmpty_eq_false_iff.2 hchain, if_neg Bool.false_ne_true]
    exact ⟨rfl, h.reaches.resolve_left hchain⟩

/-- The page that is read for a check changes with every link that is none. -/
theorem pageRead?_concat (hpage : before ≠ [] ∨ pageCheck? l.name = none) :
    pageRead? (before ++ [l]) = if isChainer l.name then pageRead? before else none := by
  cases before with
  | nil =>
    have hnone := hpage.resolve_left (by simp)
    simp [pageRead?, hnone]
  | cons root rest =>
    cases hl : isChainer l.name <;> simp [pageRead?, hl]

/-- A check is about what the links before it have reached, and that is something. -/
theorem Follows.should (h : Follows before done pending r) (hargs : l.args = some args)
    {a : Assertion} (ha : r.should source args = some a) :
    a = linkCheck source before l ∧ a.subject ≠ .element [] := by
  unfold ChainReading.should at ha
  split at ha
  · exact absurd ha (by simp)
  · rename_i first rest hsplit
    obtain ⟨name, hname, ha⟩ := Option.bind_eq_some_iff.1 ha
    obtain ⟨⟨subject, expectation⟩, hchecked, ha⟩ := Option.bind_eq_some_iff.1 ha
    obtain rfl := Option.some.inj ha
    have hchainer : chainer l = name := by simp [chainer, hargs, hsplit, hname]
    have hcheck : subject = subjectBehind before ∧ subject ≠ .element [] ∧
        expectation = ((pageRead? before).map Lookup.known).getD
          (Expectation.lookup .cypress ((Text.after? "not." name).getD name)) := by
      unfold checked at hchecked
      rw [h.page, h.queries] at hchecked
      unfold subjectBehind
      -- a check is about the page that has been read, or else about the element that is reached
      cases hpage : pageRead? before with
      | some e =>
        rw [hpage] at hchecked
        obtain ⟨rfl, rfl⟩ := Prod.mk.inj (Option.some.inj hchecked)
        simp
      | none =>
        rw [hpage] at hchecked
        by_cases hnone : before.filterMap linkQuery? = []
        · simp [hnone] at hchecked
        · simp only [List.isEmpty_eq_false_iff.2 hnone, Bool.false_eq_true, if_false] at hchecked
          obtain ⟨rfl, rfl⟩ := Prod.mk.inj (Option.some.inj hchecked)
          simpa using hnone
    obtain ⟨hsubject, hne, hexpectation⟩ := hcheck
    refine ⟨?_, hne⟩
    simp only [linkCheck, hchainer, hargs, Option.getD_some, hsplit, List.tail_cons, hsubject,
      hexpectation]

/-- A check completes the step before it, unless that has only reached an element. -/
theorem Follows.next_check (h : Follows before done pending r) (hargs : l.args = some args)
    (hpage : before ≠ [] ∨ pageCheck? l.name = none) (hname : isChainer l.name = true)
    (hnext : r.next source l.name args = some r') :
    Follows (before ++ [l]) (done ++ [.check (linkCheck source before l)]) [] r' ∧
      (linkCheck source before l).subject ≠ .element [] := by
  rw [r.next_check source args hname] at hnext
  obtain ⟨a, ha, rfl⟩ := Option.map_eq_some_iff.1 hnext
  obtain ⟨rfl, hne⟩ := h.should hargs ha
  -- what is pending is given up: a step is closed only if it acts
  have hsteps : r.close.steps.flatMap Step.deeds = done := by
    unfold close
    cases hacts : r.acts with
    | true => simpa [Step.deeds] using (h.acting hacts).1
    | false => simpa using (h.idle hacts).1
  refine ⟨⟨?_, ?_, .inl rfl, fun hacts => absurd hacts (by simp [close]), ?_, .inl rfl⟩, hne⟩
  · simp [close, h.queries, linkQuery?_of_isChainer hname]
  · rw [pageRead?_concat hpage, if_pos hname]
    exact h.page
  · intro _
    refine ⟨?_, rfl⟩
    simp [hsteps, Step.deeds]

/-- A query goes on with the step being read. -/
theorem Follows.next_query (h : Follows before done pending r) (hargs : l.args = some args)
    (hpage : before ≠ [] ∨ pageCheck? l.name = none) (hname : isChainer l.name = false)
    {q : Query} (hquery : linkQuery? l = some q) (hnext : r.next source l.name args = some r') :
    Follows (before ++ [l]) done pending r' := by
  obtain ⟨hdeeds, hfilter⟩ := h.resumed
  have hcommand : (linkCommand .cypress l).query? = some q := hquery
  have hlast : Command.deeds [] (r.resumed ++ [linkCommand .cypress l]) =
      Command.deeds [] r.chain := by
    rw [Command.deeds_append, hdeeds]
    simp [Command.deeds, hcommand]
  rw [r.next_command source hname (linkCommand_of_args hargs), hcommand] at hnext
  obtain rfl := Option.some.inj hnext
  simp only [Option.isNone_some, Bool.or_false, Option.toList_some]
  refine ⟨?_, ?_, .inr ?_, ?_, ?_, ?_⟩
  · simp [h.queries, hquery]
  · rw [pageRead?_concat hpage, hname, if_neg Bool.false_ne_true]
  · simp [hfilter, hcommand]
  · intro hacts
    rw [hlast]
    exact h.acting hacts
  · intro hacts
    rw [hlast]
    exact h.idle hacts
  · exact h.kept.imp_right fun hkept => ⟨hkept.1, by simp⟩

/-- A command belongs to the step being read, and makes it one that is kept. -/
theorem Follows.next_act (h : Follows before done pending r) (hargs : l.args = some args)
    (hpage : before ≠ [] ∨ pageCheck? l.name = none) (hname : isChainer l.name = false)
    (hquery : linkQuery? l = none) (hnext : r.next source l.name args = some r') :
    Follows (before ++ [l])
      (done ++ pending ++ [.act (before.filterMap linkQuery?) (linkCommand .cypress l)]) [] r' := by
  obtain ⟨hdeeds, hfilter⟩ := h.resumed
  have hcommand : (linkCommand .cypress l).query? = none := hquery
  -- from here on the step is kept, with what was pending in it
  have hbefore : r.steps.flatMap Step.deeds ++ Command.deeds [] r.chain = done ++ pending := by
    cases hacts : r.acts with
    | true =>
      obtain ⟨hdone, rfl⟩ := h.acting hacts
      rw [hdone, List.append_nil]
    | false => rw [(h.idle hacts).1, (h.idle hacts).2]
  rw [r.next_command source hname (linkCommand_of_args hargs), hcommand] at hnext
  obtain rfl := Option.some.inj hnext
  simp only [Option.isNone_none, Bool.or_true, Option.toList_none, List.append_nil]
  refine ⟨?_, ?_, .inr ?_, ?_, ?_, .inl rfl⟩
  · simp [h.queries, hquery]
  · rw [pageRead?_concat hpage, hname, if_neg Bool.false_ne_true]
  · simp [hfilter, hcommand]
  · intro _
    refine ⟨?_, rfl⟩
    rw [Command.deeds_append, hdeeds, hfilter, ← List.append_assoc, hbefore, h.queries]
    simp [Command.deeds, hcommand]
  · intro hacts
    exact absurd hacts (by simp)

/-- At its end a chain has done all that its links have done. -/
theorem Follows.finish (h : Follows before done pending r) :
    r.finish.flatMap Step.deeds = done ++ pending := by
  unfold ChainReading.finish
  cases hacts : r.acts with
  | true =>
    obtain ⟨hdone, rfl⟩ := h.acting hacts
    simpa [Step.deeds] using hdone
  | false =>
    obtain ⟨hdone, hpending⟩ := h.idle hacts
    rcases h.kept with rfl | ⟨hsteps, hchain⟩
    · -- a step that has only reached an element does nothing
      rw [List.append_nil]
      split
      · simp [Step.deeds, hdone, hpending]
      · exact hdone
    · simp [hsteps, hchain, Step.deeds, hpending, ← hdone]

/-- The links of a chain are done one after another, and every check is about something. -/
theorem Follows.links {links : List Link} (h : Follows before done pending r)
    (hpage : before ≠ []) (hlinks : r.links source links = some r') :
    r'.finish.flatMap Step.deeds =
        done ++ (if checksFirst links then [] else pending) ++ linkDeeds source before links ∧
      ∀ a, .check a ∈ linkDeeds source before links → a.subject ≠ .element [] := by
  -- the invariant is handed on by the lemma for the kind of the next link
  induction links generalizing before done pending r with
  | nil =>
    obtain rfl := Option.some.inj hlinks
    refine ⟨?_, fun a ha => absurd ha List.not_mem_nil⟩
    rw [h.finish]
    simp [checksFirst, linkDeeds]
  | cons l rest ih =>
    obtain ⟨args, mid, hargs, hmid, hlinks⟩ := links_cons hlinks
    cases hname : isChainer l.name with
    | true =>
      obtain ⟨hfollows, hne⟩ := h.next_check hargs (.inl hpage) hname hmid
      obtain ⟨hdeeds, hchecks⟩ := ih hfollows (by simp) hlinks
      have hfirst : checksFirst (l :: rest) = true := by
        simp [checksFirst, linkQuery?_of_isChainer hname, hname]
      refine ⟨by simp [hdeeds, linkDeeds, hname, hfirst], ?_⟩
      intro a ha
      simp only [linkDeeds, hname, if_true, List.mem_append, List.mem_singleton,
        Deed.check.injEq] at ha
      rcases ha with rfl | ha
      · exact hne
      · exact hchecks a ha
    | false =>
      cases hquery : linkQuery? l with
      | some q =>
        obtain ⟨hdeeds, hchecks⟩ := ih (h.next_query hargs (.inl hpage) hname hquery hmid)
          (by simp) hlinks
        have hfirst : checksFirst (l :: rest) = checksFirst rest := by
          simp [checksFirst, hquery]
        refine ⟨by simp [hdeeds, linkDeeds, hname, hquery, hfirst], ?_⟩
        simpa [linkDeeds, hname, hquery] using hchecks
      | none =>
        obtain ⟨hdeeds, hchecks⟩ := ih (h.next_act hargs (.inl hpage) hname hquery hmid)
          (by simp) hlinks
        have hfirst : checksFirst (l :: rest) = false := by
          simp [checksFirst, hquery, hname]
        refine ⟨by simp [hdeeds, linkDeeds, hname, hquery, hfirst], ?_⟩
        simpa [linkDeeds, hname, hquery] using hchecks

theorem pageCheck?_of_isChainer {name : Text} (h : isChainer name = true) :
    pageCheck? name = none := by
  simp only [isChainer, Bool.or_eq_true, decide_eq_true_eq] at h
  rcases h with rfl | rfl <;> rfl

theorem isChainer_of_pageCheck {name : Text} {e : Expectation} (h : pageCheck? name = some e) :
    isChainer name = false := by
  cases hname : isChainer name with
  | false => rfl
  | true =>
    rw [pageCheck?_of_isChainer hname] at h
    exact absurd h (by simp)

/-- A reading of the page reaches no element. -/
theorem linkQuery?_of_pageCheck {e : Expectation} (hargs : l.args = some args)
    (h : pageCheck? l.name = some e) : linkQuery? l = none := by
  unfold linkQuery?
  rw [linkCommand_of_args hargs]
  unfold pageCheck? at h
  split at h
  · rename_i hlookup
    rw [hlookup]
    rfl
  · rename_i hlookup
    rw [hlookup]
    rfl
  · exact absurd h (by simp)

/-- A reading of the page at the root is pending: a check that comes first gives it up. -/
theorem follows_page {root : Link} {e : Expectation} (hargs : root.args = some args)
    (hpage : pageCheck? root.name = some e) :
    Follows [root] [] [.act [] (linkCommand .cypress root)]
      { chain := [linkCommand .cypress root], page := some e } := by
  have hquery : linkQuery? root = none := linkQuery?_of_pageCheck hargs hpage
  have hcommand : (linkCommand .cypress root).query? = none := hquery
  refine ⟨?_, ?_, .inr ?_, fun hacts => absurd hacts (by simp), fun _ => ⟨rfl, ?_⟩,
    .inr ⟨rfl, by simp⟩⟩
  · simp [hquery]
  · simp [pageRead?, hpage]
  · simp [hcommand]
  · simp [Command.deeds, hcommand]

/-- Any other call at the root is done at once, and it is no check: nothing has been reached that
could be checked. -/
theorem follows_next {root : Link} (hargs : root.args = some args)
    (hpage : pageCheck? root.name = none) (h : next {} source root.name args = some r) :
    Follows [root] (linkDeeds source [] [root]) [] r ∧
      ∀ a, .check a ∉ linkDeeds source [] [root] := by
  have hnew : Follows [] [] [] ({} : ChainReading) :=
    ⟨rfl, rfl, .inl rfl, fun hacts => absurd hacts (by simp), fun _ => ⟨rfl, rfl⟩, .inl rfl⟩
  cases hname : isChainer root.name with
  | true => exact absurd rfl (hnew.next_check hargs (.inr hpage) hname h).2
  | false =>
    cases hquery : linkQuery? root with
    | some q =>
      have hfollows := hnew.next_query hargs (.inr hpage) hname hquery h
      simpa [linkDeeds, hname, hquery] using hfollows
    | none =>
      have hfollows := hnew.next_act hargs (.inr hpage) hname hquery h
      simpa [linkDeeds, hname, hquery] using hfollows

end ChainReading

/-! ## 4. Statements -/

theorem linkDeeds_cons (source : Text) (before : List Link) (l : Link) (rest : List Link) :
    linkDeeds source before (l :: rest) =
      linkDeeds source before [l] ++ linkDeeds source (before ++ [l]) rest := by
  simp [linkDeeds]

/-- Whether the first link of a chain reads the page for a check, and does nothing else. -/
def isSpentRead (root : Link) (rest : List Link) : Bool :=
  (ChainReading.pageCheck? root.name).isSome && checksFirst rest

theorem deeds_readCommands {source : Text} {root : Link} {rest : List Link} {steps : List Step}
    (h : readCommands source (root :: rest) = some steps) :
    steps.flatMap Step.deeds =
        (if isSpentRead root rest then linkDeeds source [root] rest
          else linkDeeds source [] (root :: rest)) ∧
      ∀ a, .check a ∈ linkDeeds source [] (root :: rest) → a.subject ≠ .element [] := by
  obtain ⟨args, first, last, hargs, hr, hr', rfl⟩ := readCommands_cons h
  rw [linkDeeds_cons]
  rcases ChainReading.first_cases hr with ⟨e, hpage, rfl⟩ | ⟨hpage, hnext⟩
  · have hroot : linkDeeds source [] [root] = [.act [] (linkCommand .cypress root)] := by
      simp [linkDeeds, ChainReading.isChainer_of_pageCheck hpage,
        ChainReading.linkQuery?_of_pageCheck hargs hpage]
    have hfollows := ChainReading.follows_page hargs hpage
    rw [linkCommand_of_args hargs] at hfollows hroot
    obtain ⟨hdeeds, hchecks⟩ := hfollows.links (by simp) hr'
    refine ⟨?_, ?_⟩
    · rw [hdeeds, isSpentRead, hpage, hroot, Option.isSome_some, Bool.true_and]
      split <;> simp
    · intro a ha
      rw [hroot] at ha
      exact hchecks a (by simpa using ha)
  · obtain ⟨hfollows, hroot⟩ := ChainReading.follows_next hargs hpage hnext
    obtain ⟨hdeeds, hchecks⟩ := hfollows.links (by simp) hr'
    refine ⟨?_, ?_⟩
    · rw [hdeeds, isSpentRead, hpage, Option.isSome_none, Bool.false_and]
      simp
    · intro a ha
      rcases List.mem_append.1 ha with ha | ha
      · exact absurd ha (hroot a)
      · exact hchecks a ha

/-- The steps of a chain of commands do what its links say: each link that is no query is one
command or one check, in order and with all queries before it. Only a reading of the page at the
root is left out where a check comes before any command. A check is about the page or about an
element that at least one query reaches. -/
theorem deeds_ofStatement {s : Text} {root : Link} {rest : List Link}
    (hchain : Source.readChain s = some (⟨"cy", none⟩ :: root :: rest))
    (hread : Step.ofStatement .cypress s ≠ [.raw (Text.trim s)]) :
    (Step.ofStatement .cypress s).flatMap Step.deeds =
        (if isSpentRead root rest then linkDeeds (Text.trim s) [root] rest
          else linkDeeds (Text.trim s) [] (root :: rest)) ∧
      ∀ a, .check a ∈ linkDeeds (Text.trim s) [] (root :: rest) → a.subject ≠ .element [] := by
  have htrim := Source.readChain_trim hchain
  have hshape := (Step.ofStatement_cases .cypress s).resolve_left hread
  rcases readCypress_cases hshape with
    ⟨links, hlinks, hcommands⟩ | ⟨subject, links, a, hlinks, -, -⟩
  · rw [htrim] at hlinks
    obtain rfl := (List.cons.inj (Option.some.inj hlinks)).2
    exact deeds_readCommands hcommands
  · rw [htrim] at hlinks
    obtain ⟨hroot, -⟩ := List.cons.inj (Option.some.inj hlinks)
    exact absurd (congrArg Link.args hroot) (by simp)

/-- A statement that checks the page twice, reaches into it, acts, checks what it has reached and
acts once more. -/
def wanderingStatement : Text :=
  " cy.url().should('include', '/a').and('not.match', /b/)\n  .get('.list').find( 'li' )" ++
    ".click(\x7b force: true \x7d).should('have.text', \"it's\").contains('Buy').blur() "

/-- The links of this statement behind its root and its reading of the page. -/
def wanderingLinks : List Link :=
  [⟨"should", some "'include', '/a'"⟩, ⟨"and", some "'not.match', /b/"⟩, ⟨"get", some "'.list'"⟩,
    ⟨"find", some " 'li' "⟩, ⟨"click", some "\x7b force: true \x7d"⟩,
    ⟨"should", some "'have.text', \"it's\""⟩, ⟨"contains", some "'Buy'"⟩, ⟨"blur", some []⟩]

theorem deeds_wanderingStatement :
    Source.readChain wanderingStatement =
        some (⟨"cy", none⟩ :: ⟨"url", some []⟩ :: wanderingLinks) ∧
      Step.ofStatement .cypress wanderingStatement ≠ [.raw (Text.trim wanderingStatement)] ∧
      (Step.ofStatement .cypress wanderingStatement).flatMap Step.deeds =
        [.check ⟨.page, .known .haveUrl, false, some "'/a'", Text.trim wanderingStatement⟩,
          .check ⟨.page, .known .haveUrl, true, some "/b/", Text.trim wanderingStatement⟩,
          .act [⟨.locate, "'.list'"⟩, ⟨.locate, "'li'"⟩]
            ⟨.known .click, "click", some "\x7b force: true \x7d"⟩,
          .check ⟨.element [⟨.locate, "'.list'"⟩, ⟨.locate, "'li'"⟩], .known .haveText, false,
            some "\"it's\"", Text.trim wanderingStatement⟩,
          .act [⟨.locate, "'.list'"⟩, ⟨.locate, "'li'"⟩, ⟨.locateText, "'Buy'"⟩]
            ⟨.known .blur, "blur", some []⟩] := by
  have hchain : Source.readChain wanderingStatement =
      some (⟨"cy", none⟩ :: ⟨"url", some []⟩ :: wanderingLinks) := by decide +kernel
  have hread : Step.ofStatement .cypress wanderingStatement ≠
      [.raw (Text.trim wanderingStatement)] := by decide +kernel
  exact ⟨hchain, hread, (deeds_ofStatement hchain hread).1.trans (by decide +kernel)⟩

end Parlance
