import Mathlib.Data.List.Forall2
import Parlance.Draft.Emission
import Parlance.Proofs.Style

/-!
Writing in place never looks back. Whatever has been written before, an emission puts the same draft
at its end; the draft is the one that is put together from the drafts of the parts. So the text of a
sequence of pieces is what each of them writes alone, one after another, and its advisories are those
of the pieces in the order in which they were raised first.
-/

namespace Parlance

/-! ## 1. Merging advisories -/

namespace Advisory

theorem add_of_mem {messages : List Text} {m : Text} (h : m ∈ messages) :
    add messages m = messages := if_pos (List.contains_iff_mem.2 h)

theorem add_of_not_mem {messages : List Text} {m : Text} (h : m ∉ messages) :
    add messages m = messages ++ [m] := if_neg fun hm => h (List.contains_iff_mem.1 hm)

theorem merge_cons (messages : List Text) (m : Text) (extra : List Text) :
    merge messages (m :: extra) = merge (add messages m) extra := rfl

theorem merge_append (messages extra more : List Text) :
    merge messages (extra ++ more) = merge (merge messages extra) more := List.foldl_append

/-- Merging adds the messages that are new, each where it comes first. -/
theorem merge_eq (messages extra : List Text) :
    merge messages extra = messages ++ (extra.filter (· ∉ messages)).eraseDups := by
  induction extra generalizing messages with
  | nil => exact (List.append_nil messages).symm
  | cons m extra ih =>
    rw [merge_cons, ih]
    by_cases hm : m ∈ messages
    · rw [add_of_mem hm, List.filter_cons_of_neg (by simpa using hm)]
    · have hnew : extra.filter (· ∉ messages ++ [m]) =
          (extra.filter (· ∉ messages)).filter fun x => !x == m := by
        rw [List.filter_filter]
        apply List.filter_congr
        intro x _
        by_cases hx : x = m <;> simp [hx]
      rw [add_of_not_mem hm, List.filter_cons_of_pos (by simpa using hm), List.eraseDups_cons, hnew,
        List.append_assoc]
      rfl

theorem mem_merge {messages extra : List Text} {m : Text} :
    m ∈ merge messages extra ↔ m ∈ messages ∨ m ∈ extra := by
  rw [merge_eq, List.mem_append, List.mem_eraseDups, List.mem_filter, decide_eq_true_eq]
  by_cases h : m ∈ messages <;> simp [h]

/-- What has been raised is never taken back. -/
theorem eq_nil_of_merge_eq_nil {messages extra : List Text} (h : merge messages extra = []) :
    messages = [] ∧ extra = [] := by
  have hnone (m : Text) : ¬(m ∈ messages ∨ m ∈ extra) := by
    rw [← mem_merge, h]
    exact List.not_mem_nil
  exact ⟨List.eq_nil_iff_forall_not_mem.2 fun m hm => hnone m (.inl hm),
    List.eq_nil_iff_forall_not_mem.2 fun m hm => hnone m (.inr hm)⟩

theorem nodup_merge {messages : List Text} (h : messages.Nodup) (extra : List Text) :
    (merge messages extra).Nodup := by
  induction extra generalizing messages with
  | nil => exact h
  | cons m extra ih =>
    rw [merge_cons]
    apply ih
    by_cases hm : m ∈ messages
    · rwa [add_of_mem hm]
    · rw [add_of_not_mem hm]
      exact List.nodup_append.2 ⟨h, List.pairwise_singleton _ m, by
        rintro a ha b hb rfl
        exact hm (List.mem_singleton.1 hb ▸ ha)⟩

theorem merge_add (messages extra : List Text) (m : Text) :
    merge messages (add extra m) = add (merge messages extra) m := by
  by_cases hm : m ∈ extra
  · rw [add_of_mem hm, add_of_mem (mem_merge.2 (.inr hm))]
  · rw [add_of_not_mem hm, merge_append]
    rfl

/-- What has been merged before need not be told apart from what is merged now. -/
theorem merge_merge (messages extra more : List Text) :
    merge messages (merge extra more) = merge (merge messages extra) more := by
  induction more generalizing extra with
  | nil => rfl
  | cons m more ih => rw [merge_cons, ih, merge_add, merge_cons]

end Advisory

/-! ## 2. Drafts one after another -/

namespace Draft

@[simp] theorem advisories_append (a b : Draft) :
    (a ++ b).advisories = Advisory.merge a.advisories b.advisories := rfl

theorem append_assoc (a b c : Draft) : a ++ b ++ c = a ++ (b ++ c) :=
  congr_arg₂ Draft.mk (List.append_assoc a.text b.text c.text)
    (Advisory.merge_merge a.advisories b.advisories c.advisories).symm

theorem append_empty (a : Draft) : a ++ ({} : Draft) = a :=
  congrArg (Draft.mk · a.advisories) (List.append_nil a.text)

theorem append_empty_append (a b : Draft) : a ++ (({} : Draft) ++ b) = a ++ b := by
  rw [← append_assoc, append_empty]

theorem text_concat (drafts : List Draft) : (concat drafts).text = drafts.flatMap Draft.text := by
  induction drafts with
  | nil => rfl
  | cons a drafts ih => rw [concat_cons, text_append, ih, List.flatMap_cons]

theorem merge_concat (messages : List Text) (drafts : List Draft) :
    Advisory.merge messages (concat drafts).advisories =
      Advisory.merge messages (drafts.flatMap Draft.advisories) := by
  induction drafts generalizing messages with
  | nil => rfl
  | cons a drafts ih =>
    rw [concat_cons, advisories_append, Advisory.merge_merge, ih, List.flatMap_cons,
      Advisory.merge_append]

theorem separated_cons (a : Draft) (drafts : List Draft) :
    separated (a :: drafts) = a ++ concat (drafts.flatMap fun d => [blankLine, d]) := by
  induction drafts generalizing a with
  | nil => rfl
  | cons b drafts ih => exact congrArg (fun d => a ++ (blankLine ++ d)) (ih b)

end Draft

/-! ## 3. What an emission puts at the end -/

namespace Emission

/-- Whether an emission puts a draft at the end of whatever has been written. -/
def Appends (m : Emission) (a : Draft) : Prop := ∀ d, m.after d = d ++ a

namespace Appends

variable {m n : Emission} {a b : Draft}

theorem nothing : Appends (pure ()) {} := fun d => (Draft.append_empty d).symm

theorem put (t : Text) : Appends (put t) { text := t } := fun _ => rfl

theorem raise (message : Text) : Appends (raise message) (.advice message) := fun d =>
  congrArg (Draft.mk · (Advisory.add d.advisories message)) (List.append_nil d.text).symm

theorem seq (hm : Appends m a) (hn : Appends n b) : Appends (do m; n) (a ++ b) := by
  intro d
  change n.after (m.after d) = _
  rw [hm, hn, Draft.append_assoc]

/-- A draft of nothing in front makes no difference. -/
theorem drop (h : Appends m (({} : Draft) ++ a)) : Appends m a := fun d => by
  rw [h, Draft.append_empty_append]

theorem ite {c : Bool} (hm : c = true → Appends m a) (hn : c = false → Appends n b) :
    Appends (if c then m else n) (if c then a else b) := by
  cases c with
  | true => exact hm rfl
  | false => exact hn rfl

theorem forM {α : Type} {f : α → Emission} {g : α → Draft} (l : List α)
    (h : ∀ x ∈ l, Appends (f x) (g x)) : Appends (l.forM f) (.concat (l.map g)) := by
  induction l with
  | nil => exact nothing
  | cons x l ih =>
    exact (h x List.mem_cons_self).seq (ih fun y hy => h y (List.mem_cons_of_mem x hy))

end Appends

/-- Emissions that put some drafts at the end, one each. -/
abbrev AllAppend : List Emission → List Draft → Prop := List.Forall₂ Appends

theorem AllAppend.map {α : Type} {f : α → Emission} {g : α → Draft} (h : ∀ x, Appends (f x) (g x))
    (l : List α) : AllAppend (l.map f) (l.map g) := by
  rw [AllAppend, List.forall₂_map_left_iff, List.forall₂_map_right_iff]
  exact List.forall₂_same.2 fun x _ => h x

theorem Appends.terminated {ms : List Emission} {drafts : List Draft} (h : AllAppend ms drafts) :
    Appends (ms.forM fun part => do part; putBreak) (.concat (drafts.map (· ++ Draft.blankLine))) := by
  induction h with
  | nil => exact nothing
  | cons hm _ ih => exact (hm.seq (put ['\n'])).seq ih

theorem Appends.parts {ms : List Emission} {drafts : List Draft} (h : AllAppend ms drafts) :
    Appends (parts true ms) (.separated drafts) ∧
      Appends (parts false ms) (Draft.concat (drafts.flatMap fun d => [Draft.blankLine, d])) := by
  induction h with
  | nil => exact ⟨nothing, nothing⟩
  | @cons m a ms drafts hm htail ih =>
    -- a break is put in front of every part but the first, so both forms go on with the second one
    refine ⟨?_, (put ['\n']).seq (hm.seq ih.2)⟩
    rw [Draft.separated_cons]
    exact (nothing.seq (hm.seq ih.2)).drop

end Emission

namespace Route

open Emission

variable (r : Route) (level : Nat)

/-! ## 4. Lines -/

theorem line_appends (code : Text) : Appends (r.emitLine level code) (r.line level code) := .put _

theorem block_appends (code : Text) : Appends (r.emitBlock level code) (r.block level code) := by
  unfold emitBlock block
  cases Text.lines code with
  | nil => exact r.line_appends level []
  | cons first rest =>
    apply (r.line_appends level (Text.trim first)).seq
    apply Appends.forM
    intro l _
    exact .ite (fun _ => .put ['\n']) fun _ => r.line_appends level _

theorem verbatim_appends (code : Text) :
    Appends (r.emitVerbatim level code) (r.verbatim level code) := by
  unfold emitVerbatim verbatim
  dsimp only
  split
  · exact r.block_appends level code
  · exact r.block_appends level (code ++ [';'])

theorem commentStep_appends (title comment : Text) :
    Appends (r.emitCommentStep level title comment) (r.commentStep level title comment) := by
  unfold commentStep
  rw [show ∀ a b c : Draft, a ++ b ++ c = a ++ (b ++ c) from Draft.append_assoc]
  exact (r.line_appends level _).seq ((r.line_appends (level + 1) _).seq (r.line_appends level _))

theorem fallback_appends (call : Text) :
    Appends (r.emitFallback level call) (r.fallback level call) := by
  unfold emitFallback fallback
  cases r.target with
  | testRail => exact r.commentStep_appends level performAction call
  | cypress => exact r.line_appends level _
  | playwright => exact r.line_appends level _

/-! ## 5. Steps -/

theorem verify_appends (a : Assertion) : Appends (r.emitVerify level a) (r.verify level a) := by
  unfold emitVerify verify
  cases a.expectation with
  | unrecognized verb => exact (Appends.raise _).seq (r.fallback_appends level a.source)
  | known expectation =>
    dsimp only
    cases r.check a expectation with
    | some code => exact r.line_appends level code
    | none => exact (Appends.raise _).seq (r.fallback_appends level a.source)

theorem command_appends (queries : List Query) (c : Command) :
    Appends (r.emitCommand level queries c) (r.command level queries c) := by
  unfold emitCommand command
  cases c.action with
  | unrecognized name => exact (Appends.raise _).seq (r.fallback_appends level _)
  | known action =>
    dsimp only
    apply Appends.ite
    · exact fun _ => r.commentStep_appends level _ _
    · intro _
      cases r.codeAction queries action c with
      | some code => exact r.line_appends level code
      | none => exact (Appends.raise _).seq (r.fallback_appends level _)

theorem locate_appends (queries : List Query) :
    Appends (r.emitLocate level queries) (r.locate level queries) := by
  unfold emitLocate locate
  dsimp only
  cases r.target with
  | testRail => exact r.commentStep_appends level _ _
  | playwright => exact r.line_appends level _
  | cypress =>
    dsimp only
    cases r.cypressLocator queries with
    | some locator => exact r.line_appends level _
    | none => exact (Appends.raise _).seq (r.fallback_appends level _)

/-- Once a command has been written, queries at the end are left out. -/
theorem commands_appends (queries : List Query) (commands : List Command) :
    Appends (r.emitCommands level true queries commands) (r.commands level queries commands) := by
  induction commands generalizing queries with
  | nil => exact .nothing
  | cons c rest ih =>
    unfold emitCommands Route.commands
    cases c.query? with
    | some query => exact ih (queries ++ [query])
    | none => exact (r.command_appends level queries c).seq (ih queries)

/-- Reading a chain from its start finds out whether it has a command as well as looking at all of it
does. -/
theorem unacted_appends (queries : List Query) (commands : List Command) :
    Appends (r.emitCommands level false queries commands)
      (if commands.all (fun c => c.query?.isSome) &&
          !(queries ++ commands.filterMap Command.query?).isEmpty then
        r.locate level (queries ++ commands.filterMap Command.query?)
      else r.commands level queries commands) := by
  induction commands generalizing queries with
  | nil =>
    rw [List.filterMap_nil, List.append_nil]
    exact .ite (fun _ => r.locate_appends level queries) fun _ => .nothing
  | cons c rest ih =>
    unfold emitCommands Route.commands
    rw [List.all_cons]
    cases hq : c.query? with
    | some query =>
      rw [List.filterMap_cons_some hq, ← List.singleton_append, ← List.append_assoc]
      exact ih (queries ++ [query])
    -- a command ends the search: from here on queries are no longer kept for a locator
    | none => exact (r.command_appends level queries c).seq (r.commands_appends level queries rest)

theorem chain_appends (chain : List Command) :
    Appends (r.emitCommands level false [] chain) (r.chain level chain) :=
  r.unacted_appends level [] chain

theorem kept_appends (code : Text) :
    Appends (r.raiseKept code)
      (if !isComment code && Slot.command.occursIn r.source code then keptAdvice code else {}) :=
  .ite (fun _ => .raise _) fun _ => .nothing

theorem raw_appends (code : Text) : Appends (r.emitRaw level code) (r.raw level code) := by
  have hkept := r.kept_appends code
  unfold emitRaw raw
  -- a comment raises nothing, so the draft that is put in front of it is empty
  generalize isComment code = comment at hkept ⊢
  cases comment with
  | true => exact (hkept.seq (r.verbatim_appends level code)).drop
  | false =>
    apply hkept.seq
    apply Appends.ite
    · intro _
      rw [Draft.append_assoc]
      exact (r.line_appends level _).seq
        ((r.block_appends (level + 1) code).seq (r.line_appends level _))
    · exact fun _ => r.verbatim_appends level code

theorem step_appends (s : Step) : Appends (r.emitStep level s) (r.step level s) := by
  cases s with
  | chain commands => exact r.chain_appends level commands
  | verify assertion => exact r.verify_appends level assertion
  | raw code => exact r.raw_appends level code

theorem steps_appends (steps : List Step) :
    Appends (steps.forM (r.emitStep level)) (r.steps level steps) :=
  .forM steps fun s _ => r.step_appends level s

/-! ## 6. Documents -/

theorem hook_appends (kind : HookKind) (body : Text) :
    Appends (r.emitHook level kind body) (r.hook level kind body) := by
  unfold emitHook hook
  rw [Draft.append_assoc, Draft.append_assoc]
  exact (r.line_appends level _).seq ((Appends.ite (fun _ => .raise _) fun _ => .nothing).seq
    ((r.steps_appends (level + 1) _).seq (r.line_appends level _)))

theorem titledBody_appends (test : TestCase) :
    Appends (r.emitTitledBody level test) (r.titledBody level test) :=
  (r.steps_appends level _).seq (.forM _ fun a _ => r.verify_appends level a)

theorem test_appends (test : TestCase) : Appends (r.emitTest level test) (r.test level test) := by
  unfold emitTest Route.test
  rw [Draft.append_assoc]
  refine (r.line_appends level _).seq (Appends.seq ?_ (r.line_appends level _))
  exact .ite (fun _ => r.titledBody_appends (level + 1) test) fun _ => r.steps_appends (level + 1) _

theorem keptStatement_appends (code : Text) :
    Appends (do r.raiseUndeclared code; r.emitVerbatim level code) (r.keptStatement level code) := by
  refine Appends.seq ?_ (r.verbatim_appends level code)
  have hkept := r.kept_appends code
  unfold raiseUndeclared
  cases hc : isComment code with
  | true => simpa [hc] using hkept
  | false =>
    simp only [hc, Bool.not_false, Bool.true_and] at hkept ⊢
    exact .ite (fun _ => .raise _) fun _ => hkept

theorem keptStatements_appends (statements : List Text) :
    Appends (r.emitKept level statements) (r.keptStatements level statements) :=
  .forM statements fun code _ => r.keptStatement_appends level code

theorem kept_allAppend (statements : List Text) :
    AllAppend (if statements.isEmpty then [] else [r.emitKept level statements])
      (if statements.isEmpty then [] else [r.keptStatements level statements]) := by
  cases statements with
  | nil => exact .nil
  | cons code rest => exact .cons (r.keptStatements_appends level (code :: rest)) .nil

theorem hooks_allAppend (hooks : Hooks) : AllAppend (r.emitHooks level hooks) (r.hooks level hooks) := by
  unfold emitHooks Route.hooks
  induction HookKind.all with
  | nil => exact .nil
  | cons kind rest ih =>
    exact List.rel_append (AllAppend.map (r.hook_appends level kind) (hooks.get kind)) ih

mutual

theorem suite_appends (level : Nat) : ∀ s : Suite, Appends (r.emitSuite level s) (r.suite level s)
  | ⟨title, tests, hooks, suites, passthrough⟩ => by
    unfold emitSuite suite
    rw [Draft.append_assoc]
    refine (r.line_appends level _).seq (Appends.seq ?_ (r.line_appends level _))
    apply And.left
    apply Appends.parts
    exact List.rel_append
      (List.rel_append
        (List.rel_append (r.kept_allAppend (level + 1) passthrough)
          (r.hooks_allAppend (level + 1) hooks))
        (AllAppend.map (r.test_appends (level + 1)) tests))
      (suites_allAppend (level + 1) suites)

theorem suites_allAppend (level : Nat) :
    ∀ suites : List Suite, AllAppend (r.emitSuites level suites) (r.suites level suites)
  | [] => .nil
  | s :: rest => .cons (suite_appends level s) (suites_allAppend level rest)

end

theorem header_appends : Appends r.emitHeader r.header := by
  unfold emitHeader header
  exact .ite (fun _ => (Appends.put _).seq (.put _)) fun _ => .nothing

theorem document_appends (d : Document) : Appends (r.emitDocument d) (r.document d) := by
  refine r.header_appends.seq (Appends.terminated ?_)
  exact List.rel_append
    (List.rel_append
      (List.rel_append (r.kept_allAppend 0 d.passthrough) (r.hooks_allAppend 0 d.hooks))
      (AllAppend.map (r.test_appends 0) d.tests))
    (r.suites_allAppend 0 d.suites)

theorem snippet_appends (code : Text) : Appends (r.emitSnippet code) (r.snippet code) :=
  r.steps_appends 0 _

/-! ## 7. Sequences of pieces -/

theorem exists_appends (p : Piece) : ∃ a, Appends (r.emit p) a := by
  cases p with
  | document d => exact ⟨_, r.document_appends d⟩
  | snippet code => exact ⟨_, r.snippet_appends code⟩

/-- A piece is written behind a draft as it is written alone. -/
theorem after_emit (p : Piece) (d : Draft) : (r.emit p).after d = d ++ (r.emit p).after {} := by
  obtain ⟨a, ha⟩ := r.exists_appends p
  rw [ha, ha, Draft.append_empty_append]

theorem after_emits (pieces : List Piece) (d : Draft) :
    Emission.after (pieces.forM r.emit) d =
      d ++ .concat (pieces.map fun p => (r.emit p).after {}) :=
  Appends.forM pieces (fun p _ => r.after_emit p) d

/-- Writing some pieces puts what each of them writes alone behind the text; it adds to the advisories
those that are new, each where it is raised first, and never makes one come twice. -/
theorem emissions_only_append (pieces : List Piece) (d : Draft) :
    let done := Emission.after (pieces.forM r.emit) d
    let alone := pieces.map fun p => (r.emit p).after {}
    done.text = d.text ++ alone.flatMap Draft.text ∧
      done.advisories = d.advisories ++
        ((alone.flatMap Draft.advisories).filter (· ∉ d.advisories)).eraseDups ∧
      (d.advisories.Nodup → done.advisories.Nodup) := by
  intro done alone
  have hdone : done = d ++ .concat alone := r.after_emits pieces d
  refine ⟨?_, ?_, ?_⟩
  · rw [hdone, Draft.text_append, Draft.text_concat]
  · rw [hdone, Draft.advisories_append, Draft.merge_concat, Advisory.merge_eq]
  · intro hd
    rw [hdone]
    exact Advisory.nodup_merge hd _

/-- Two snippets with a command that is unknown in both of them. -/
theorem emissions_only_append_login :
    let r : Route := ⟨.cypress, .playwright, {}⟩
    let d : Draft := ⟨"// before\n", ["Unmapped command 'login' was emitted as a comment"]⟩
    let done := Emission.after ([.snippet "cy.login()", .snippet "cy.login(1)"].forM r.emit) d
    d.advisories.Nodup ∧ done.advisories.Nodup :=
  ⟨by decide, (emissions_only_append _ _ _).2.2 (by decide)⟩

end Route

end Parlance
