import Parlance.Proofs.BalancedCalls
import Parlance.Proofs.Emission
import Parlance.Proofs.Restyling
import Parlance.Proofs.UnderstoodSteps

/-!
Every statement is written. A statement that is not the bare root object of its vocabulary is read
as some step that is no empty chain, and every such step is written as at least one line.
-/

namespace Parlance

open Source (Link isName readChain readLinks)

/-! ## 1. Statements that are read as nothing -/

/-- Whether a statement is nothing but the root object of a vocabulary. -/
def IsBareRoot : Framework → Text → Prop
  | .cypress, t => t = "cy".toList
  | .playwright, t =>
    t = "page".toList ∨
      ∃ gap, gap ≠ [] ∧ gap.all isBlank = true ∧ t = "await".toList ++ gap ++ "page".toList
  | .testRail, _ => False

/-- A chain of one name without arguments is this name. -/
theorem eq_of_readChain_name {t name : Text} (ht : Text.IsTrimmed t)
    (h : readChain t = some [⟨name, none⟩]) : t = name := by
  obtain ⟨before, hbefore, hskip⟩ := Source.exists_skipBlanks t
  obtain ⟨l, after, rest, more, heq, hn, hc, htail⟩ := Source.readLinks_cases h
  obtain ⟨rfl, rfl⟩ := List.cons.inj heq
  have hrest : after = [] := by
    have hend : rest = [] := by
      rcases htail with ⟨hend, -⟩ | ⟨tail, -, hmore⟩
      · exact hend
      · obtain ⟨l, -, -, more, hnil, -⟩ := Source.readLinks_cases hmore
        exact absurd hnil (by simp)
    rcases Source.splitCall_cases hc with ⟨-, hafter⟩ | ⟨inner, tail, -, -, hargs, -⟩
    · exact hafter.trans hend
    · exact absurd hargs (by simp)
  obtain ⟨gap, hgap, hname⟩ := Source.exists_of_splitName hn
  rw [hrest, List.append_nil] at hname
  have htrimmed := Source.isTrimmed_of_isName (Source.isName_of_splitName hn)
  have hblank {s : Text} (hs : s.all isCodeBlank = true) : s.all isBlank = true :=
    Text.all_mono (fun _ => isBlank_of_isCodeBlank) hs
  -- nothing but blanks stands around the name
  have hstart : Text.trim t = Text.trim (name ++ gap) := by
    rw [hskip, hname, Text.trim, Text.trimStart,
      List.dropWhile_append_of_pos (List.all_eq_true.1 (hblank hbefore))]
    rfl
  rw [← ht.trim_eq, hstart, htrimmed.trim_append_blanks (hblank hgap)]

/-! ## 2. Statements that are read as something -/

/-- Whether some of the steps say anything. -/
def SaysSomething (steps : List Step) : Prop := ∃ step ∈ steps, step ≠ .chain []

theorem saysSomething_singleton {step : Step} (h : step ≠ .chain []) : SaysSomething [step] :=
  ⟨step, List.mem_singleton_self step, h⟩

theorem Step.chain_ne_nil {commands : List Command} (h : commands ≠ []) :
    Step.chain commands ≠ .chain [] := fun heq => h (Step.chain.inj heq)

namespace ChainReading

/-- No step that has been read is empty, and none that is being read and does something. -/
structure IsFilled (r : ChainReading) : Prop where
  steps : ∀ step ∈ r.steps, step ≠ .chain []
  acts : r.acts = true → r.chain ≠ []

/-- Whether anything has been read. -/
def HasBegun (r : ChainReading) : Prop := r.steps ≠ [] ∨ r.chain ≠ []

variable {r r' : ChainReading} {source name args : Text}

theorem IsFilled.close (h : r.IsFilled) : r.close.IsFilled := by
  refine ⟨?_, fun hacts => absurd hacts (by simp [ChainReading.close])⟩
  intro step hstep
  rcases mem_steps_close.1 hstep with hstep | ⟨hacts, rfl⟩
  · exact h.steps step hstep
  · exact Step.chain_ne_nil (h.acts hacts)

/-- A call is read as a check of its own or into the chain. -/
theorem IsFilled.next (h : r.IsFilled) (hnext : r.next source name args = some r') :
    r'.IsFilled ∧ r'.HasBegun := by
  rcases next_cases hnext with ⟨-, a, -, rfl⟩ | ⟨-, c, rfl⟩
  · refine ⟨⟨?_, h.close.acts⟩, .inl (by simp)⟩
    exact List.forall_mem_append.2 ⟨h.close.steps, List.forall_mem_singleton.2 (by simp)⟩
  · have hchain : r.resumed ++ [c] ≠ [] := by simp
    exact ⟨⟨h.steps, fun _ => hchain⟩, .inr hchain⟩

theorem IsFilled.first (hfirst : first source name args = some r) : r.IsFilled ∧ r.HasBegun := by
  rcases first_cases hfirst with ⟨check, -, rfl⟩ | ⟨-, hnext⟩
  · exact ⟨⟨fun step hstep => absurd hstep List.not_mem_nil,
      fun hacts => absurd hacts Bool.false_ne_true⟩, .inr (List.cons_ne_nil _ _)⟩
  · have hnew : ({} : ChainReading).IsFilled :=
      ⟨fun step hstep => absurd hstep List.not_mem_nil,
        fun hacts => absurd hacts Bool.false_ne_true⟩
    exact hnew.next hnext

theorem IsFilled.finish (h : r.IsFilled) (hbegun : r.HasBegun) : SaysSomething r.finish := by
  cases hsteps : r.steps with
  | cons step steps =>
    have hstep : step ∈ r.steps := by
      rw [hsteps]
      exact List.mem_cons_self
    exact ⟨step, mem_finish.2 (.inl hstep), h.steps step hstep⟩
  -- nothing is complete, so the chain is all there is
  | nil =>
    have hchain : r.chain ≠ [] := hbegun.resolve_left fun hne => hne hsteps
    exact ⟨_, mem_finish.2 (.inr ⟨.inr ⟨hsteps, hchain⟩, rfl⟩), Step.chain_ne_nil hchain⟩

end ChainReading

theorem readCommands_saysSomething {source : Text} {links : List Link} {steps : List Step}
    (hne : links ≠ []) (h : readCommands source links = some steps) : SaysSomething steps := by
  cases links with
  | nil => exact absurd rfl hne
  | cons root rest =>
    obtain ⟨args, first, last, -, hfirst, hlast, rfl⟩ := readCommands_cons h
    obtain ⟨hfilled, hbegun⟩ :=
      ChainReading.links_induction (P := fun read => read.IsFilled ∧ read.HasBegun)
        (fun _ _ _ _ _ _ hnext hr => hr.1.next hnext) hlast (ChainReading.IsFilled.first hfirst)
    exact hfilled.finish hbegun

theorem readCypress_saysSomething {t : Text} {steps : List Step} (ht : Text.IsTrimmed t)
    (hroot : t ≠ "cy".toList) (h : readCypress t = some steps) : SaysSomething steps := by
  rcases readCypress_cases h with ⟨links, hchain, hcommands⟩ | ⟨subject, links, a, -, -, rfl⟩
  · refine readCommands_saysSomething ?_ hcommands
    rintro rfl
    exact hroot (eq_of_readChain_name ht hchain)
  · exact saysSomething_singleton (by simp)

theorem readPage_ne_nil {links : List Link} {commands : List Command} (hne : links ≠ [])
    (h : readPage links = some commands) : commands ≠ [] := by
  cases links with
  | nil => exact absurd rfl hne
  | cons l links =>
    obtain ⟨args, -, h⟩ := Option.bind_eq_some_iff.1 h
    obtain ⟨others, -, h⟩ := Option.bind_eq_some_iff.1 h
    rw [← Option.some.inj h]
    have hcall : readPageCall l.name args ≠ [] := by
      unfold readPageCall
      dsimp only
      split <;> simp
    exact fun hnil => hcall (List.append_eq_nil_iff.1 hnil).1

/-- What is awaited is trimmed, and the page alone only if the statement is the bare root. -/
theorem unawaited_cases {t : Text} (ht : Text.IsTrimmed t) :
    Text.IsTrimmed (unawaited t) ∧ (unawaited t = "page".toList → IsBareRoot .playwright t) := by
  unfold unawaited
  split
  · rename_i rest hrest
    obtain rfl := Text.eq_append_of_after? hrest
    split
    · rename_i hblank
      refine ⟨Text.isTrimmed_trim rest, fun hpage => .inr ?_⟩
      obtain ⟨before, after, hbefore, hafter, hsplit⟩ := Text.exists_trim rest
      rw [hpage] at hsplit
      refine ⟨before, ?_, hbefore, ?_⟩
      · rintro rfl
        rw [hsplit] at hblank
        exact absurd (show isBlank 'p' = true from hblank) (by decide)
      · -- no blanks stand at the end of the statement
        have hnil : after = [] := by
          by_contra hne
          have htrimmed : Text.IsTrimmed ("await".toList ++ (before ++ "page".toList) ++ after) := by
            rw [List.append_assoc, ← hsplit]
            exact ht
          exact absurd hafter (by rw [← Text.allBlank, htrimmed.not_allBlank hne]; simp)
        rw [hsplit, hnil, List.append_nil, List.append_assoc]
    · exact ⟨ht, .inl⟩
  · exact ⟨ht, .inl⟩

theorem readPlaywright_saysSomething {t : Text} {steps : List Step} (ht : Text.IsTrimmed t)
    (hroot : ¬IsBareRoot .playwright t) (h : readPlaywright t = some steps) :
    SaysSomething steps := by
  obtain ⟨htrimmed, hpage⟩ := unawaited_cases ht
  rcases readPlaywright_cases h with
    ⟨links, commands, hchain, hcommands, rfl⟩ | ⟨subject, links, a, -, -, rfl⟩
  · refine saysSomething_singleton (Step.chain_ne_nil (readPage_ne_nil ?_ hcommands))
    rintro rfl
    exact hroot (hpage (eq_of_readChain_name htrimmed hchain))
  · exact saysSomething_singleton (by simp)

theorem readPerformed_ne {callback : Text} {step : Step} (h : readPerformed callback = some step) :
    step ≠ .chain [] := by
  unfold readPerformed at h
  split at h
  · exact absurd h (by simp)
  · dsimp only at h
    split at h
    · exact absurd h (by simp)
    · split at h
      · split at h
        · rw [← Option.some.inj h]
          exact Step.chain_ne_nil (List.cons_ne_nil _ _)
        · exact absurd h (by simp)
      · rw [← Option.some.inj h]
        simp

theorem readActionTitle_ne_nil {title : Text} {commands : List Command}
    (h : readActionTitle title = some commands) : commands ≠ [] := by
  obtain ⟨⟨action, rest⟩, -, h⟩ := Option.bind_eq_some_iff.1 h
  dsimp only at h
  split at h
  · rw [← Option.some.inj h]
    exact List.cons_ne_nil _ _
  · obtain ⟨query, -, h⟩ := Option.bind_eq_some_iff.1 h
    rw [← Option.some.inj h]
    exact List.cons_ne_nil _ _
  · obtain ⟨query, -, h⟩ := Option.bind_eq_some_iff.1 h
    rw [← Option.some.inj h]
    exact List.cons_ne_nil _ _

/-- A titled step says something, if only its title. -/
theorem readStep_ne (source title : Text) (callback : Option Text) :
    readStep source title callback ≠ .chain [] := by
  unfold readStep
  split
  · simp
  · split
    · rename_i step hstep
      obtain ⟨body, -, hperformed⟩ := Option.bind_eq_some_iff.1 hstep
      exact readPerformed_ne hperformed
    · cases hread : readActionTitle title with
      | none => exact Step.chain_ne_nil (List.cons_ne_nil _ _)
      | some commands => exact Step.chain_ne_nil (readActionTitle_ne_nil hread)

theorem readTestRail_saysSomething {t : Text} {steps : List Step}
    (h : readTestRail t = some steps) : SaysSomething steps := by
  obtain ⟨links, -, h⟩ := Option.bind_eq_some_iff.1 h
  split at h
  · split at h
    · obtain ⟨args, -, h⟩ := Option.bind_eq_some_iff.1 h
      split at h
      · exact absurd h (by simp)
      · obtain ⟨title, -, h⟩ := Option.bind_eq_some_iff.1 h
        rw [← Option.some.inj h]
        exact saysSomething_singleton (readStep_ne _ _ _)
    · exact absurd h (by simp)
  · split at h
    · obtain ⟨args, -, h⟩ := Option.bind_eq_some_iff.1 h
      obtain ⟨assertion, -, rfl⟩ := Option.map_eq_some_iff.1 h
      exact saysSomething_singleton (by simp)
    · exact absurd h (by simp)
  · exact absurd h (by simp)

/-- Every statement but the bare root object says something. -/
theorem ofStatement_saysSomething {f : Framework} {t : Text} (ht : Text.IsTrimmed t)
    (hroot : ¬IsBareRoot f t) : SaysSomething (Step.ofStatement f t) := by
  unfold Step.ofStatement
  simp only [ht.trim_eq]
  split
  · exact saysSomething_singleton (by simp)
  · split
    · rename_i steps hsteps
      obtain ⟨hread, -⟩ := Option.filter_eq_some_iff.1 hsteps
      cases f with
      | cypress => exact readCypress_saysSomething ht hroot hread
      | playwright => exact readPlaywright_saysSomething ht hroot hread
      | testRail => exact readTestRail_saysSomething hread
    · exact saysSomething_singleton (by simp)

namespace Route

variable (r : Route) (level : Nat)

/-! ## 3. Lines -/

theorem text_line_ne_nil (code : Text) : (r.line level code).text ≠ [] := by simp [line]

theorem text_block_ne_nil (code : Text) : (r.block level code).text ≠ [] := by
  unfold block
  split
  · exact r.text_line_ne_nil level _
  · simp [line]

theorem text_commentStep_ne_nil (title comment : Text) :
    (r.commentStep level title comment).text ≠ [] := by
  simp [commentStep, closeBlock, line]

theorem text_fallback_ne_nil (call : Text) : (r.fallback level call).text ≠ [] := by
  unfold fallback
  split
  · exact r.text_commentStep_ne_nil level _ _
  all_goals exact r.text_line_ne_nil level _

theorem text_verify_ne_nil (a : Assertion) : (r.verify level a).text ≠ [] := by
  have hfallback := r.text_fallback_ne_nil level a.source
  unfold verify
  split
  · simp [hfallback]
  · split
    · exact r.text_line_ne_nil level _
    · simp [hfallback]

theorem text_command_ne_nil (queries : List Query) (c : Command) :
    (r.command level queries c).text ≠ [] := by
  have hfallback := r.text_fallback_ne_nil level (r.sourceCall queries (some c))
  unfold command
  dsimp only
  split
  · simp [hfallback]
  · split
    · exact r.text_commentStep_ne_nil level _ _
    · split
      · exact r.text_line_ne_nil level _
      · simp [hfallback]

theorem text_locate_ne_nil (queries : List Query) : (r.locate level queries).text ≠ [] := by
  have hfallback := r.text_fallback_ne_nil level (r.sourceCall queries none)
  unfold locate
  dsimp only
  split
  · split
    · exact r.text_line_ne_nil level _
    · simp [hfallback]
  · exact r.text_line_ne_nil level _
  · exact r.text_commentStep_ne_nil level _ _

theorem text_raw_ne_nil (code : Text) : (r.raw level code).text ≠ [] := by
  have hverbatim : (r.verbatim level code).text ≠ [] := r.text_block_ne_nil level _
  have hkept : (if r.target.isStepBased then
      r.openStep level performAction ++ r.block (level + 1) code ++ r.closeBlock level
      else r.verbatim level code).text ≠ [] := by
    split
    · simp [closeBlock, line]
    · exact hverbatim
  unfold raw
  split
  · exact hverbatim
  · exact fun h => hkept (List.append_eq_nil_iff.1 h).2

theorem text_commands_ne_nil {queries : List Query} {commands : List Command} {c : Command}
    (hc : c ∈ commands) (hquery : c.query? = none) :
    (r.commands level queries commands).text ≠ [] := by
  induction commands generalizing queries with
  | nil => exact absurd hc List.not_mem_nil
  | cons d rest ih =>
    unfold Route.commands
    cases hd : d.query? with
    | none => simp [r.text_command_ne_nil level]
    | some query =>
      rcases List.mem_cons.1 hc with rfl | hc
      · exact absurd (hquery.symm.trans hd) (by simp)
      · exact ih hc

/-- Every step but an empty chain is written. -/
theorem text_step_ne_nil {step : Step} (h : step ≠ .chain []) : (r.step level step).text ≠ [] := by
  cases step with
  | raw code => exact r.text_raw_ne_nil level code
  | verify a => exact r.text_verify_ne_nil level a
  | chain commands =>
    show (r.chain level commands).text ≠ []
    rw [r.chain_eq]
    split
    · exact r.text_locate_ne_nil level _
    · rename_i honly
      have hne : commands.isEmpty = false :=
        List.isEmpty_eq_false_iff.2 fun hnil => h (by rw [hnil])
      simp only [Command.onlyReach, hne, Bool.not_false, Bool.and_true, List.all_eq_true,
        not_forall] at honly
      obtain ⟨c, hc, hquery⟩ := honly
      rw [Option.not_isSome_iff_eq_none] at hquery
      exact r.text_commands_ne_nil level hc hquery

/-- Steps that say something are written as some lines. -/
theorem exists_lines {steps : List Step} (h : SaysSomething steps) :
    ∃ lines, (r.steps level steps).text = lines ++ ['\n'] := by
  obtain ⟨step, hstep, hne⟩ := h
  have hended := (@agrees_steps r r.style level steps).endedLeft
  rcases hended with hnil | hended
  · -- a step that is written leaves the text not empty
    have htext : (r.steps level steps).text =
        (steps.map (r.step level)).flatMap Draft.text := Draft.text_concat _
    rw [htext, List.flatMap_eq_nil_iff] at hnil
    exact absurd (hnil _ (List.mem_map_of_mem hstep)) (r.text_step_ne_nil level hne)
  · exact hended

end Route

end Parlance
