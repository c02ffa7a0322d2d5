import Mathlib.Data.List.Infix
import Parlance.Proofs.DroppedParts
import Parlance.Proofs.Emission

/-!
What a conversion answers. Every source has an outcome: it is a success unless the style is refused,
and a blank source is one even then. The warnings of a success are the messages of the table whose
words occur in the source, and behind them what was raised while the source was written and for its
unclosed blocks, each message once and where it comes first.
-/

namespace Parlance

open Document

/-! ## 1. Words in a text -/

namespace Text

/-- A blank text holds blank texts only. -/
theorem allBlank_of_infix {part t : Text} (h : part <:+: t) (ht : allBlank t = true) :
    allBlank part = true :=
  List.all_eq_true.2 fun c hc => List.all_eq_true.1 ht c (h.subset hc)

end Text

namespace Advisory

/-- The messages whose triggers occur in a source, in the order of the table. -/
def tabled (source target : Framework) (t : Text) : List Text :=
  ((table source target).filter fun a => a.triggers.any fun w => decide (w <:+: t)).map message

theorem messages_eq_tabled (source target : Framework) (t : Text) :
    messages source target t = tabled source target t := by
  have happlies (a : Advisory) :
      a.appliesTo t = a.triggers.any fun w => decide (w <:+: t) := by
    refine congrArg a.triggers.any (funext fun w => ?_)
    rw [Bool.eq_iff_iff, Text.holds_iff_infix, decide_eq_true_eq]
  rw [messages, tabled, funext happlies]

/-- No two messages of a table are the same. They are told apart as strings, which is quicker than
character by character. -/
theorem nodup_table_messages (source target : Framework) :
    ((table source target).map message).Nodup := by
  cases source <;> cases target <;>
    simp only [table, List.map_cons, List.map_nil, List.nodup_cons, List.mem_cons,
      List.not_mem_nil, -String.reduceToList, String.toList_inj, String.reduceEq, or_false,
      not_false_eq_true, List.nodup_nil, and_self]

theorem nodup_tabled (source target : Framework) (t : Text) :
    (tabled source target t).Nodup :=
  (nodup_table_messages source target).sublist (List.filter_sublist.map message)

theorem not_allBlank_trigger {source target : Framework} :
    ∀ a ∈ table source target, ∀ w ∈ a.triggers, Text.allBlank w = false := by
  cases source <;> cases target <;> decide +kernel

theorem tabled_of_allBlank (source target : Framework) {t : Text} (ht : Text.allBlank t = true) :
    tabled source target t = [] := by
  rw [tabled, List.map_eq_nil_iff, List.filter_eq_nil_iff]
  intro a ha hany
  obtain ⟨w, hw, hin⟩ := List.any_eq_true.1 hany
  have hblank := Text.allBlank_of_infix (of_decide_eq_true hin) ht
  rw [not_allBlank_trigger a ha w hw] at hblank
  exact absurd hblank (by decide)

end Advisory

/-! ## 2. Sources without declarations -/

namespace Document

/-- Blanks go into the gap. -/
theorem readFrom_blanks {f : Framework} {gap : Text} {last : Option Char} {ms : List Source.Mark}
    (h : (Source.unmark ms).all isBlank = true) :
    readFrom f gap (.ofMarks last ms) = ofGap f (gap.reverse ++ Source.unmark ms) := by
  induction ms generalizing gap last with
  | nil => rw [readFrom_nil, Source.unmark_nil, List.append_nil]
  | cons m ms ih =>
    rw [Source.unmark_cons, List.all_cons, Bool.and_eq_true] at h
    rw [readFrom_idle (Slot.not_startsLead_blank h.1), ih h.2, List.reverse_cons,
      List.append_assoc]
    rfl

theorem ofSource_of_allBlank (f : Framework) {t : Text} (ht : Text.allBlank t = true) :
    ofSource f t = {} := by
  rw [Document.ofSource_eq, readFrom_blanks (by rwa [Source.unmark_marks]), Source.unmark_marks]
  exact StandsFor.ofGap_of_allBlank ht

theorem isEmpty_readFrom_declared {f : Framework} {gap : Text} {c : Cursor} {o : Opening}
    (hrest : c.rest ≠ []) (h : head? f c = some o) : (readFrom f gap c).isEmpty = false := by
  have hslot : o.slot ∈ Slot.declarations := by
    unfold head? at h
    split at h
    · exact absurd h (by simp)
    · obtain ⟨s, rest, -, hs, -⟩ := Opening.at?_eq_some_iff.1 h
      exact hs.1
  have hdeclared (block : Source.Block) : (declared f o block).isEmpty = false :=
    isEmpty_declared hslot o.title block
  rw [readFrom_declared hrest h, isEmpty_append, isEmpty_append, hdeclared, Bool.and_false,
    Bool.false_and]

/-- Only blocks of declarations are reported as unclosed. -/
theorem unterminated_readFrom {f : Framework} {gap : Text} {c : Cursor}
    (h : (readFrom f gap c).isEmpty = true) : (readFrom f gap c).unterminated = [] := by
  -- by the length of what is left to read; a declaration anywhere would be part of the document
  induction hn : c.rest.length using Nat.strongRecOn generalizing gap c with
  | ind n ih =>
    by_cases hrest : c.rest = []
    · rw [readFrom_end hrest]
      rfl
    · cases ho : head? f c with
      | some o =>
        rw [isEmpty_readFrom_declared hrest ho] at h
        exact absurd h (by decide)
      | none =>
        rw [readFrom_passed hrest ho] at h ⊢
        refine ih _ ?_ h rfl
        have hpos : 0 < c.rest.length := List.length_pos_iff.2 hrest
        rw [Cursor.drop, List.length_drop, hn]
        omega

theorem unterminated_of_isEmpty {f : Framework} {t : Text} (h : (ofSource f t).isEmpty = true) :
    (ofSource f t).unterminated = [] := unterminated_readFrom h

end Document

namespace Slot

open Pattern

/-- Every command has a parenthesis. -/
theorem paren_mem_of_command {f : Framework} {t : Text} (h : command.occursIn f t = true) :
    '(' ∈ t := by
  have hcall (root : Text) (hroot : (methodCall root).occursIn t = true) : '(' ∈ t := by
    obtain ⟨before, s, rest, rfl, hs⟩ := occursIn_iff_matches.1 hroot
    obtain ⟨s₁, s₂, rfl, -, hparen⟩ := matches_append.1 hs
    rw [matches_one.1 hparen]
    simp
  cases f with
  | cypress => exact hcall _ h
  | playwright => exact hcall _ h
  | testRail =>
    obtain ⟨before, s, rest, rfl, hs⟩ := occursIn_iff_matches.1 h
    obtain ⟨s₁, s₂, rfl, hhead, -⟩ := matches_append.1 hs
    obtain ⟨s₃, s₄, rfl, -, hparen⟩ := matches_append.1 hhead
    rw [matches_one.1 hparen]
    simp

theorem occursIn_command_of_allBlank (f : Framework) {t : Text} (ht : Text.allBlank t = true) :
    command.occursIn f t = false := by
  rw [Bool.eq_false_iff]
  intro h
  exact absurd (List.all_eq_true.1 ht '(' (paren_mem_of_command h)) (by decide)

end Slot

/-! ## 3. What is raised on the way -/

namespace Route

/-- What is written of a source: all of it as a document if it declares anything, its statements if it
only has commands. -/
def piece? (r : Route) (t : Text) : Option Piece :=
  let d := ofSource r.source t
  if d.isEmpty then if Slot.command.occursIn r.source t then some (.snippet t) else none
  else some (.document d)

/-- What is raised while a source is written by itself, and for its unclosed blocks. -/
def raised (r : Route) (t : Text) : List Text :=
  ((r.piece? t).elim [] fun p => ((r.emit p).after {}).advisories) ++
    (ofSource r.source t).unterminated.map unclosedAdvice

variable (r : Route) (t : Text)

/-- A draft that is put at the end of nothing has the same new messages. -/
theorem merge_after {m : Emission} {a : Draft} (h : m.Appends a) (messages : List Text) :
    Advisory.merge messages (m.after {}).advisories = Advisory.merge messages a.advisories := by
  rw [h, Draft.advisories_append, Advisory.merge_merge]
  rfl

theorem merge_draft (messages : List Text) :
    Advisory.merge messages (r.draft t).advisories = Advisory.merge messages (r.raised t) := by
  unfold draft raised piece?
  dsimp only
  -- a source without declarations has no unclosed blocks
  by_cases hempty : (ofSource r.source t).isEmpty = true
  · rw [if_pos hempty, if_pos hempty, unterminated_of_isEmpty hempty, List.map_nil, List.append_nil]
    by_cases hcommand : Slot.command.occursIn r.source t = true
    · rw [if_pos hcommand, if_pos hcommand]
      exact (merge_after (r.snippet_appends t) messages).symm
    · rw [if_neg hcommand, if_neg hcommand]
      rfl
  · rw [if_neg hempty, if_neg hempty, Advisory.merge_append, Advisory.merge_append]
    exact congrArg (Advisory.merge · _) (merge_after (r.document_appends _) messages).symm

theorem text_draft :
    (r.draft t).text = (r.piece? t).elim t fun p => ((r.emit p).after {}).text := by
  unfold draft piece?
  dsimp only
  by_cases hempty : (ofSource r.source t).isEmpty = true
  · rw [if_pos hempty, if_pos hempty]
    by_cases hcommand : Slot.command.occursIn r.source t = true
    · rw [if_pos hcommand, if_pos hcommand]
      exact (congrArg Draft.text (r.snippet_appends t {})).symm
    · rw [if_neg hcommand, if_neg hcommand]
      rfl
  · rw [if_neg hempty, if_neg hempty]
    exact (congrArg Draft.text (r.document_appends (ofSource r.source t) {})).symm

theorem piece?_of_allBlank (ht : Text.allBlank t = true) : r.piece? t = none := by
  unfold piece?
  rw [ofSource_of_allBlank r.source ht, Slot.occursIn_command_of_allBlank r.source ht]
  rfl

theorem raised_of_allBlank (ht : Text.allBlank t = true) : r.raised t = [] := by
  rw [raised, r.piece?_of_allBlank t ht, ofSource_of_allBlank r.source ht]
  rfl

/-! ## 4. Outcomes -/

theorem convert_of_allBlank (ht : Text.allBlank t = true) : r.convert t = .converted t [] :=
  if_pos ht

theorem convert_of_error {e : StyleError} (ht : Text.allBlank t = false)
    (he : r.style.validate = .error e) :
    r.convert t = .failed (ConversionError.message (.invalidStyle e)) := by
  rw [convert, ht, if_neg (by decide), he]

theorem convert_of_ok (ht : Text.allBlank t = false) (hv : r.style.validate = .ok ()) :
    r.convert t = .converted (r.draft t).text
      (Advisory.merge (Advisory.messages r.source r.target t) (r.draft t).advisories) := by
  rw [convert, ht, if_neg (by decide), hv]

/-- A success comes in one form: what is written of the source, or the source itself where nothing is,
with the warnings of the table and behind them what was raised. -/
theorem convert_of_success (h : Text.allBlank t = true ∨ r.style.validate = .ok ()) :
    r.convert t = .converted ((r.piece? t).elim t fun p => ((r.emit p).after {}).text)
      (Advisory.merge (Advisory.tabled r.source r.target t) (r.raised t)) := by
  by_cases ht : Text.allBlank t = true
  · rw [r.convert_of_allBlank t ht, r.piece?_of_allBlank t ht, r.raised_of_allBlank t ht,
      Advisory.tabled_of_allBlank _ _ ht]
    rfl
  · rw [Bool.not_eq_true] at ht
    have hv := h.resolve_left (by rw [ht]; decide)
    rw [r.convert_of_ok t ht hv, r.text_draft, r.merge_draft, Advisory.messages_eq_tabled]

end Route

theorem convert_of_ne {source target : Framework} (hpair : source ≠ target) (style : Style)
    (t : Text) : convert source target style t = Route.convert ⟨source, target, style⟩ t := by
  unfold convert
  rw [Route.between, if_neg hpair]

/-- Every source has an outcome: a success unless the style is refused for a source that is not
blank. A success has no errors, its code is what is written of the source, and its warnings are those
of the table whose words occur in the source, in the order of the table, and behind them what is raised
on the way and new, in the order in which it is raised first. A failure has one error and nothing
else. -/
theorem convert_outcome {source target : Framework} (hpair : source ≠ target) (style : Style)
    (t : Text) :
    let r : Route := ⟨source, target, style⟩
    let o := convert source target style t
    let tabled := Advisory.tabled source target t
    (o.success = true ↔ Text.allBlank t = true ∨ style.validate = .ok ()) ∧
      (o.success = true →
        o.errors = [] ∧
          o.code = (r.piece? t).elim t (fun p => ((r.emit p).after {}).text) ∧
          o.warnings = tabled ++ ((r.raised t).filter (· ∉ tabled)).eraseDups) ∧
      (o.success = false → o.code = [] ∧ o.warnings = [] ∧ ∃ e, o.errors = [e]) ∧
      o.warnings.Nodup := by
  intro r o tabled
  have ho : o = r.convert t := convert_of_ne hpair style t
  by_cases h : Text.allBlank t = true ∨ style.validate = .ok ()
  · rw [ho, r.convert_of_success t h]
    refine ⟨⟨fun _ => h, fun _ => rfl⟩, fun _ => ⟨rfl, rfl, Advisory.merge_eq _ _⟩, ?_, ?_⟩
    · intro hfail
      exact absurd hfail (by decide : ¬(true = false))
    · exact Advisory.nodup_merge (Advisory.nodup_tabled source target t) _
  -- the style is refused for a source that is not blank
  · have ht : Text.allBlank t = false := Bool.eq_false_iff.2 fun ht => h (.inl ht)
    obtain ⟨e, he⟩ : ∃ e, style.validate = .error e := by
      cases hv : style.validate with
      | ok _ => exact absurd (.inr hv) h
      | error e => exact ⟨e, rfl⟩
    rw [ho, r.convert_of_error t ht he]
    have hfail : ¬(false = true) := Bool.false_ne_true
    exact ⟨⟨fun hs => absurd hs hfail, fun hs => absurd hs h⟩, fun hs => absurd hs hfail,
      fun _ => ⟨rfl, rfl, _, rfl⟩, List.nodup_nil⟩

/-- A command that waits has its word in the table, and an unknown one raises something. -/
theorem convert_outcome_login :
    Framework.cypress ≠ .playwright ∧
      (convert .cypress .playwright {} "cy.wait(1)\ncy.login()\ncy.login()").warnings.Nodup :=
  ⟨by decide, (convert_outcome (by decide) _ _).2.2.2⟩

end Parlance
