import Parlance.Draft.Basic
import Parlance.Proofs.Arguments
import Parlance.Proofs.BalancedCalls

/-!
Argument lists in another style. A call whose arguments have been read and are written again, each
literal in the quotes of the style, is read as the same call, unless one of its arguments ends in a
line comment: what is written behind the comment on the same line is lost in it.
-/

namespace Parlance

open Source (IsArgument IsArgumentList Link callText finalMode isName readChain splitArguments
  splitArguments_join_iff isArgument_of_mem_splitArguments readChain_callText
  of_readChain_callText isArgumentList_of_readLinks)

namespace Style

/-- An argument in another style is an argument, and leaves open what it left open before. -/
theorem requote_argument (s : Style) {t : Text} (htrim : Text.IsTrimmed t) (h : IsArgument t) :
    Text.IsTrimmed (s.requote t) ∧ IsArgument (s.requote t) ∧
      finalMode (s.requote t) = finalMode t ∧ (s.requote t = [] → t = []) := by
  rcases s.requote_cases t with hsame | ⟨value, hv, hliteral⟩
  · rw [hsame, htrim.trim_eq]
    exact ⟨htrim, h, rfl, id⟩
  · have hread : IsValueText t := by
      have hvalue := @isValueText_trim t (by simp [isValue, hv])
      rwa [htrim.trim_eq] at hvalue
    have hwritten := s.isValueText_literal value
    rw [hliteral, hwritten.isArgument.2, hread.isArgument.2]
    exact ⟨hwritten.isTrimmed, hwritten.isArgument.1, rfl, fun hnil => absurd hnil hwritten.ne_nil⟩

end Style

namespace Route

variable (r : Route)

/-- The arguments of a list are written as a list of just these arguments exactly if none of them
ends in a line comment. -/
theorem splitArguments_arguments_iff {args : Text} (h : IsArgumentList args) :
    (IsArgumentList (r.arguments args) ∧
        splitArguments (r.arguments args) = (splitArguments args).map r.style.requote) ↔
      ∀ arg ∈ splitArguments args, finalMode arg ≠ .lineComment := by
  have hargument {arg : Text} (harg : arg ∈ splitArguments args) :=
    isArgument_of_mem_splitArguments h harg
  -- one empty argument would be written as a list of none
  have hne : (splitArguments args).map r.style.requote ≠ [[]] := by
    intro hone
    obtain ⟨arg, hargs, hnil⟩ := List.map_eq_singleton_iff.1 hone
    have harg : arg ∈ splitArguments args := by rw [hargs]; exact List.mem_singleton_self arg
    have hempty := (r.style.requote_argument (hargument harg).1 (hargument harg).2).2.2.2 hnil
    rw [hempty] at hargs
    exact Source.splitArguments_ne_singleton_nil args hargs
  have hwritten : ∀ v ∈ (splitArguments args).map r.style.requote,
      Text.IsTrimmed v ∧ IsArgument v := by
    intro v hv
    obtain ⟨arg, harg, rfl⟩ := List.mem_map.1 hv
    obtain ⟨htrim, hsingle, -⟩ :=
      r.style.requote_argument (hargument harg).1 (hargument harg).2
    exact ⟨htrim, hsingle⟩
  rw [arguments, splitArguments_join_iff hne hwritten, List.forall_mem_map]
  refine forall₂_congr fun arg harg => ?_
  rw [(r.style.requote_argument (hargument harg).1 (hargument harg).2).2.2.1]
  -- an argument leaves nothing else open
  rcases (hargument harg).2.mode with hmode | hmode <;> simp [hmode]

/-- The arguments of a call that has been read, written again behind a name, are read as the
arguments of one call, in their order and each in the quotes of the style, exactly if none of them
ends in a line comment. -/
theorem readChain_arguments_iff {t : Text} {links : List Link} (h : readChain t = some links)
    {l : Link} (hl : l ∈ links) {args : Text} (hargs : l.args = some args) {name : Text}
    (hname : isName name = true) :
    (∃ written, readChain (callText name (r.arguments args)) = some [⟨name, some written⟩] ∧
        splitArguments written = (splitArguments args).map r.style.requote) ↔
      ∀ arg ∈ splitArguments args, finalMode arg ≠ .lineComment := by
  rw [← r.splitArguments_arguments_iff (isArgumentList_of_readLinks h hl hargs)]
  constructor
  · rintro ⟨written, hread, hcut⟩
    -- the call ends at the last parenthesis, so all that was written is its arguments
    obtain ⟨rfl, hlist⟩ := of_readChain_callText hname hread rfl
    exact ⟨hlist, hcut⟩
  · rintro ⟨hlist, hcut⟩
    exact ⟨r.arguments args, readChain_callText hname hlist, hcut⟩

/-- Two arguments, with a comma in a literal, a line comment inside brackets, and brackets in a
literal and in comments. -/
def commentedArguments : Text :=
  "'a, b', \x7b\n  x: 1, // (\n  y: [2, ']'] /* ) */\n\x7d"

/-- A conversion that writes double quotes. -/
def toDoubleQuotes : Route := ⟨.cypress, .playwright, { quote := .double }⟩

theorem readChain_commentedArguments :
    readChain ("cy.get(".toList ++ commentedArguments ++ ").click()".toList) =
        some [⟨"cy", none⟩, ⟨"get", some commentedArguments⟩, ⟨"click", some ""⟩] ∧
      ∃ written, readChain (callText "locator" (toDoubleQuotes.arguments commentedArguments)) =
          some [⟨"locator", some written⟩] ∧
        splitArguments written =
          ["\"a, b\"".toList, "\x7b\n  x: 1, // (\n  y: [2, ']'] /* ) */\n\x7d".toList] := by
  have hchain : readChain ("cy.get(".toList ++ commentedArguments ++ ").click()".toList) =
      some [⟨"cy", none⟩, ⟨"get", some commentedArguments⟩, ⟨"click", some ""⟩] := by
    decide +kernel
  have hname : isName "locator" = true := by decide
  have hopen : ∀ arg ∈ splitArguments commentedArguments, finalMode arg ≠ .lineComment := by
    decide +kernel
  have hpieces : (splitArguments commentedArguments).map toDoubleQuotes.style.requote =
      ["\"a, b\"".toList, "\x7b\n  x: 1, // (\n  y: [2, ']'] /* ) */\n\x7d".toList] := by
    decide +kernel
  have hread := (toDoubleQuotes.readChain_arguments_iff hchain
    (List.mem_cons_of_mem _ List.mem_cons_self) rfl hname).2 hopen
  rw [hpieces] at hread
  exact ⟨hchain, hread⟩

/-- An argument that ends in a line comment takes the closing parenthesis along. -/
theorem not_readChain_lineComment :
    readChain "cy.get('.a' // first\n).click()" =
        some [⟨"cy", none⟩, ⟨"get", some "'.a' // first\n"⟩, ⟨"click", some ""⟩] ∧
      ¬ ∃ written,
        readChain (callText "get" (toDoubleQuotes.arguments "'.a' // first\n")) =
            some [⟨"get", some written⟩] ∧
          splitArguments written =
            (splitArguments "'.a' // first\n").map toDoubleQuotes.style.requote := by
  have hnone : readChain (callText "get" (toDoubleQuotes.arguments "'.a' // first\n")) = none := by
    decide +kernel
  refine ⟨by decide +kernel, ?_⟩
  rintro ⟨written, hread, -⟩
  rw [hnone] at hread
  exact absurd hread (by simp)

end Route

end Parlance
