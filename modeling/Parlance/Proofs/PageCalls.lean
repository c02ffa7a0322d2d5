import Parlance.Proofs.ArgumentCuts
import Parlance.Proofs.BalancedCalls
import Parlance.Proofs.PlaywrightSteps

/-!
Calls on the page that name their element. A call that acts on an element may stand right behind the
page, with the selector of the element before its other arguments. It is read as the same call on a
locator of this selector, but for blanks around those arguments: a call on the page has its
arguments cut and joined again, and a call on a locator keeps them as they are written.
-/

namespace Parlance

open Source (IsArgument IsArgumentList Link callText chainText finalMode isName splitArguments)

/-! ## 1. Arguments behind a selector -/

theorem Source.isArgumentList_join {vs : List Text}
    (hvs : ∀ v ∈ vs, IsArgument v ∧ finalMode v = .code) :
    IsArgumentList (Text.join ", " vs) := by
  cases vs with
  | nil => decide
  | cons v vs =>
    exact (@Source.splitCommas_join_arguments (v :: vs) (by simp) hvs [] rfl).1

/-- Arguments joined behind one that is not blank are cut where they were joined, and lose the
blanks around them. -/
theorem Source.splitArguments_join {v : Text} {vs : List Text} (hv : Text.allBlank v = false)
    (hvs : ∀ u ∈ v :: vs, IsArgument u ∧ finalMode u = .code) :
    splitArguments (Text.join ", " (v :: vs)) = Text.trim v :: vs.map Text.trim := by
  obtain ⟨-, hcut⟩ := @Source.splitCommas_join_arguments (v :: vs) (by simp) hvs [] rfl
  rw [List.nil_append] at hcut
  unfold splitArguments
  split
  · -- a blank list has one argument, which is blank
    rename_i hblank
    rw [Source.splitCommas_of_allBlank hblank, List.map_cons] at hcut
    have htrim : Text.trim v = [] := (List.cons.inj hcut).1.symm
    rw [Text.trim_eq_nil_iff, hv] at htrim
    exact absurd htrim Bool.false_ne_true
  · exact hcut

/-! ## 2. Calls that act on an element -/

/-- A call on the page. -/
def pageCall (name : Text) (args : List Text) : Text :=
  "await page.".toList ++ callText name (Text.join ", " args)

/-- A call on the element that a selector locates. -/
def locatorCall (selector name : Text) (args : List Text) : Text :=
  "await page.".toList ++ callText "locator" selector ++ ".".toList ++
    callText name (Text.join ", " args)

/-- A command that acts on the element of a selector. -/
def locatedStep (selector : Text) (action : Action) (name args : Text) : Step :=
  .chain [.call (.known .locate) "locator" selector, .call (.known action) name args]

theorem pageCall_eq (name : Text) (args : List Text) :
    pageCall name args =
      "await ".toList ++ chainText pageRoot [⟨name, some (Text.join ", " args)⟩] := by
  have hlead : "await page.".toList = "await ".toList ++ "page".toList ++ ".".toList := by decide
  unfold pageCall
  rw [hlead, Source.chainText_cons, Source.chainText_nil]
  simp [pageRoot, Link.text, Link.callText, callText]

theorem locatorCall_eq (selector name : Text) (args : List Text) :
    locatorCall selector name args =
      "await ".toList ++ chainText pageRoot
        [⟨"locator", some selector⟩, ⟨name, some (Text.join ", " args)⟩] := by
  have hlead : "await page.".toList = "await ".toList ++ "page".toList ++ ".".toList := by decide
  unfold locatorCall
  rw [hlead, Source.chainText_cons, Source.chainText_cons, Source.chainText_nil]
  simp [pageRoot, Link.text, Link.callText, callText]

/-- The name of a call that acts on an element is no name of another command. -/
theorem Action.lookup_elementName {a : Action} (ha : a.kind = .element) {name : Text}
    (hname : name ∈ a.playwrightNames) :
    Action.lookup .playwright name = .known a ∧ isName name = true := by
  have hall : ∀ b ∈ Action.all, b.kind = .element → ∀ n ∈ b.playwrightNames,
      Action.lookup .playwright n = .known b ∧ isName n = true := by
    decide +kernel
  exact hall a a.mem_all ha name hname

/-- A call on the page that acts on an element is split: its first argument locates the element. -/
theorem readPageCall_element {name args selector : Text} {rest : List Text} {a : Action}
    (hlookup : Action.lookup .playwright name = .known a) (ha : a.kind = .element)
    (hcut : splitArguments args = selector :: rest) :
    readPageCall name args =
      [.call (.known .locate) "locator" selector,
        .call (.known a) name (Text.join ", " rest)] := by
  unfold readPageCall
  simp only [hlookup, Lookup.value?, Option.map_some, ha, hcut]

theorem isReadable_call {name args : Text} (hname : isName name = true)
    (hargs : IsArgumentList args) : Link.IsReadable ⟨name, some args⟩ where
  name := hname
  args _ h := Option.some.inj h ▸ hargs

/-- Calls on the page of commands that are known are one chain. -/
theorem ofStatement_page {links : List Link} (hlinks : ∀ l ∈ links, l.IsReadable)
    {commands : List Command} (hread : readPage links = some commands)
    (hknown : ∀ c ∈ commands, c.action.value?.isSome = true) :
    Step.ofStatement .playwright ("await ".toList ++ chainText pageRoot links) =
      [.chain commands] := by
  have hcode : isComment ("await ".toList ++ chainText pageRoot links) = false :=
    isComment_cons (by decide) _
  have hcallback : [Step.chain commands].any Step.hasUnknownCallback = false := by
    simp only [List.any_cons, List.any_nil, Bool.or_false, Step.hasUnknownCallback,
      List.any_eq_false]
    intro c hc
    obtain ⟨a, ha⟩ := Option.isSome_iff_exists.1 (hknown c hc)
    simp [Command.hasUnknownCallback, ha]
  unfold Step.ofStatement
  simp only [(isTrimmed_await isReadable_pageRoot hlinks).trim_eq, hcode, readShape,
    Route.readPlaywright_page hlinks, hread, Option.map_some, Bool.false_eq_true,
    if_false]
  rw [Option.filter, hcallback]
  rfl

section Element

variable {a : Action} {name selector : Text} {args : List Text}

/-- What is read from a call on the page: its selector, and its other arguments trimmed. -/
theorem ofStatement_pageCall_eq (ha : a.kind = .element) (hname : name ∈ a.playwrightNames)
    (hselector : Text.allBlank selector = false)
    (hargs : ∀ v ∈ selector :: args, IsArgument v ∧ finalMode v = .code) :
    Step.ofStatement .playwright (pageCall name (selector :: args)) =
      [locatedStep selector a name (Text.join ", " (args.map Text.trim))] := by
  obtain ⟨hlookup, hisName⟩ := Action.lookup_elementName ha hname
  have hcut := Source.splitArguments_join hselector hargs
  have htrim : Command.call (.known .locate) "locator" (Text.trim selector) =
      .call (.known .locate) "locator" selector := by
    rw [Command.call, (Text.isTrimmed_trim selector).trim_eq, Command.call]
  have hread : readPage [⟨name, some (Text.join ", " (selector :: args))⟩] =
      some [.call (.known .locate) "locator" selector,
        .call (.known a) name (Text.join ", " (args.map Text.trim))] := by
    simp only [readPage, readCalls, Option.bind_eq_bind, Option.bind_some,
      readPageCall_element hlookup ha hcut, htrim, List.append_nil]
  rw [pageCall_eq]
  refine ofStatement_page ?_ hread (by simp [Command.call, Lookup.value?])
  intro l hl
  rw [List.mem_singleton.1 hl]
  exact isReadable_call hisName (Source.isArgumentList_join hargs)

/-- What is read from a call on a locator: its selector and its arguments as they are written. -/
theorem ofStatement_locatorCall_eq (ha : a.kind = .element) (hname : name ∈ a.playwrightNames)
    (hargs : ∀ v ∈ selector :: args, IsArgument v ∧ finalMode v = .code) :
    Step.ofStatement .playwright (locatorCall selector name args) =
      [locatedStep selector a name (Text.join ", " args)] := by
  obtain ⟨hlookup, hisName⟩ := Action.lookup_elementName ha hname
  have hlocator : Action.lookup .playwright "locator" = .known .locate := by decide
  obtain ⟨hselector, hrest⟩ := List.forall_mem_cons.1 hargs
  have hread : readPage [⟨"locator", some selector⟩, ⟨name, some (Text.join ", " args)⟩] =
      some [.call (.known .locate) "locator" selector,
        .call (.known a) name (Text.join ", " args)] := by
    have hcall := readPageCall_command hlocator (by decide) selector
    simp only [readPage, readCalls, Option.bind_eq_bind, Option.bind_some, hcall, readCall, hlookup,
      hlocator, List.cons_append, List.nil_append]
  rw [locatorCall_eq]
  refine ofStatement_page ?_ hread (by simp [Command.call, Lookup.value?])
  intro l hl
  rcases List.mem_cons.1 hl with rfl | hl
  · exact isReadable_call (by decide) (hselector.1.isArgumentList hselector.2)
  · rw [List.mem_singleton.1 hl]
    exact isReadable_call hisName (Source.isArgumentList_join hrest)

theorem locatedStep_inj {args args' : Text} :
    [locatedStep selector a name args] = [locatedStep selector a name args'] ↔
      Text.trim args = Text.trim args' := by
  simp [locatedStep, Command.call]

/-- A call on the page that names its element is read as the call on a locator of this element: the
selector, and the command with its other arguments joined. The two readings differ where the blanks
around an argument stand inside the list, since only the call on the page has them trimmed.

What is read from the call on the page is stated for arguments that still end in code when they are
trimmed. One that ends in a line comment loses the line feed behind the comment, so all that is
joined behind it becomes a part of the comment, and the joined text no longer stands for the
arguments of the call. Such arguments are left out here; `ofStatement_pageCall_eq` says what is read
from them. -/
theorem ofStatement_pageCall (ha : a.kind = .element) (hname : name ∈ a.playwrightNames)
    (hselector : Text.allBlank selector = false)
    (hargs : ∀ v ∈ selector :: args, IsArgument v ∧ finalMode v = .code) :
    Step.ofStatement .playwright (locatorCall selector name args) =
        [locatedStep selector a name (Text.join ", " args)] ∧
      ((∀ v ∈ args, finalMode (Text.trim v) = .code) →
        Step.ofStatement .playwright (pageCall name (selector :: args)) =
            [locatedStep selector a name (Text.join ", " (args.map Text.trim))] ∧
          (Step.ofStatement .playwright (pageCall name (selector :: args)) =
              Step.ofStatement .playwright (locatorCall selector name args) ↔
            Text.trim (Text.join ", " (args.map Text.trim)) =
              Text.trim (Text.join ", " args))) := by
  have hpage := ofStatement_pageCall_eq ha hname hselector hargs
  have hlocator := ofStatement_locatorCall_eq ha hname hargs
  refine ⟨hlocator, fun _ => ⟨hpage, ?_⟩⟩
  rw [hpage, hlocator]
  exact locatedStep_inj

end Element

/-- An object with a comma, a parenthesis and a dot in a literal, and a callback. -/
def nestedArguments : List Text :=
  ["\x7b label: 'x, y).z', n: f(1) \x7d", "(e) => g(e, \"]\")"]

theorem ofStatement_pageCall_nested :
    Step.ofStatement .playwright
        (pageCall "selectOption" ("row('a, (b', [1, 2])".toList :: nestedArguments)) =
      [locatedStep "row('a, (b', [1, 2])" .select "selectOption"
        (Text.join ", " nestedArguments)] ∧
    Step.ofStatement .playwright
        (locatorCall "row('a, (b', [1, 2])" "selectOption" nestedArguments) =
      [locatedStep "row('a, (b', [1, 2])" .select "selectOption"
        (Text.join ", " nestedArguments)] := by
  have hargs : ∀ v ∈ "row('a, (b', [1, 2])".toList :: nestedArguments,
      IsArgument v ∧ finalMode v = .code := by
    decide +kernel
  have hclosed : ∀ v ∈ nestedArguments, finalMode (Text.trim v) = .code := by
    decide +kernel
  have htrim : nestedArguments.map Text.trim = nestedArguments := by
    decide +kernel
  obtain ⟨hlocator, hread⟩ := @ofStatement_pageCall .select "selectOption" _ _ rfl (by decide)
    (by decide) hargs
  obtain ⟨hpage, -⟩ := hread hclosed
  rw [htrim] at hpage
  exact ⟨hpage, hlocator⟩

/-- Blanks before a comma are lost on the page and kept on a locator. -/
theorem ofStatement_pageCall_ne_locatorCall :
    (∀ v ∈ ["'#a'".toList, "x ".toList, "y".toList], IsArgument v ∧ finalMode v = .code) ∧
      Step.ofStatement .playwright (pageCall "fill" ["'#a'", "x ", "y"]) =
        [locatedStep "'#a'" .fill "fill" "x, y"] ∧
      Step.ofStatement .playwright (locatorCall "'#a'" "fill" ["x ", "y"]) =
        [locatedStep "'#a'" .fill "fill" "x , y"] ∧
      Step.ofStatement .playwright (pageCall "fill" ["'#a'", "x ", "y"]) ≠
        Step.ofStatement .playwright (locatorCall "'#a'" "fill" ["x ", "y"]) := by
  decide +kernel

end Parlance
