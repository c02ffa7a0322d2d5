import Mathlib.Data.List.Basic
import Parlance.Declaration.Basic
import Parlance.Proofs.Offsets
import Parlance.Proofs.Scope

/-!
Searches for declarations. What a search from an offset finds stands in the text at or after that
offset and is not empty. Where nothing matches at the offset itself, the search from the next
character finds the same.
-/

namespace Parlance

open Source

theorem Slot.Heads.ne_nil {f : Framework} {slot : Slot} {last : Option Char} {s rest title : Text}
    (h : Slot.Heads f slot last s rest title) : s ≠ [] := by
  obtain ⟨w, b, x, rfl, -⟩ := h.shape
  simp

/-! ## 1. Matches of a pattern -/

namespace Pattern

variable {pattern : Pattern} {before after : Text}

theorem findAt?_append (pattern : Pattern) (before after : Text) :
    pattern.findAt? (before ++ after) (Text.size before) =
      pattern.searchFrom (Text.size before) before.getLast? after := by
  rw [findAt?, Text.cut?_size]
  rfl

theorem findAt?_of_hit? {h : Hit} (hh : pattern.hit? ⟨before.getLast?, after⟩ = some h) :
    pattern.findAt? (before ++ after) (Text.size before) =
      some (.ofHit (Text.size before) ⟨before.getLast?, after⟩ h) := by
  rw [findAt?_append]
  cases after with
  | nil => simp only [searchFrom, hh, Option.map_some]
  | cons c after => simp only [searchFrom, hh]

theorem findAt?_of_hit?_none {c : Char}
    (h : pattern.hit? ⟨before.getLast?, c :: after⟩ = none) :
    pattern.findAt? (before ++ c :: after) (Text.size before) =
      pattern.findAt? (before ++ c :: after) (Text.size (before ++ [c])) := by
  have hnext := findAt?_append pattern (before ++ [c]) after
  rw [List.append_assoc, List.singleton_append, List.getLast?_concat, Text.size_append] at hnext
  rw [findAt?_append, searchFrom, h, Text.size_append, hnext]
  rfl

/-- A match begins at a place that the search reaches, and takes the text that stands there. -/
theorem exists_takes_of_findAt? {t : Text} {offset : Nat} {found : Found}
    (h : pattern.findAt? t offset = some found) :
    ∃ before s rest kept, t = before ++ (s ++ rest) ∧ offset ≤ Text.size before ∧
      pattern.Takes before.getLast? s rest kept ∧
      found = ⟨Text.size before, Text.size before + Text.size s, s, kept.title, kept.name⟩ := by
  obtain ⟨⟨before, after⟩, hcut, hsearch⟩ := Option.bind_eq_some_iff.1 h
  obtain ⟨rfl, rfl⟩ := Text.eq_of_cut? hcut
  clear h hcut
  change pattern.searchFrom (Text.size before) before.getLast? after = some found at hsearch
  have hfound {before after : Text} {hit : Hit}
      (hhit : pattern.hit? ⟨before.getLast?, after⟩ = some hit)
      (he : Found.ofHit (Text.size before) ⟨before.getLast?, after⟩ hit = found) :
      ∃ s rest kept, after = s ++ rest ∧ pattern.Takes before.getLast? s rest kept ∧
        found = ⟨Text.size before, Text.size before + Text.size s, s, kept.title, kept.name⟩ := by
    obtain ⟨s, rest, kept, rfl, htakes, rfl⟩ := exists_takes_of_hit? hhit
    refine ⟨s, rest, kept, rfl, htakes, ?_⟩
    rw [← he]
    simp [Found.ofHit, hitBehind, Point.upTo]
  -- along the text, one character of which goes to what lies before at each step
  induction after generalizing before with
  | nil =>
    obtain ⟨hit, hhit, he⟩ := Option.map_eq_some_iff.1 hsearch
    obtain ⟨s, rest, kept, ht, htakes, hf⟩ := hfound hhit he
    exact ⟨before, s, rest, kept, by rw [ht], Nat.le_refl _, htakes, hf⟩
  | cons c after ih =>
    rw [searchFrom] at hsearch
    split at hsearch
    · rename_i hit hhit
      obtain ⟨s, rest, kept, ht, htakes, hf⟩ := hfound hhit (Option.some.inj hsearch)
      exact ⟨before, s, rest, kept, by rw [ht], Nat.le_refl _, htakes, hf⟩
    · have hlast : some c = (before ++ [c]).getLast? := List.getLast?_concat.symm
      have hsize : Text.size before + c.utf8Size = Text.size (before ++ [c]) := by simp
      rw [hlast, hsize] at hsearch
      obtain ⟨before', s, rest, kept, ht, hle, htakes, hf⟩ := ih _ hsearch
      refine ⟨before', s, rest, kept, by rw [← ht]; simp, ?_, htakes, hf⟩
      rw [Text.size_append] at hle
      omega

end Pattern

/-! ## 2. Declarations of a slot -/

namespace Declaration

/-- The declaration `d` is the text `s` behind `before`. -/
structure Stands (d : Declaration) (t before s rest : Text) : Prop where
  text : t = before ++ (s ++ rest)
  start : d.start = Text.size before
  stop : d.stop = Text.size before + Text.size s

section Stands

variable {d : Declaration} {t before s rest : Text}

theorem Stands.isBoundary_start (h : d.Stands t before s rest) : Text.IsBoundary t d.start := by
  obtain ⟨rfl, hstart, -⟩ := h
  rw [hstart]
  exact Text.isBoundary_append before (s ++ rest)

theorem Stands.isBoundary_stop (h : d.Stands t before s rest) : Text.IsBoundary t d.stop := by
  obtain ⟨rfl, -, hstop⟩ := h
  rw [hstop, ← Text.size_append, ← List.append_assoc]
  exact Text.isBoundary_append (before ++ s) rest

theorem Stands.start_lt_stop (h : d.Stands t before s rest) (hs : s ≠ []) : d.start < d.stop := by
  obtain ⟨-, hstart, hstop⟩ := h
  have := Text.size_pos hs
  omega

end Stands

variable {f : Framework} {slot : Slot} {pattern : Pattern} {before after : Text}

theorem findAt?_eq (hp : slot.pattern? f = some pattern) (t : Text) (offset : Nat) :
    findAt? f slot t offset = (pattern.findAt? t offset).map (ofFound slot) := by
  rw [findAt?, hp]
  rfl

theorem findAt?_of_hit? {h : Hit} (hp : slot.pattern? f = some pattern)
    (hh : pattern.hit? ⟨before.getLast?, after⟩ = some h) :
    ∃ d, findAt? f slot (before ++ after) (Text.size before) = some d ∧
      d.start = Text.size before := by
  rw [findAt?_eq hp, Pattern.findAt?_of_hit? hh]
  exact ⟨_, rfl, rfl⟩

theorem findAt?_of_hit?_none {c : Char} (hp : slot.pattern? f = some pattern)
    (h : pattern.hit? ⟨before.getLast?, c :: after⟩ = none) :
    findAt? f slot (before ++ c :: after) (Text.size before) =
      findAt? f slot (before ++ c :: after) (Text.size (before ++ [c])) := by
  rw [findAt?_eq hp, findAt?_eq hp, Pattern.findAt?_of_hit?_none h]

theorem exists_takes_of_findAt? {t : Text} {offset : Nat} {d : Declaration}
    (hp : slot.pattern? f = some pattern) (h : findAt? f slot t offset = some d) :
    ∃ before s rest kept, d.Stands t before s rest ∧ offset ≤ d.start ∧ d.slot = slot ∧
      d.title = kept.title.map unescape ∧ pattern.Takes before.getLast? s rest kept := by
  rw [findAt?_eq hp] at h
  obtain ⟨found, hfound, rfl⟩ := Option.map_eq_some_iff.1 h
  obtain ⟨before, s, rest, kept, ht, hle, htakes, rfl⟩ := Pattern.exists_takes_of_findAt? hfound
  exact ⟨before, s, rest, kept, ⟨ht, rfl, rfl⟩, hle, rfl, rfl, htakes⟩

/-! ## 3. The next declaration -/

/-- No declaration starts before the one that is chosen. -/
theorem foldl_precedes_start_le (best : Declaration) (ds : List Declaration) :
    ∀ e ∈ best :: ds,
      (ds.foldl (fun best e => if e.precedes best then e else best) best).start ≤ e.start := by
  induction ds generalizing best with
  | nil => simp
  | cons a ds ih =>
    have hnext : (if a.precedes best then a else best).start ≤ a.start ∧
        (if a.precedes best then a else best).start ≤ best.start := by
      split
      next ha =>
        simp only [precedes, Bool.or_eq_true, Bool.and_eq_true, decide_eq_true_eq] at ha
        omega
      next ha =>
        simp only [precedes, Bool.or_eq_true, decide_eq_true_eq, not_or] at ha
        omega
    have hle := ih (if a.precedes best then a else best)
    rw [List.foldl_cons]
    refine List.forall_mem_cons.2 ⟨?_, List.forall_mem_cons.2 ⟨?_, fun e he => ?_⟩⟩
    · exact Nat.le_trans (hle _ List.mem_cons_self) hnext.2
    · exact Nat.le_trans (hle _ List.mem_cons_self) hnext.1
    · exact hle e (List.mem_cons_of_mem _ he)

theorem of_first? {ds : List Declaration} {d : Declaration} (h : first? ds = some d) :
    d ∈ ds ∧ ∀ e ∈ ds, d.start ≤ e.start := by
  cases ds with
  | nil => simp [first?] at h
  | cons a ds =>
    rw [← Option.some.inj h]
    exact ⟨foldl_choice_mem (fun best e => e.precedes best = true) a ds,
      foldl_precedes_start_le a ds⟩

theorem first?_isSome {ds : List Declaration} {d : Declaration} (h : d ∈ ds) :
    (first? ds).isSome = true := by
  cases ds with
  | nil => exact absurd h List.not_mem_nil
  | cons a ds => rfl

/-- What is found next is the head of a block. -/
theorem exists_heads_of_next? {t : Text} {offset : Nat} {d : Declaration}
    (h : next? f t offset = some d) :
    ∃ before s rest, d.Stands t before s rest ∧ offset ≤ d.start ∧
      Slot.Heads f d.slot before.getLast? s rest (d.title.getD []) := by
  obtain ⟨slot, hslot, hd⟩ := List.mem_filterMap.1 (of_first? h).1
  have hp := Slot.pattern?_declaration (f := f) hslot
  obtain ⟨before, s, rest, kept, hstands, hle, rfl, htitle, htakes⟩ := exists_takes_of_findAt? hp hd
  refine ⟨before, s, rest, hstands, hle, ?_⟩
  have hheads := Slot.heads_of_takes hslot hp htakes
  rw [htitle]
  cases hkept : kept.title with
  | none => simpa [hkept, unescape] using hheads
  | some title => simpa [hkept] using hheads

/-- Where the head of a block stands, the search finds it. -/
theorem next?_of_at? {o : Opening} (h : Opening.at? f ⟨before.getLast?, after⟩ = some o) :
    ∃ d, next? f (before ++ after) (Text.size before) = some d ∧ d.start = Text.size before := by
  obtain ⟨s, rest, rfl, hs, -⟩ := Opening.at?_eq_some_iff.1 h
  have hp := Slot.pattern?_declaration (f := f) hs.declared
  obtain ⟨kept, htakes, -⟩ := hs.takes hp
  obtain ⟨hit, hhit⟩ := Option.isSome_iff_exists.1
    (Pattern.hit?_isSome.2 ⟨s, rest, kept, rfl, htakes⟩)
  obtain ⟨e, he, hestart⟩ := findAt?_of_hit? hp hhit
  have hmem : e ∈ Slot.declarations.filterMap fun slot =>
      findAt? f slot (before ++ (s ++ rest)) (Text.size before) :=
    List.mem_filterMap.2 ⟨o.slot, hs.declared, he⟩
  obtain ⟨d, hd⟩ := Option.isSome_iff_exists.1 (first?_isSome hmem)
  refine ⟨d, hd, ?_⟩
  obtain ⟨_, _, _, -, hle, -⟩ := exists_heads_of_next? hd
  -- it begins no later than this head, and no earlier than the search
  have hfirst := (of_first? hd).2 e hmem
  omega

theorem next?_of_at?_none {c : Char} (h : Opening.at? f ⟨before.getLast?, c :: after⟩ = none) :
    next? f (before ++ c :: after) (Text.size before) =
      next? f (before ++ c :: after) (Text.size (before ++ [c])) := by
  rw [next?, next?]
  congr 1
  apply List.filterMap_congr
  intro slot hslot
  have hp := Slot.pattern?_declaration (f := f) hslot
  apply findAt?_of_hit?_none hp
  apply Option.eq_none_iff_forall_ne_some.2
  intro hit hhit
  obtain ⟨s, rest, kept, ht, htakes, -⟩ := Pattern.exists_takes_of_hit? hhit
  have hheads := Slot.heads_of_takes hslot hp htakes
  have ho : Opening.at? f ⟨before.getLast?, c :: after⟩ = some ⟨slot, _, s.length⟩ :=
    Opening.at?_eq_some_iff.2 ⟨s, rest, ht, hheads, rfl⟩
  rw [h] at ho
  exact absurd ho (by simp)

/-! ## 4. The next call that looks like a declaration -/

theorem candidate?_isSome (f : Framework) : ∃ p, Slot.candidate.pattern? f = some p := by
  cases f <;> exact ⟨_, rfl⟩

theorem exists_stands_of_candidate {t : Text} {offset : Nat} {c : Declaration}
    (h : findAt? f .candidate t offset = some c) :
    ∃ before s rest, c.Stands t before s rest ∧ offset ≤ c.start ∧ s ≠ [] ∧
      Document.looksDeclared f ⟨before.getLast?, s ++ rest⟩ = true := by
  obtain ⟨p, hp⟩ := candidate?_isSome f
  obtain ⟨before, s, rest, kept, hstands, hle, -, -, htakes⟩ := exists_takes_of_findAt? hp h
  obtain ⟨w, b, x, hs, -⟩ := Slot.takes_candidate hp htakes
  exact ⟨before, s, rest, hstands, hle, by rw [hs]; simp,
    Document.looksDeclared_iff.2 ⟨p, s, rest, kept, hp, rfl, htakes⟩⟩

theorem candidate_of_looksDeclared
    (h : Document.looksDeclared f ⟨before.getLast?, after⟩ = true) :
    ∃ c, findAt? f .candidate (before ++ after) (Text.size before) = some c ∧
      c.start = Text.size before := by
  obtain ⟨p, hp, hhit⟩ := (Option.any_eq_true _ _).1 h
  obtain ⟨hit, hhit⟩ := Option.isSome_iff_exists.1 hhit
  exact findAt?_of_hit? hp hhit

theorem candidate_of_not_looksDeclared {c : Char}
    (h : Document.looksDeclared f ⟨before.getLast?, c :: after⟩ = false) :
    findAt? f .candidate (before ++ c :: after) (Text.size before) =
      findAt? f .candidate (before ++ c :: after) (Text.size (before ++ [c])) := by
  obtain ⟨p, hp⟩ := candidate?_isSome f
  apply findAt?_of_hit?_none hp
  apply Option.eq_none_iff_forall_ne_some.2
  intro hit hhit
  have hlooks : Document.looksDeclared f ⟨before.getLast?, c :: after⟩ = true := by
    rw [Document.looksDeclared, hp, Option.any_some, hhit]
    rfl
  rw [h] at hlooks
  exact absurd hlooks (by decide)

end Declaration

end Parlance
