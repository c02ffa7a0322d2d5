import Parlance.Proofs.DeclarationSearch

/-!
Matches one after another. Whatever the search is, as long as it finds nothing before the offset that
it begins at and cuts no character, the next search begins behind the start of the match before it.
So the matches of a text come to an end, each begins behind the one before it and at or after its
end, and there is at most one match more than the text has bytes, also if they are empty.
-/

namespace Parlance

open Text (IsBoundary)

/-! ## 1. Searches and their iteration -/

/-- A match that begins and ends between two characters of a text. -/
structure Found.LiesIn (f : Found) (t : Text) : Prop where
  start_le_stop : f.start ≤ f.stop
  start : IsBoundary t f.start
  stop : IsBoundary t f.stop

/-- A search through a text: what it finds from an offset begins there or later, and lies in the
text. -/
def IsSearch (t : Text) (search : Nat → Option Found) : Prop :=
  ∀ offset f, search offset = some f → offset ≤ f.start ∧ f.LiesIn t

/-- The matches that a search finds from an offset on: it is repeated from where the match before it
leads to, until it finds nothing. -/
inductive Iterates (t : Text) (search : Nat → Option Found) : (offset : Nat) → List Found → Prop
  | done {offset : Nat} (h : search offset = none) : Iterates t search offset []
  | next {offset : Nat} {f : Found} {fs : List Found} (h : search offset = some f)
      (more : Iterates t search (advance t f.start f.stop) fs) : Iterates t search offset (f :: fs)

/-- Matches that follow one another through a text. -/
structure MakesProgress (t : Text) (fs : List Found) : Prop where
  length_le : fs.length ≤ Text.size t + 1
  ordered : fs.Pairwise fun f g => f.start < g.start ∧ f.stop ≤ g.start
  lies : ∀ f ∈ fs, f.LiesIn t

/-! ## 2. One step -/

theorem advance_empty {before : Text} {c : Char} {after : Text} :
    advance (before ++ c :: after) (Text.size before) (Text.size before) =
      Text.size before + c.utf8Size := by
  rw [advance, if_neg (Nat.lt_irrefl _), Text.fromOffset_append]

theorem advance_empty_end (t : Text) : advance t (Text.size t) (Text.size t) = Text.size t + 1 := by
  rw [advance, if_neg (Nat.lt_irrefl _), Text.fromOffset_end]

/-- The search goes on behind the start of a match and not before its end. -/
theorem Found.LiesIn.advance_bounds {f : Found} {t : Text} (h : f.LiesIn t) :
    f.start < advance t f.start f.stop ∧ f.stop ≤ advance t f.start f.stop ∧
      advance t f.start f.stop ≤ Text.size t + 1 := by
  have hle := h.start_le_stop
  have hstop := h.stop.le
  by_cases hlt : f.start < f.stop
  · rw [advance, if_pos hlt]
    omega
  -- an empty match: one character on, or beyond the end
  · have hempty : f.stop = f.start := by omega
    obtain ⟨before, after, rfl, hsize⟩ := h.start
    rw [hempty, ← hsize]
    cases after with
    | nil =>
      rw [List.append_nil, advance_empty_end]
      omega
    | cons c after =>
      have hpos := c.utf8Size_pos
      rw [advance_empty, Text.size_append, Text.size_cons]
      omega

/-! ## 3. A whole run -/

section Run

variable {t : Text} {search : Nat → Option Found} {offset : Nat} {fs : List Found}

/-- What is found from an offset on takes no more steps than there are offsets left, lies in the text
behind the offset, and is in order. -/
theorem Iterates.from_offset (h : Iterates t search offset fs) (hsearch : IsSearch t search)
    (hoffset : offset ≤ Text.size t + 1) :
    fs.length + offset ≤ Text.size t + 1 ∧ (∀ f ∈ fs, offset ≤ f.start ∧ f.LiesIn t) ∧
      fs.Pairwise fun f g => f.start < g.start ∧ f.stop ≤ g.start := by
  induction h with
  | done => exact ⟨by simpa using hoffset, by simp, .nil⟩
  | @next offset f fs h more ih =>
    obtain ⟨hle, hlies⟩ := hsearch offset f h
    obtain ⟨hstart, hstop, hend⟩ := hlies.advance_bounds
    -- the later matches are those of a run from where this one leads to
    obtain ⟨hlength, hlater, hordered⟩ := ih hend
    refine ⟨?_, List.forall_mem_cons.2 ⟨⟨hle, hlies⟩, fun g hg => ?_⟩,
      List.pairwise_cons.2 ⟨fun g hg => ?_, hordered⟩⟩
    · rw [List.length_cons]
      omega
    · have hg := hlater g hg
      exact ⟨by omega, hg.2⟩
    · have hg := (hlater g hg).1
      omega

theorem Iterates.makesProgress (h : Iterates t search 0 fs) (hsearch : IsSearch t search) :
    MakesProgress t fs := by
  obtain ⟨hlength, hlies, hordered⟩ := h.from_offset hsearch (Nat.zero_le _)
  exact ⟨hlength, hordered, fun f hf => (hlies f hf).2⟩

/-- Each step brings the search nearer to the end of the text, so it ends. -/
theorem exists_iterates (hsearch : IsSearch t search) (offset : Nat) :
    ∃ fs, Iterates t search offset fs := by
  induction hleft : Text.size t + 1 - offset using Nat.strongRecOn generalizing offset with
  | ind left ih =>
    cases h : search offset with
    | none => exact ⟨[], .done h⟩
    | some f =>
      obtain ⟨hle, hlies⟩ := hsearch offset f h
      have hstart := hlies.start.le
      have hadvance := hlies.advance_bounds
      obtain ⟨fs, hfs⟩ := ih _ (by omega) (advance t f.start f.stop) rfl
      exact ⟨f :: fs, .next h hfs⟩

end Run

/-! ## 4. Patterns -/

namespace Pattern

theorem isSearch_findAt? (pattern : Pattern) (t : Text) : IsSearch t (pattern.findAt? t) := by
  intro offset f h
  obtain ⟨before, s, rest, kept, rfl, hle, -, rfl⟩ := exists_takes_of_findAt? h
  refine ⟨hle, Nat.le_add_right _ _, Text.isBoundary_append before (s ++ rest), ?_⟩
  rw [← Text.size_append, ← List.append_assoc]
  exact Text.isBoundary_append (before ++ s) rest

/-- The bound on the number of matches stops no run that is shorter. -/
theorem matchesFrom_eq {pattern : Pattern} {t : Text} {offset steps : Nat} {fs : List Found}
    (h : Iterates t (pattern.findAt? t) offset fs) (hsteps : fs.length < steps) :
    pattern.matchesFrom t steps offset = fs := by
  induction h generalizing steps with
  | done h =>
    cases steps with
    | zero => rfl
    | succ steps => rw [matchesFrom, h]
  | next h more ih =>
    rw [List.length_cons] at hsteps
    obtain ⟨steps, rfl⟩ : ∃ k, steps = k + 1 := ⟨steps - 1, by omega⟩
    simp only [matchesFrom, h, ih (Nat.lt_of_succ_lt_succ hsteps)]

theorem iterates_allMatches (pattern : Pattern) (t : Text) :
    Iterates t (pattern.findAt? t) 0 (pattern.allMatches t) := by
  have hsearch := isSearch_findAt? pattern t
  obtain ⟨fs, hfs⟩ := exists_iterates hsearch 0
  have hlength := (hfs.makesProgress hsearch).length_le
  rw [allMatches, matchesFrom_eq hfs (by omega)]
  exact hfs

end Pattern

/-- The matches of any search through a text come to an end and make progress, and all the matches of
a pattern are found by such a search. -/
theorem iteration_makes_progress (t : Text) :
    (∀ search, IsSearch t search → ∃ fs, Iterates t search 0 fs ∧ MakesProgress t fs) ∧
    ∀ pattern : Pattern, IsSearch t (pattern.findAt? t) ∧
      Iterates t (pattern.findAt? t) 0 (pattern.allMatches t) ∧
      MakesProgress t (pattern.allMatches t) := by
  refine ⟨fun search hsearch => ?_, fun pattern => ?_⟩
  · obtain ⟨fs, hfs⟩ := exists_iterates hsearch 0
    exact ⟨fs, hfs, hfs.makesProgress hsearch⟩
  · have hsearch := pattern.isSearch_findAt? t
    have hall := pattern.iterates_allMatches t
    exact ⟨hsearch, hall, hall.makesProgress hsearch⟩

/-- Behind each character of this text but one a pattern finds only the empty match. -/
theorem iteration_makes_progress_emptyMatches :
    IsSearch "axéb" ((Pattern.many (.one 'x')).findAt? "axéb") ∧
      ((Pattern.many (.one 'x')).allMatches "axéb").map (fun f => (f.start, f.stop)) =
        [(0, 0), (1, 2), (2, 2), (4, 4), (5, 5)] ∧
      ∃ fs, Iterates "axéb" ((Pattern.many (.one 'x')).findAt? "axéb") 0 fs ∧
        MakesProgress "axéb" fs := by
  obtain ⟨hany, hpattern⟩ := iteration_makes_progress "axéb"
  have hsearch := (hpattern (.many (.one 'x'))).1
  exact ⟨hsearch, by decide +kernel, hany _ hsearch⟩

end Parlance
