import Parlance.Proofs.Lexical

/-!
The literals of a text, as the lexical reading delimits them. Two texts have the same literals exactly
when the reading puts the same strokes to literals in both: the characters of a literal, its quotes
included, each with whether a literal opens at it.
-/

namespace Parlance.Source

/-! ## 1. Strokes -/

/-- A character of a literal, and whether a literal opens at it. -/
structure Stroke where
  char : Char
  opens : Bool := false
deriving DecidableEq, Repr

/-- The characters of literals in a text read from a mode. -/
def strokes : Mode → Text → List Stroke
  | _, [] => []
  | .code, '/' :: '/' :: rest => strokes .lineComment rest
  | .code, '/' :: '*' :: rest => strokes .blockComment rest
  | .code, c :: rest =>
    if isQuote c then ⟨c, true⟩ :: strokes (.literal c) rest else strokes .code rest
  | .literal quote, '\\' :: c :: rest => ⟨'\\', false⟩ :: ⟨c, false⟩ :: strokes (.literal quote) rest
  | .literal quote, c :: rest =>
    ⟨c, false⟩ :: strokes (if c = quote then .code else .literal quote) rest
  | .lineComment, c :: rest => strokes (if c = '\n' then .code else .lineComment) rest
  | .blockComment, '*' :: '/' :: rest => strokes .code rest
  | .blockComment, _ :: rest => strokes .blockComment rest

/-- The strokes before a literal opens, and the literals from there on. -/
def gather : List Stroke → Text × List Text
  | [] => ([], [])
  | s :: rest =>
    let (run, literals) := gather rest
    if s.opens then ([], (s.char :: run) :: literals) else (s.char :: run, literals)

/-- The string and template literals of a text, each with its quotes. A literal that is left open
has no closing quote. -/
def literals (t : Text) : List Text := (gather (strokes .code t)).2

theorem strokes_pair {mode next : Mode} {c d : Char} {kind : Kind} (h : mode.Pairs c d kind next)
    (t : Text) :
    strokes mode (c :: d :: t) =
      (if kind = .literal then [⟨c, false⟩, ⟨d, false⟩] else []) ++ strokes next t := by
  cases h <;> simp [strokes]

def Mode.isLiteral : Mode → Bool
  | .literal _ => true
  | _ => false

theorem strokes_single {mode : Mode} {c : Char} {t : Text} (h : mode.ReadsAlone c t) :
    strokes mode (c :: t) =
      (if (mode.single c).1 = .literal then [⟨c, !mode.isLiteral⟩] else []) ++
        strokes (mode.single c).2 t := by
  cases mode with
  | code =>
    rw [strokes]
    · by_cases hc : isQuote c = true <;>
        simp [Mode.single, Kind.ofCode, Mode.afterCode, Mode.isLiteral, hc]
    · rintro r rfl rfl
      exact h '/' rfl _ _ .opensLine
    · rintro r rfl rfl
      exact h '*' rfl _ _ .opensBlock
  | literal quote =>
    rw [strokes]
    · simp [Mode.single, Mode.isLiteral]
    · rintro d r rfl rfl
      exact h d rfl _ _ .escape
  | lineComment => by_cases hc : c = '\n' <;> simp [strokes, Mode.single, hc]
  | blockComment =>
    rw [strokes]
    · simp [Mode.single]
    · rintro r rfl rfl
      exact h '/' rfl _ _ .closesBlock

/-- The strokes of a text are the characters that its reading marks as parts of literals. -/
theorem char_strokes (mode : Mode) (t : Text) :
    (strokes mode t).map Stroke.char =
      unmark ((read mode t).1.filter fun m => m.kind = .literal) := by
  induction mode, t using read_induction with
  | nil mode => simp [strokes, read]
  | pair mode c d t kind next hpair ih =>
    rw [strokes_pair hpair, read_pair hpair, List.map_append, ih]
    by_cases hkind : kind = .literal <;> simp [hkind]
  | single mode c t halone ih =>
    rw [strokes_single halone, read_single halone, List.map_append, ih]
    by_cases hkind : (mode.single c).1 = .literal <;> simp [hkind]

/-- What `gather` made of some strokes, taken apart again. -/
def scatter (run : Text) (literals : List Text) : List Stroke :=
  run.map (⟨·, false⟩) ++ literals.flatMap fun
    | [] => []
    | quote :: inner => ⟨quote, true⟩ :: inner.map (⟨·, false⟩)

theorem scatter_gather (ss : List Stroke) : scatter (gather ss).1 (gather ss).2 = ss := by
  induction ss with
  | nil => rfl
  | cons s ss ih =>
    obtain ⟨c, opens⟩ := s
    cases opens with
    | false => simpa [gather, scatter] using ih
    | true => simpa [gather, scatter] using ih

theorem Mode.isLiteral_single {mode : Mode} {c : Char} (hmode : mode.isLiteral = false)
    (hkind : (mode.single c).1 ≠ .literal) : (mode.single c).2.isLiteral = false := by
  cases mode with
  | code =>
    have hc : isQuote c ≠ true := by
      intro hc
      exact hkind (by simp [Mode.single, Kind.ofCode, hc])
    simp [Mode.single, Mode.afterCode, Mode.isLiteral, hc]
  | literal quote => exact absurd rfl hkind
  | lineComment => by_cases hc : c = '\n' <;> simp [Mode.single, Mode.isLiteral, hc]
  | blockComment => rfl

/-- Read from code or from a comment, the first stroke opens a literal. -/
theorem gather_strokes {mode : Mode} (hmode : mode.isLiteral = false) (t : Text) :
    (gather (strokes mode t)).1 = [] := by
  induction mode, t using read_induction with
  | nil mode => rfl
  | pair mode c d t kind next hpair ih =>
    rw [strokes_pair hpair]
    cases hpair with
    | escape => exact absurd hmode (by simp [Mode.isLiteral])
    | opensLine | opensBlock | closesBlock => simpa using ih rfl
  | single mode c t halone ih =>
    rw [strokes_single halone]
    by_cases hkind : (mode.single c).1 = .literal
    · simp [hkind, hmode, gather]
    · simpa [hkind] using ih (Mode.isLiteral_single hmode hkind)

theorem literals_eq_iff {s t : Text} :
    literals s = literals t ↔ strokes .code s = strokes .code t := by
  refine ⟨fun h => ?_, fun h => by rw [literals, literals, h]⟩
  -- no stroke stands before the first literal, so the literals hold all of them
  rw [← scatter_gather (strokes .code s), ← scatter_gather (strokes .code t),
    gather_strokes rfl, gather_strokes rfl]
  exact congrArg (scatter []) h

/-! ## 2. Texts one after another -/

/-- A character that opens and closes neither a literal nor a comment and escapes nothing, except
that a line feed ends a line comment. -/
def isInert (c : Char) : Bool := isPlain c && c ≠ '*' && c ≠ '\\'

theorem isInert_of_isBlank {c : Char} (h : isBlank c = true) : isInert c = true := by
  have hback : c ≠ '\\' := of_decide_eq_true (Text.ne_of_holds (by decide) c h)
  simp [isInert, isPlain_of_isBlank c h, (ne_commentMark_of_isBlank h).2, hback]

theorem ne_of_isInert {c : Char} (h : isInert c = true) :
    isQuote c = false ∧ c ≠ '/' ∧ c ≠ '*' ∧ c ≠ '\\' := by
  simpa [isInert, isPlain, and_assoc] using h

def Mode.afterInert (mode : Mode) (c : Char) : Mode :=
  if mode = .lineComment ∧ c = '\n' then .code else mode

theorem strokes_inert_cons {mode : Mode} {c : Char} (hproper : mode.IsProper) (hc : isInert c = true)
    (t : Text) :
    strokes mode (c :: t) = (if mode.isLiteral then [⟨c, false⟩] else []) ++
        strokes (mode.afterInert c) t ∧
      (read mode (c :: t)).2 = (read (mode.afterInert c) t).2 := by
  obtain ⟨hquote, hslash, hstar, hback⟩ := ne_of_isInert hc
  have halone : mode.ReadsAlone c t := by
    intro d _ kind next hpair
    cases hpair with
    | opensLine | opensBlock => exact hslash rfl
    | escape => exact hback rfl
    | closesBlock => exact hstar rfl
  -- an inert character is no quote, so it closes no literal
  have hmode : (mode.single c).2 = mode.afterInert c := by
    cases mode with
    | code => exact if_neg (by simp [hquote])
    | literal quote =>
      have hne : c ≠ quote := by
        rintro rfl
        exact absurd (hquote ▸ hproper : false = true) (by decide)
      simp [Mode.single, Mode.afterInert, hne]
    | lineComment => by_cases hn : c = '\n' <;> simp [Mode.single, Mode.afterInert, hn]
    | blockComment => simp [Mode.single, Mode.afterInert]
  have hkind : (mode.single c).1 = .literal ↔ mode.isLiteral = true := by
    cases mode with
    | code => simp [Mode.single, Kind.ofCode, Mode.isLiteral, hquote]
    | lineComment => by_cases hn : c = '\n' <;> simp [Mode.single, Mode.isLiteral, hn]
    | literal quote | blockComment => simp [Mode.single, Mode.isLiteral]
  rw [strokes_single halone, read_single halone, hmode]
  cases hliteral : mode.isLiteral <;> simp_all

/-- Two texts are read one after the other when the second begins with an inert character: a
backslash at the end of the first, or half of a comment mark, does nothing to it. -/
theorem strokes_append {mode : Mode} {a x : Text} (hproper : mode.IsProper)
    (hx : x.head?.all isInert = true) :
    strokes mode (a ++ x) = strokes mode a ++ strokes (read mode a).2 x ∧
      (read mode (a ++ x)).2 = (read (read mode a).2 x).2 := by
  induction mode, a using read_induction with
  | nil mode => exact ⟨rfl, rfl⟩
  | pair mode c d t kind next hpair ih =>
    obtain ⟨hstrokes, hread⟩ := ih (Mode.isProper_pair hproper hpair)
    rw [List.cons_append, List.cons_append, strokes_pair hpair, strokes_pair hpair,
      read_pair hpair, read_pair hpair, hstrokes, List.append_assoc]
    exact ⟨rfl, hread⟩
  | single mode c t halone ih =>
    by_cases hescape : t = [] ∧ c = '\\' ∧ ∃ quote, mode = .literal quote
    · -- a backslash at the end takes the first inert character along, a stroke of the literal anyway
      obtain ⟨rfl, rfl, quote, rfl⟩ := hescape
      have hne : '\\' ≠ quote := by
        rintro rfl
        exact absurd hproper (show isQuote '\\' ≠ true by decide)
      cases x with
      | nil => simp [strokes, read, hne]
      | cons d x =>
        have hd : isInert d = true := by simpa using hx
        obtain ⟨hstrokes, hread⟩ := strokes_inert_cons hproper hd x
        simp [strokes, read, hne, hstrokes, hread, Mode.afterInert, Mode.isLiteral]
    · have halone' : mode.ReadsAlone c (t ++ x) := by
        refine halone.append ?_ ?_ hescape
        · intro hslash
          rw [hslash] at hx
          exact absurd hx (by decide)
        · intro hstar
          rw [hstar] at hx
          exact absurd hx (by decide)
      obtain ⟨hstrokes, hread⟩ := ih (Mode.isProper_single hproper c)
      rw [List.cons_append, strokes_single halone', strokes_single halone,
        read_single halone', read_single halone, hstrokes, List.append_assoc]
      exact ⟨rfl, hread⟩

/-! ## 3. Line by line -/

theorem Mode.isLiteral_afterInert (mode : Mode) (c : Char) :
    (mode.afterInert c).isLiteral = mode.isLiteral := by
  unfold Mode.afterInert
  split
  · rename_i h
    rw [h.1]
    rfl
  · rfl

theorem Mode.isProper_afterInert {mode : Mode} (hproper : mode.IsProper) (c : Char) :
    (mode.afterInert c).IsProper := by
  unfold Mode.afterInert
  split
  · trivial
  · exact hproper

def isLineBlank (c : Char) : Bool := isBlank c && c ≠ '\n'

theorem all_isBlank_of_isLineBlank {w : Text} (hw : w.all isLineBlank = true) :
    w.all isBlank = true :=
  Text.all_mono (fun _ hc => (Bool.and_eq_true_iff.1 hc).1) hw

/-- Blanks within a line count in literals only, and change no mode. -/
theorem strokes_blanks_append {mode : Mode} {w : Text} (hproper : mode.IsProper)
    (hw : w.all isLineBlank = true) (t : Text) :
    strokes mode (w ++ t) =
        (if mode.isLiteral then w.map (⟨·, false⟩) else []) ++ strokes mode t ∧
      (read mode (w ++ t)).2 = (read mode t).2 := by
  induction w with
  | nil => simp
  | cons c w ih =>
    simp only [List.all_cons, Bool.and_eq_true] at hw
    obtain ⟨hblank, hbreak⟩ : isBlank c = true ∧ c ≠ '\n' := by simpa [isLineBlank] using hw.1
    have hmode : mode.afterInert c = mode := if_neg fun h => hbreak h.2
    obtain ⟨hstrokes, hread⟩ := strokes_inert_cons hproper (isInert_of_isBlank hblank) (w ++ t)
    rw [hmode] at hstrokes hread
    obtain ⟨ihstrokes, ihread⟩ := ih hw.2
    refine ⟨?_, hread.trans ihread⟩
    rw [List.cons_append, hstrokes, ihstrokes]
    cases mode.isLiteral <;> rfl

/-- The blanks in front of a line break are part of a literal, and of nothing else. -/
theorem strokes_break_iff {mode : Mode} {w : Text} (hproper : mode.IsProper)
    (hw : w.all isLineBlank = true) (s t : Text) :
    strokes mode ('\n' :: s) = strokes mode (w ++ '\n' :: t) ↔
      (mode.isLiteral = true → w = []) ∧
        strokes (mode.afterInert '\n') s = strokes (mode.afterInert '\n') t := by
  rw [(strokes_blanks_append hproper hw _).1, (strokes_inert_cons hproper (by decide) s).1,
    (strokes_inert_cons hproper (by decide) t).1]
  cases hliteral : mode.isLiteral with
  | false => simp
  | true =>
    cases w with
    | nil => simp
    | cons c w =>
      -- inside a literal blanks and line breaks are strokes of their own
      have hbreak : c ≠ '\n' := by
        simp only [List.all_cons, isLineBlank] at hw
        simp_all
      simp [Ne.symm hbreak]

theorem exists_stroke {mode : Mode} {p : Char → Bool} {t : Text}
    (hmode : mode.isLiteral = true) (ht : t.head?.any (!p ·) = true) :
    ∃ c, p c = false ∧ ∃ ss, strokes mode t = ⟨c, false⟩ :: ss := by
  cases mode with
  | code | lineComment | blockComment => exact absurd hmode (by decide)
  | literal quote =>
    cases t with
    | nil => exact absurd ht (by simp)
    | cons c t =>
      refine ⟨c, by simpa using ht, ?_⟩
      unfold strokes
      split <;> simp_all

/-- The blanks in front of the code of a line are part of a literal, and of nothing else. -/
theorem strokes_line_iff {mode : Mode} {w w' k s t : Text} (hproper : mode.IsProper)
    (hw : w.all isLineBlank = true) (hw' : w'.all isLineBlank = true)
    (hk : k.head?.any (!isBlank ·) = true) (hs : s.head?.all isInert = true)
    (ht : t.head?.all isInert = true) :
    strokes mode (w ++ (k ++ s)) = strokes mode (w' ++ (k ++ t)) ↔
      (mode.isLiteral = true → w = w') ∧
        strokes (read mode k).2 s = strokes (read mode k).2 t := by
  -- both texts are read up to the code of the line, and then on from the same mode
  rw [(strokes_blanks_append hproper hw _).1, (strokes_blanks_append hproper hw' _).1,
    (strokes_append hproper hs).1, (strokes_append hproper ht).1]
  cases hliteral : mode.isLiteral with
  | false => simp
  | true =>
    simp only [if_true, true_imp_iff]
    constructor
    · intro h
      obtain ⟨c, hc, ss, hss⟩ := exists_stroke hliteral hk
      -- the first stroke that is no blank stands at one place only
      have hchars := congrArg (List.map Stroke.char) h
      simp only [hss, List.map_append, List.map_map, List.cons_append, List.map_cons,
        Function.comp_def, List.map_id'] at hchars
      obtain ⟨rfl, -, -⟩ := Text.cut_unique hchars (all_isBlank_of_isLineBlank hw)
        (all_isBlank_of_isLineBlank hw') hc hc
      exact ⟨rfl, List.append_cancel_left (List.append_cancel_left h)⟩
    · rintro ⟨rfl, hrest⟩
      rw [hrest]

end Parlance.Source
