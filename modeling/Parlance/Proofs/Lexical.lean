import Parlance.Proofs.Text
import Parlance.Source.Literal

/-!
The lexical reading is compositional: a text that ends in code mode is read the same whatever
follows it, and after a character of code the rest is read as a text of its own.
-/

namespace Parlance.Source

/-! ## 1. One character or two -/

/-- Two characters that are read together in a mode, what they belong to and the mode behind them. -/
inductive Mode.Pairs : Mode → (c d : Char) → Kind → (next : Mode) → Prop
  | opensLine : Pairs .code '/' '/' .comment .lineComment
  | opensBlock : Pairs .code '/' '*' .comment .blockComment
  | escape {quote d : Char} : Pairs (.literal quote) '\\' d .literal (.literal quote)
  | closesBlock : Pairs .blockComment '*' '/' .comment .code

/-- What a character that is read alone belongs to, and the mode behind it. -/
def Mode.single (mode : Mode) (c : Char) : Kind × Mode :=
  match mode with
  | .code => (.ofCode c, .afterCode c)
  | .literal quote => (.literal, if c = quote then .code else .literal quote)
  | .lineComment => if c = '\n' then (.code, .code) else (.comment, .lineComment)
  | .blockComment => (.comment, .blockComment)

/-- A character is read alone before a text: with its first character it makes no pair. -/
def Mode.ReadsAlone (mode : Mode) (c : Char) (t : Text) : Prop :=
  ∀ d ∈ t.head?, ∀ kind next, ¬mode.Pairs c d kind next

theorem Mode.ReadsAlone.of_head {mode : Mode} {c : Char} {s t : Text}
    (h : mode.ReadsAlone c s) (hhead : ∀ d ∈ t.head?, d ∈ s.head?) : mode.ReadsAlone c t :=
  fun d hd => h d (hhead d hd)

theorem Mode.readsAlone_end (mode : Mode) (c : Char) : mode.ReadsAlone c [] := by
  simp [Mode.ReadsAlone]

theorem read_pair {mode next : Mode} {c d : Char} {kind : Kind} (h : mode.Pairs c d kind next)
    (t : Text) :
    read mode (c :: d :: t) = (⟨c, kind⟩ :: ⟨d, kind⟩ :: (read next t).1, (read next t).2) := by
  cases h <;> simp [read]

theorem read_single {mode : Mode} {c : Char} {t : Text} (h : mode.ReadsAlone c t) :
    read mode (c :: t) =
      (⟨c, (mode.single c).1⟩ :: (read (mode.single c).2 t).1, (read (mode.single c).2 t).2) := by
  cases mode with
  | code =>
    -- the equation for one character asks that no comment mark begins here
    rw [read]
    · rfl
    · rintro r rfl rfl
      exact h '/' rfl _ _ .opensLine
    · rintro r rfl rfl
      exact h '*' rfl _ _ .opensBlock
  | literal quote =>
    rw [read]
    · rfl
    · rintro d r rfl rfl
      exact h d rfl _ _ .escape
  | lineComment =>
    rw [read, Mode.single]
    split <;> rfl
  | blockComment =>
    rw [read]
    · rfl
    · rintro r rfl rfl
      exact h '/' rfl _ _ .closesBlock

/-- Induction along a reading, over two characters where they are read together. -/
theorem read_induction {motive : Mode → Text → Prop} (nil : ∀ mode, motive mode [])
    (pair : ∀ mode c d t kind next, mode.Pairs c d kind next → motive next t →
      motive mode (c :: d :: t))
    (single : ∀ mode c t, mode.ReadsAlone c t → motive (mode.single c).2 t → motive mode (c :: t))
    (mode : Mode) (t : Text) : motive mode t := by
  match t with
  | [] => exact nil mode
  | [c] => exact single mode c [] (mode.readsAlone_end c) (nil _)
  | c :: d :: t =>
    -- two characters that make a pair are taken together, all others one at a time
    by_cases hpair : ∃ kind next, mode.Pairs c d kind next
    · obtain ⟨kind, next, hpair⟩ := hpair
      exact pair mode c d t kind next hpair (read_induction nil pair single next t)
    · refine single mode c (d :: t) ?_ (read_induction nil pair single _ (d :: t))
      intro e he kind next he'
      obtain rfl : d = e := by simpa using he
      exact hpair ⟨kind, next, he'⟩
termination_by t.length

/-- A mode that reading can reach: only a quote opens a literal. -/
def Mode.IsProper : Mode → Prop
  | .literal quote => isQuote quote = true
  | _ => True

theorem Mode.isProper_pair {mode next : Mode} {c d : Char} {kind : Kind} (hproper : mode.IsProper)
    (h : mode.Pairs c d kind next) : next.IsProper := by
  cases h with
  | escape => exact hproper
  | opensLine | opensBlock | closesBlock => trivial

theorem Mode.isProper_single {mode : Mode} (hproper : mode.IsProper) (c : Char) :
    (mode.single c).2.IsProper := by
  cases mode with
  | code =>
    simp only [Mode.single, Mode.afterCode]
    split
    · assumption
    · trivial
  | literal quote =>
    simp only [Mode.single]
    split
    · trivial
    · exact hproper
  | lineComment =>
    simp only [Mode.single]
    split <;> trivial
  | blockComment => trivial

theorem Mode.isProper_read {mode : Mode} (hproper : mode.IsProper) (t : Text) :
    (read mode t).2.IsProper := by
  induction mode, t using read_induction with
  | nil mode => exact hproper
  | pair mode c d t kind next hpair ih =>
    rw [read_pair hpair]
    exact ih (Mode.isProper_pair hproper hpair)
  | single mode c t halone ih =>
    rw [read_single halone]
    exact ih (Mode.isProper_single hproper c)

/-! ## 2. Texts one after another -/

/-- Two texts between which no comment mark comes about. -/
def MeetApart (a b : Text) : Prop :=
  a.getLast? = some '/' → b.head? ≠ some '/' ∧ b.head? ≠ some '*'

theorem MeetApart.of_last {a b : Text} (h : a.getLast? ≠ some '/') : MeetApart a b :=
  fun ha => absurd ha h

theorem MeetApart.of_head {a t : Text} {c : Char} (hs : c ≠ '/') (hb : c ≠ '*') :
    MeetApart a (c :: t) :=
  fun _ => ⟨by simpa using hs, by simpa using hb⟩

theorem MeetApart.tail {c : Char} {a b : Text} (h : MeetApart (c :: a) b) : MeetApart a b := by
  intro ha
  refine h ?_
  cases a with
  | nil => simp at ha
  | cons d a => rwa [List.getLast?_cons_cons]

/-- A last character that leaves nothing open is read alone whatever follows it, unless a comment
mark comes about. -/
theorem Mode.readsAlone_of_code {mode : Mode} {c : Char} {b : Text} (hproper : mode.IsProper)
    (hcode : (mode.single c).2 = .code) (hmeet : MeetApart [c] b) : mode.ReadsAlone c b := by
  intro d hd kind next hpair
  rw [Option.mem_def] at hd
  cases hpair with
  | opensLine => exact (hmeet rfl).1 hd
  | opensBlock => exact (hmeet rfl).2 hd
  | escape =>
    -- only its quote ends a literal, and no quote is a backslash
    rename_i quote
    obtain rfl : '\\' = quote := by simpa [Mode.single] using hcode
    exact absurd hproper (show isQuote '\\' ≠ true by decide)
  | closesBlock => exact absurd hcode (by simp [Mode.single])

/-- Reading goes on from code mode where a text ends in it. -/
theorem read_append {mode : Mode} {a b : Text} (hproper : mode.IsProper)
    (hmode : (read mode a).2 = .code) (hmeet : MeetApart a b) :
    read mode (a ++ b) = ((read mode a).1 ++ marks b, finalMode b) := by
  induction mode, a using read_induction with
  | nil mode =>
    obtain rfl : mode = .code := by simpa [read] using hmode
    simp [read, marks, finalMode]
  | pair mode c d t kind next hpair ih =>
    rw [read_pair hpair] at hmode
    rw [List.cons_append, List.cons_append, read_pair hpair, read_pair hpair,
      ih (Mode.isProper_pair hproper hpair) hmode hmeet.tail.tail]
    rfl
  | single mode c t halone ih =>
    rw [read_single halone] at hmode
    have halone' : mode.ReadsAlone c (t ++ b) := by
      -- only the last character of `a` could make a pair with the first one of `b`
      cases t with
      | nil => exact Mode.readsAlone_of_code hproper (by simpa [read] using hmode) hmeet
      | cons d t => exact halone
    rw [List.cons_append, read_single halone, read_single halone',
      ih (Mode.isProper_single hproper c) hmode hmeet.tail]
    rfl

theorem marks_append {a b : Text} (hmode : finalMode a = .code) (hmeet : MeetApart a b) :
    marks (a ++ b) = marks a ++ marks b := by
  rw [marks, @read_append .code a b trivial hmode hmeet]
  rfl

theorem finalMode_append {a b : Text} (hmode : finalMode a = .code) (hmeet : MeetApart a b) :
    finalMode (a ++ b) = finalMode b := by
  rw [finalMode, @read_append .code a b trivial hmode hmeet]

/-- With what is no half of a comment mark a character makes no pair, unless it is the backslash at
the end of a literal. -/
theorem Mode.ReadsAlone.append {mode : Mode} {c : Char} {t x : Text} (h : mode.ReadsAlone c t)
    (hs : x.head? ≠ some '/') (hb : x.head? ≠ some '*')
    (hescape : ¬(t = [] ∧ c = '\\' ∧ ∃ quote, mode = .literal quote)) :
    mode.ReadsAlone c (t ++ x) := by
  cases t with
  | cons d t => exact h
  | nil =>
    intro e he kind next hpair
    rw [List.nil_append, Option.mem_def] at he
    cases hpair with
    | opensLine | closesBlock => exact hs he
    | opensBlock => exact hb he
    | escape => exact hescape ⟨rfl, rfl, _, rfl⟩

/-- Before a character that is no half of a comment mark a text is read the same, and reading goes
on from where it stopped; a backslash at the end of a literal takes the character along. -/
theorem read_front {mode : Mode} {a : Text} {c : Char} (hproper : mode.IsProper) (hs : c ≠ '/')
    (hb : c ≠ '*') (b : Text) :
    ∃ tail, (read mode (a ++ c :: b)).1 = (read mode a).1 ++ tail ∧
      ((read mode (a ++ c :: b)).2 = (read (read mode a).2 (c :: b)).2 ∨
        ∃ quote, (read mode a).2 = .literal quote ∧
          (read mode (a ++ c :: b)).2 = (read (.literal quote) b).2) := by
  induction mode, a using read_induction with
  | nil mode => exact ⟨_, rfl, .inl rfl⟩
  | pair mode d e t kind next hpair ih =>
    obtain ⟨tail, htail, hfinal⟩ := ih (Mode.isProper_pair hproper hpair)
    rw [List.cons_append, List.cons_append, read_pair hpair, read_pair hpair]
    exact ⟨tail, by simp [htail], hfinal⟩
  | single mode d t halone ih =>
    -- the one pair that can reach over the seam is an escape at the end of a literal
    by_cases hescape : t = [] ∧ d = '\\' ∧ ∃ quote, mode = .literal quote
    · obtain ⟨rfl, rfl, quote, rfl⟩ := hescape
      have hq : '\\' ≠ quote := by
        rintro rfl
        exact absurd hproper (show isQuote '\\' ≠ true by decide)
      refine ⟨⟨c, .literal⟩ :: (read (.literal quote) b).1, ?_, .inr ⟨quote, ?_, ?_⟩⟩ <;>
        simp [read, hq]
    · have halone' : mode.ReadsAlone d (t ++ c :: b) :=
        halone.append (by simpa using hs) (by simpa using hb) hescape
      obtain ⟨tail, htail, hfinal⟩ := ih (Mode.isProper_single hproper d)
      rw [List.cons_append, read_single halone, read_single halone']
      exact ⟨tail, by simp [htail], hfinal⟩

/-! ## 3. Around a character of code -/

@[simp] theorem unmark_append (ms ns : List Mark) : unmark (ms ++ ns) = unmark ms ++ unmark ns :=
  List.map_append

@[simp] theorem unmark_cons (m : Mark) (ms : List Mark) :
    unmark (m :: ms) = m.char :: unmark ms := rfl

@[simp] theorem unmark_nil : unmark [] = [] := rfl

theorem Mode.afterCode_of_ofCode {c : Char} (h : Kind.ofCode c = .code) :
    Mode.afterCode c = .code := by
  unfold Kind.ofCode at h
  unfold Mode.afterCode
  split at h
  · simp at h
  · rename_i hc
    rw [if_neg hc]

theorem Mode.Pairs.kind_ne_code {mode next : Mode} {c d : Char} {kind : Kind}
    (h : mode.Pairs c d kind next) : kind ≠ .code := by
  cases h <;> decide

/-- A character of code leaves nothing open. Only the line feed behind a line comment is read as one
from another mode. -/
theorem Mode.single_of_code {mode : Mode} {c : Char} (h : (mode.single c).1 = .code) :
    (mode.single c).2 = .code ∧ (c ≠ '\n' → mode = .code) := by
  cases mode with
  | code => exact ⟨Mode.afterCode_of_ofCode h, fun _ => rfl⟩
  | literal quote => exact absurd h (by simp [Mode.single])
  | lineComment => by_cases hc : c = '\n' <;> simp_all [Mode.single]
  | blockComment => exact absurd h (by simp [Mode.single])

theorem exists_front_of_hidden {a m : Mark} {ms before after : List Mark} (ha : a.kind ≠ .code)
    (hm : m.kind = .code) (h : a :: ms = before ++ m :: after) :
    ∃ more, before = a :: more ∧ ms = more ++ m :: after := by
  cases before with
  | nil => exact absurd ((List.cons.inj h).1 ▸ hm) ha
  | cons b more =>
    obtain ⟨rfl, hms⟩ := List.cons.inj h
    exact ⟨more, rfl, hms⟩

/-- After a character of code the rest of a text is read from code mode. -/
theorem read_after_code {mode final : Mode} {t : Text} {before after : List Mark} {m : Mark}
    (h : read mode t = (before ++ m :: after, final)) (hm : m.kind = .code) :
    read .code (unmark after) = (after, final) := by
  induction mode, t using read_induction generalizing before with
  | nil mode => simp [read] at h
  | pair mode c d t kind next hpair ih =>
    rw [read_pair hpair] at h
    obtain ⟨he, rfl⟩ := Prod.mk.inj h
    -- both characters of a pair are hidden, so the character of code comes later
    have hkind := hpair.kind_ne_code
    obtain ⟨more, -, he⟩ := exists_front_of_hidden hkind hm he
    obtain ⟨more, -, he⟩ := exists_front_of_hidden hkind hm he
    exact ih (Prod.ext he rfl)
  | single mode c t halone ih =>
    rw [read_single halone] at h
    obtain ⟨he, rfl⟩ := Prod.mk.inj h
    cases before with
    | cons b more => exact ih (Prod.ext (List.cons.inj he).2 rfl)
    | nil =>
      obtain ⟨rfl, rfl⟩ := List.cons.inj he
      rw [(Mode.single_of_code hm).1, unmark_read]

theorem marks_after_code {t : Text} {before after : List Mark} {m : Mark}
    (h : marks t = before ++ m :: after) (hm : m.kind = .code) :
    marks (unmark after) = after := by
  have hread : read .code t = (before ++ m :: after, finalMode t) := Prod.ext h rfl
  rw [marks, read_after_code hread hm]

theorem finalMode_after_code {t : Text} {before after : List Mark} {m : Mark}
    (h : marks t = before ++ m :: after) (hm : m.kind = .code) :
    finalMode (unmark after) = finalMode t := by
  have hread : read .code t = (before ++ m :: after, finalMode t) := Prod.ext h rfl
  rw [finalMode, read_after_code hread hm]

/-- A character that is read alone before a text is read alone before a front of it. -/
theorem Mode.ReadsAlone.front {mode next : Mode} {c : Char} {t : Text} {front back : List Mark}
    (h : mode.ReadsAlone c t) (hread : (read next t).1 = front ++ back) :
    mode.ReadsAlone c (unmark front) := by
  refine h.of_head fun d hd => ?_
  have ht : t = unmark front ++ unmark back := by rw [← unmark_append, ← hread, unmark_read]
  rw [ht]
  cases front with
  | nil => simp at hd
  | cons m front => simpa using hd

/-- What stands before a character of code is read the same without it, and leaves nothing open
unless the character is the line feed behind a line comment. -/
theorem read_before_code {mode final : Mode} {t : Text} {before after : List Mark} {m : Mark}
    (h : read mode t = (before ++ m :: after, final)) (hm : m.kind = .code) :
    (read mode (unmark before)).1 = before ∧
      (m.char ≠ '\n' → (read mode (unmark before)).2 = .code) := by
  induction mode, t using read_induction generalizing before with
  | nil mode => simp [read] at h
  | pair mode c d t kind next hpair ih =>
    rw [read_pair hpair] at h
    obtain ⟨he, rfl⟩ := Prod.mk.inj h
    have hkind := hpair.kind_ne_code
    obtain ⟨_, rfl, he'⟩ := exists_front_of_hidden hkind hm he
    obtain ⟨more, rfl, hmore⟩ := exists_front_of_hidden hkind hm he'
    obtain ⟨hmarks, hmode⟩ := ih (Prod.ext hmore rfl)
    rw [unmark_cons, unmark_cons, read_pair hpair]
    exact ⟨by rw [hmarks], hmode⟩
  | single mode c t halone ih =>
    rw [read_single halone] at h
    obtain ⟨he, rfl⟩ := Prod.mk.inj h
    cases before with
    | nil =>
      obtain ⟨rfl, -⟩ := List.cons.inj he
      exact ⟨rfl, (Mode.single_of_code hm).2⟩
    | cons b more =>
      obtain ⟨rfl, hmore⟩ := List.cons.inj he
      obtain ⟨hmarks, hmode⟩ := ih (Prod.ext hmore rfl)
      -- a front of the text makes no pair that the text does not make
      rw [unmark_cons, read_single (halone.front hmore)]
      exact ⟨by rw [hmarks], hmode⟩

theorem marks_before_code {t : Text} {before after : List Mark} {m : Mark}
    (h : marks t = before ++ m :: after) (hm : m.kind = .code) :
    marks (unmark before) = before := by
  have hread : read .code t = (before ++ m :: after, finalMode t) := Prod.ext h rfl
  exact (read_before_code hread hm).1

theorem finalMode_before_code {t : Text} {before after : List Mark} {m : Mark}
    (h : marks t = before ++ m :: after) (hm : m.kind = .code) (hn : m.char ≠ '\n') :
    finalMode (unmark before) = .code := by
  have hread : read .code t = (before ++ m :: after, finalMode t) := Prod.ext h rfl
  exact (read_before_code hread hm).2 hn

/-! ## 4. Where a comment begins -/

/-- What the last of some marked characters belongs to; `kind` is that of the character before
them. -/
def lastKind (kind : Kind) (ms : List Mark) : Kind := ms.foldl (fun _ m => m.kind) kind

theorem Kind.ofCode_ne_comment (c : Char) : Kind.ofCode c ≠ .comment := by
  unfold Kind.ofCode
  split <;> decide

def Mode.IsComment (mode : Mode) : Prop := mode = .lineComment ∨ mode = .blockComment

theorem Mode.Pairs.comment {mode next : Mode} {c d : Char} {kind : Kind}
    (h : mode.Pairs c d kind next) :
    (kind = .comment → mode = .code ∨ mode.IsComment) ∧ (next.IsComment → kind = .comment) := by
  cases h <;> simp [Mode.IsComment]

/-- Read alone, only a character inside a comment belongs to one, and none opens one. -/
theorem Mode.single_comment {mode : Mode} {c : Char} :
    ((mode.single c).1 = .comment → mode.IsComment) ∧
      ((mode.single c).2.IsComment → (mode.single c).1 = .comment) := by
  cases mode with
  | code =>
    refine ⟨fun h => absurd h (Kind.ofCode_ne_comment c), fun h => ?_⟩
    simp only [Mode.single, Mode.afterCode, Mode.IsComment] at h
    split at h <;> simp at h
  | literal quote =>
    refine ⟨by simp [Mode.single], fun h => ?_⟩
    simp only [Mode.single, Mode.IsComment] at h
    split at h <;> simp at h
  | lineComment => by_cases hc : c = '\n' <;> simp [Mode.single, Mode.IsComment, hc]
  | blockComment => simp [Mode.single, Mode.IsComment]

theorem cons_cons_eq_append {α : Type} {x y : α} {ms before after : List α}
    (h : x :: y :: ms = before ++ after) :
    (before = [] ∧ after = x :: y :: ms) ∨ (before = [x] ∧ after = y :: ms) ∨
      ∃ more, before = x :: y :: more ∧ ms = more ++ after := by
  rcases List.cons_eq_append_iff.1 h with hnil | ⟨tail, rfl, htail⟩
  · exact .inl hnil
  · rcases List.cons_eq_append_iff.1 htail with ⟨rfl, hafter⟩ | ⟨more, rfl, hms⟩
    · exact .inr (.inl ⟨rfl, hafter⟩)
    · exact .inr (.inr ⟨more, rfl, hms⟩)

/-- A comment begins in code mode: what stands before it is read the same without it, and the
comment with what follows is read the same on its own. -/
theorem read_at_comment {mode final : Mode} {t : Text} {before after : List Mark} {m : Mark}
    {kind : Kind} (h : read mode t = (before ++ m :: after, final)) (hm : m.kind = .comment)
    (hlast : lastKind kind before ≠ .comment) (hkind : mode.IsComment → kind = .comment) :
    read mode (unmark before) = (before, .code) ∧
      read .code (unmark (m :: after)) = (m :: after, final) := by
  induction mode, t using read_induction generalizing before kind with
  | nil mode => simp [read] at h
  | pair mode c d t kind' next hpair ih =>
    rw [read_pair hpair] at h
    obtain ⟨he, rfl⟩ := Prod.mk.inj h
    obtain ⟨hfrom, hto⟩ := hpair.comment
    rcases cons_cons_eq_append he with ⟨rfl, hafter⟩ | ⟨rfl, hafter⟩ | ⟨more, rfl, hms⟩
    · -- the pair opens the comment, since no comment was open
      obtain ⟨rfl, rfl⟩ := List.cons.inj hafter
      obtain rfl : mode = .code := (hfrom hm).resolve_right fun hmode => hlast (hkind hmode)
      rw [unmark_cons, unmark_cons, unmark_read, read_pair hpair]
      exact ⟨rfl, rfl⟩
    · -- both halves of the pair belong to the same
      obtain ⟨rfl, -⟩ := List.cons.inj hafter
      exact absurd hm hlast
    · obtain ⟨hbefore, hafter⟩ := ih (Prod.ext hms rfl) hlast hto
      rw [unmark_cons, unmark_cons, read_pair hpair, hbefore]
      exact ⟨rfl, hafter⟩
  | single mode c t halone ih =>
    rw [read_single halone] at h
    obtain ⟨he, rfl⟩ := Prod.mk.inj h
    obtain ⟨hfrom, hto⟩ := @Mode.single_comment mode c
    rcases List.cons_eq_append_iff.1 he with ⟨rfl, hafter⟩ | ⟨more, rfl, hms⟩
    · obtain ⟨rfl, -⟩ := List.cons.inj hafter
      exact absurd (hkind (hfrom hm)) hlast
    · obtain ⟨hbefore, hafter⟩ := ih (Prod.ext hms rfl) hlast hto
      rw [unmark_cons, read_single (halone.front hms), hbefore]
      exact ⟨rfl, hafter⟩

/-! ## 5. Plain text -/

/-- A character that opens neither a literal nor a comment, whatever follows it. -/
def isPlain (c : Char) : Bool := !isQuote c && c ≠ '/'

theorem ne_slash_of_isPlain {c : Char} (h : isPlain c = true) : c ≠ '/' := by
  rintro rfl
  exact absurd h (by decide)

theorem isPlain_of_holds {p : Char → Bool} (hs : p '\x27' = false) (hd : p '"' = false)
    (ht : p '\x60' = false) (hc : p '/' = false) (c : Char) (h : p c = true) :
    isPlain c = true := by
  -- whatever holds of `c` and not of `d` tells them apart
  have hne (d : Char) (hd : p d = false) : c ≠ d := of_decide_eq_true (Text.ne_of_holds hd c h)
  simp [isPlain, isQuote, hne _ hs, hne _ hd, hne _ ht, hne _ hc]

theorem isPlain_of_isBlank : ∀ c, isBlank c = true → isPlain c = true :=
  isPlain_of_holds (by decide) (by decide) (by decide) (by decide)

theorem ne_commentMark_of_isBlank {c : Char} (h : isBlank c = true) : c ≠ '/' ∧ c ≠ '*' :=
  ⟨ne_slash_of_isPlain (isPlain_of_isBlank c h),
    of_decide_eq_true (Text.ne_of_holds (by decide) c h)⟩

theorem MeetApart.of_blanks {w : Text} (hw : w.all isBlank = true) (a : Text) : MeetApart a w := by
  cases w with
  | nil => exact fun _ => ⟨by simp, by simp⟩
  | cons c w =>
    rw [List.all_cons, Bool.and_eq_true] at hw
    obtain ⟨hslash, hstar⟩ := ne_commentMark_of_isBlank hw.1
    exact .of_head hslash hstar

def codeMark (c : Char) : Mark := ⟨c, .code⟩

@[simp] theorem unmark_map_codeMark (t : Text) : unmark (t.map codeMark) = t := by
  induction t with
  | nil => rfl
  | cons c t ih => simpa [unmark, codeMark] using ih

theorem read_plain_cons {c : Char} (hc : isPlain c = true) (t : Text) :
    read .code (c :: t) = (codeMark c :: marks t, finalMode t) := by
  simp only [isPlain, Bool.and_eq_true, Bool.not_eq_true', ne_eq, decide_eq_true_eq] at hc
  rw [read]
  · simp [Mode.afterCode, Kind.ofCode, hc.1, codeMark, marks, finalMode]
  · intro r h; exact absurd h hc.2
  · intro r h; exact absurd h hc.2

theorem marks_plain_cons {c : Char} (hc : isPlain c = true) (t : Text) :
    marks (c :: t) = codeMark c :: marks t := congrArg Prod.fst (read_plain_cons hc t)

theorem finalMode_plain_cons {c : Char} (hc : isPlain c = true) (t : Text) :
    finalMode (c :: t) = finalMode t := by
  rw [finalMode, read_plain_cons hc]

theorem read_plain {s : Text} (hs : s.all isPlain = true) (t : Text) :
    read .code (s ++ t) = (s.map codeMark ++ marks t, finalMode t) := by
  induction s with
  | nil => rfl
  | cons c s ih =>
    simp only [List.all_cons, Bool.and_eq_true] at hs
    have ih := ih hs.2
    rw [List.cons_append, read_plain_cons hs.1, marks, finalMode, ih]
    rfl

theorem marks_plain_append {s : Text} (hs : s.all isPlain = true) (t : Text) :
    marks (s ++ t) = s.map codeMark ++ marks t := by
  rw [marks, read_plain hs]

theorem finalMode_plain_append {s : Text} (hs : s.all isPlain = true) (t : Text) :
    finalMode (s ++ t) = finalMode t := by
  rw [finalMode, read_plain hs]

theorem marks_append_cons {a : Text} (ha : finalMode a = .code) {c : Char}
    (hc : isPlain c = true) (hb : c ≠ '*') (t : Text) :
    marks (a ++ c :: t) = marks a ++ codeMark c :: marks t := by
  rw [marks_append ha (.of_head (ne_slash_of_isPlain hc) hb), marks_plain_cons hc]

theorem finalMode_append_cons {a : Text} (ha : finalMode a = .code) {c : Char}
    (hc : isPlain c = true) (hb : c ≠ '*') (t : Text) :
    finalMode (a ++ c :: t) = finalMode t := by
  rw [finalMode_append ha (.of_head (ne_slash_of_isPlain hc) hb), finalMode_plain_cons hc]

theorem read_of_code {t : Text} {before after : List Mark} {m : Mark}
    (h : marks t = before ++ m :: after) (hm : m.kind = .code) (hp : isPlain m.char = true) :
    read .code (unmark (m :: after)) = (m :: after, finalMode t) := by
  have hmark : codeMark m.char = m := by
    obtain ⟨c, kind⟩ := m
    obtain rfl : kind = .code := hm
    rfl
  rw [show unmark (m :: after) = m.char :: unmark after from rfl, read_plain_cons hp,
    marks_after_code h hm, finalMode_after_code h hm, hmark]

theorem marks_plain {s : Text} (hs : s.all isPlain = true) : marks s = s.map codeMark := by
  have h := marks_plain_append hs []
  simpa [marks, read] using h

theorem finalMode_plain {s : Text} (hs : s.all isPlain = true) : finalMode s = .code := by
  have h := finalMode_plain_append hs []
  rw [List.append_nil] at h
  rw [h]
  rfl

theorem mode_before_blanks {mode : Mode} {w : Text} (hproper : mode.IsProper)
    (hw : w.all isBlank = true) (h : (read mode w).2 = .code) :
    mode = .code ∨ mode = .lineComment := by
  cases mode with
  | code => exact .inl rfl
  | lineComment => exact .inr rfl
  | literal quote =>
    -- no blank closes a literal
    exfalso
    induction w with
    | nil => exact absurd h (by simp [read])
    | cons c w ih =>
      rw [List.all_cons, Bool.and_eq_true] at hw
      have hquote : c ≠ quote := by
        rintro rfl
        have hplain := isPlain_of_isBlank c hw.1
        rw [isPlain, show isQuote c = true from hproper] at hplain
        exact absurd hplain (by simp)
      have hback : c ≠ '\\' := of_decide_eq_true (Text.ne_of_holds (by decide) c hw.1)
      rw [read] at h
      · exact ih hw.2 (by simpa [hquote] using h)
      · exact fun _ _ hc _ => hback hc
  | blockComment =>
    -- nor a block comment
    exfalso
    induction w with
    | nil => exact absurd h (by simp [read])
    | cons c w ih =>
      rw [List.all_cons, Bool.and_eq_true] at hw
      rw [read] at h
      · exact ih hw.2 (by simpa using h)
      · exact fun _ hc _ => (ne_commentMark_of_isBlank hw.1).2 hc

/-- Blanks at the end of a text do not change how it is read, and close nothing but a line
comment. -/
theorem marks_append_blanks {w : Text} (hw : w.all isBlank = true) (a : Text) :
    ∃ tail, marks (a ++ w) = marks a ++ tail ∧ unmark tail = w ∧
      (finalMode (a ++ w) = .code → finalMode a = .code ∨ finalMode a = .lineComment) := by
  have hproper : (read .code a).2.IsProper := @Mode.isProper_read .code trivial a
  cases w with
  | nil => exact ⟨[], by simp, rfl, by simp +contextual⟩
  | cons c w =>
    have hc : isBlank c = true ∧ w.all isBlank = true := by simpa using hw
    obtain ⟨hslash, hstar⟩ := ne_commentMark_of_isBlank hc.1
    obtain ⟨tail, htail, hfinal⟩ := @read_front .code a c trivial hslash hstar w
    refine ⟨tail, htail, ?_, fun hmode => ?_⟩
    · have htext := congrArg unmark htail
      rw [unmark_read, unmark_append, unmark_read] at htext
      exact (List.append_cancel_left htext).symm
    · rcases hfinal with hfinal | ⟨quote, hquote, hfinal⟩
      · exact mode_before_blanks hproper hw (hfinal ▸ hmode)
      -- an escape at the seam would leave its literal open
      · rw [hquote] at hproper
        exact absurd (mode_before_blanks hproper hc.2 (hfinal ▸ hmode)) (by simp)

theorem cons_eq_concat {α : Type} {x m : α} {l ms : List α} (h : x :: l = ms ++ [m]) :
    (l = [] ∧ m = x) ∨ ∃ ms', l = ms' ++ [m] := by
  cases ms with
  | nil =>
    obtain ⟨rfl, rfl⟩ := List.cons.inj h
    exact .inl ⟨rfl, rfl⟩
  | cons y ms => exact .inr ⟨ms, (List.cons.inj h).2⟩

theorem mode_of_read_nil {mode : Mode} {t : Text} (h : (read mode t).1 = []) :
    (read mode t).2 = mode := by
  have ht : t = [] := by rw [← unmark_read mode t, h]; rfl
  rw [ht, read]

theorem Mode.kind_single_of_plain {mode : Mode} {c : Char} (hproper : mode.IsProper)
    (hcode : (mode.single c).2 = .code) (hc : isPlain c = true) : (mode.single c).1 = .code := by
  simp only [isPlain, Bool.and_eq_true, Bool.not_eq_true'] at hc
  cases mode with
  | code => simp [Mode.single, Kind.ofCode, hc.1]
  | literal quote =>
    -- what ends a literal is its quote
    obtain rfl : c = quote := by simpa [Mode.single] using hcode
    exact absurd (hproper.symm.trans hc.1) (by decide)
  | lineComment => by_cases hn : c = '\n' <;> simp_all [Mode.single]
  | blockComment => exact absurd hcode (by simp [Mode.single])

/-- Where reading ends in code mode, a last character that is plain is code. -/
theorem kind_of_last {mode : Mode} {t : Text} {ms : List Mark} {m : Mark}
    (hproper : mode.IsProper) (h : read mode t = (ms ++ [m], .code))
    (hm : isPlain m.char = true) : m.kind = .code := by
  induction mode, t using read_induction generalizing ms with
  | nil mode => simp [read] at h
  | pair mode c d t kind next hpair ih =>
    rw [read_pair hpair] at h
    obtain ⟨he, hfinal⟩ := Prod.mk.inj h
    rcases cons_eq_concat he with ⟨he, -⟩ | ⟨_, he⟩
    · simp at he
    · rcases cons_eq_concat he with ⟨hnil, rfl⟩ | ⟨_, he⟩
      · -- of the pairs only the end of a block comment leaves nothing open
        obtain rfl : next = .code := (mode_of_read_nil hnil).symm.trans hfinal
        cases hpair with
        | closesBlock => exact absurd hm (by decide)
      · exact ih (Mode.isProper_pair hproper hpair) (Prod.ext he hfinal)
  | single mode c t halone ih =>
    rw [read_single halone] at h
    obtain ⟨he, hfinal⟩ := Prod.mk.inj h
    rcases cons_eq_concat he with ⟨hnil, rfl⟩ | ⟨_, he⟩
    · exact Mode.kind_single_of_plain hproper ((mode_of_read_nil hnil).symm.trans hfinal) hm
    · exact ih (Mode.isProper_single hproper c) (Prod.ext he hfinal)

/-! ## 6. Literals -/

/-- Whether a text can stand between two quotes of one sort: no bare quote in it, and every
backslash with a character after it. -/
def isLiteralBody (quote : Char) : Text → Bool
  | [] => true
  | '\\' :: _ :: rest => isLiteralBody quote rest
  | c :: rest => c ≠ quote && c ≠ '\\' && isLiteralBody quote rest

def literalMark (c : Char) : Mark := ⟨c, .literal⟩

theorem quote_ne_backslash {quote : Char} (h : isQuote quote = true) : quote ≠ '\\' := by
  rintro rfl
  simp [isQuote] at h

theorem read_literalBody {quote : Char} (hq : isQuote quote = true) {inner : Text}
    (h : isLiteralBody quote inner = true) (t : Text) :
    read (.literal quote) (inner ++ quote :: t) =
      (inner.map literalMark ++ literalMark quote :: marks t, finalMode t) := by
  fun_induction isLiteralBody quote inner with
  | case1 =>
    rw [List.nil_append, read]
    · simp [literalMark, marks, finalMode]
    · intro c r hc; exact absurd hc (quote_ne_backslash hq)
  | case2 c rest ih =>
    simp only [List.cons_append, read, ih h]
    rfl
  | case3 c rest hesc ih =>
    simp only [Bool.and_eq_true, ne_eq, decide_eq_true_eq] at h
    rw [List.cons_append, read]
    · simp only [if_neg h.1.1, ih h.2]
      rfl
    · intro d r hc; exact absurd hc h.1.2

/-- A literal is read as a whole, and what follows it from code mode. -/
theorem read_literal {quote : Char} (hq : isQuote quote = true) {inner : Text}
    (h : isLiteralBody quote inner = true) (t : Text) :
    read .code (quote :: inner ++ quote :: t) =
      (literalMark quote :: inner.map literalMark ++ literalMark quote :: marks t,
        finalMode t) := by
  have hs : quote ≠ '/' := by rintro rfl; simp [isQuote] at hq
  rw [List.cons_append, read]
  · simp only [Mode.afterCode, Kind.ofCode, hq, if_true, read_literalBody hq h]
    rfl
  · intro r hc; exact absurd hc hs
  · intro r hc; exact absurd hc hs

theorem marks_literal {quote : Char} (hq : isQuote quote = true) {inner : Text}
    (h : isLiteralBody quote inner = true) (t : Text) :
    marks (quote :: inner ++ quote :: t) =
      literalMark quote :: inner.map literalMark ++ literalMark quote :: marks t := by
  rw [marks, read_literal hq h]

theorem finalMode_literal {quote : Char} (hq : isQuote quote = true) {inner : Text}
    (h : isLiteralBody quote inner = true) (t : Text) :
    finalMode (quote :: inner ++ quote :: t) = finalMode t := by
  rw [finalMode, read_literal hq h]

theorem splitLiteral_append {quote : Char} (hq : isQuote quote = true) {inner : Text}
    (h : isLiteralBody quote inner = true) (tail : Text) :
    splitLiteral quote (inner ++ quote :: tail) = some (inner, tail) := by
  fun_induction isLiteralBody quote inner with
  | case1 =>
    rw [List.nil_append, splitLiteral]
    · simp
    · intro c r hc; exact absurd hc (quote_ne_backslash hq)
  | case2 c rest ih => simp [splitLiteral, ih h]
  | case3 c rest hesc ih =>
    simp only [Bool.and_eq_true, ne_eq, decide_eq_true_eq] at h
    rw [List.cons_append, splitLiteral]
    · simp [h.1.1, ih h.2]
    · intro d r hc; exact absurd hc h.1.2

/-- The contents found between the quotes of a literal, with what follows, give back the text. -/
theorem of_splitLiteral {quote : Char} {t inner tail : Text}
    (h : splitLiteral quote t = some (inner, tail)) :
    t = inner ++ quote :: tail ∧ isLiteralBody quote inner = true := by
  fun_induction splitLiteral quote t generalizing inner tail with
  | case1 => simp at h
  | case2 c rest ih =>
    obtain ⟨⟨i, r⟩, hs, he⟩ := Option.map_eq_some_iff.1 h
    obtain ⟨rfl, rfl⟩ := Prod.mk.inj he
    obtain ⟨rfl, hi⟩ := ih hs
    exact ⟨rfl, hi⟩
  | case3 rest hesc =>
    obtain ⟨rfl, rfl⟩ := Prod.mk.inj (Option.some.inj h)
    exact ⟨rfl, rfl⟩
  | case4 c rest hesc hc ih =>
    obtain ⟨⟨i, r⟩, hs, he⟩ := Option.map_eq_some_iff.1 h
    obtain ⟨rfl, rfl⟩ := Prod.mk.inj he
    obtain ⟨rfl, hi⟩ := ih hs
    refine ⟨rfl, ?_⟩
    -- a backslash would have taken the next character along
    have hb : c ≠ '\\' := by
      rintro rfl
      cases i with
      | nil => exact hesc _ _ rfl rfl
      | cons d i => exact hesc _ _ rfl rfl
    rw [isLiteralBody]
    · simp [hc, hb, hi]
    · intro d r hd; exact absurd hd hb

/-- Whether every character is written so that it stands for itself between two quotes: behind a
backslash, or as it is if it has no meaning there. -/
def Escapes (quote : Char) (escape : Char → Text) : Prop :=
  ∀ c, (∃ d, escape c = ['\\', d] ∧
      (if d = 'n' then '\n' else if d = 't' then '\t' else d) = c) ∨
    (escape c = [c] ∧ c ≠ '\\' ∧ c ≠ quote)

namespace Escapes

variable {quote : Char} {escape : Char → Text}

theorem unescape_flatMap (h : Escapes quote escape) (t : Text) :
    unescape (t.flatMap escape) = t := by
  induction t with
  | nil => rfl
  | cons c t ih =>
    rw [List.flatMap_cons]
    rcases h c with ⟨d, he, hd⟩ | ⟨he, hb, -⟩
    · rw [he]
      simp only [List.cons_append, List.nil_append, unescape, hd, ih]
    · rw [he, List.singleton_append, unescape, ih]
      intro d r hc
      exact absurd hc hb

theorem isLiteralBody_flatMap (h : Escapes quote escape) (t : Text) :
    isLiteralBody quote (t.flatMap escape) = true := by
  induction t with
  | nil => rfl
  | cons c t ih =>
    rw [List.flatMap_cons]
    rcases h c with ⟨d, he, -⟩ | ⟨he, hb, hq⟩
    · rw [he]
      simp only [List.cons_append, List.nil_append, isLiteralBody, ih]
    · rw [he, List.singleton_append, isLiteralBody]
      · simp [hb, hq, ih]
      · intro d r hc
        exact absurd hc hb

end Escapes

theorem not_isLiteralBody_quote {quote : Char} (hq : quote ≠ '\\') (after : Text) :
    isLiteralBody quote (quote :: after) = false := by
  rw [isLiteralBody]
  · simp
  · intro d r h
    exact absurd h hq

/-- Between two quotes a bare quote has a backslash before it. -/
theorem eq_backslash_of_isLiteralBody {quote c : Char} (hq : quote ≠ '\\') {before after : Text}
    (h : isLiteralBody quote (before ++ c :: quote :: after) = true) : c = '\\' := by
  have hbare := not_isLiteralBody_quote hq after
  generalize ht : before ++ c :: quote :: after = t at h
  fun_induction isLiteralBody quote t generalizing before with
  | case1 => simp at ht
  | case2 d rest ih =>
    match before, ht with
    | [], ht => exact (List.cons.inj ht).1
    | [b], ht =>
      -- the backslash covers `c`, so that the quote stands bare
      obtain ⟨-, ht⟩ := List.cons.inj ht
      obtain ⟨-, rfl⟩ := List.cons.inj ht
      rw [hbare] at h
      exact absurd h (by decide)
    | b :: b' :: before, ht =>
      obtain ⟨-, ht⟩ := List.cons.inj ht
      obtain ⟨-, ht⟩ := List.cons.inj ht
      exact ih ht h
  | case3 d rest hesc ih =>
    simp only [Bool.and_eq_true] at h
    cases before with
    | nil =>
      obtain ⟨-, rfl⟩ := List.cons.inj ht
      rw [hbare] at h
      exact absurd h.2 (by decide)
    | cons b before =>
      obtain ⟨-, ht⟩ := List.cons.inj ht
      exact ih ht h.2

end Parlance.Source
