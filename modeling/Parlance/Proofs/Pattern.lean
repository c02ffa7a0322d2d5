import Parlance.Pattern.Search

/-!
What a pattern takes from a text, said without the order of its matches: each pattern has one
equation for the texts that it takes, and a search finds something exactly where one of them
stands.
-/

namespace Parlance

/-! ## 1. Hits move forward -/

theorem Option.or_or_last {s t : Text} {last : Option Char} :
    t.getLast?.or (s.getLast?.or last) = (s ++ t).getLast?.or last := by
  rw [List.getLast?_append, Option.or_assoc]

/-- A hit from a place ends where some characters from the place have been taken. -/
def Hit.From (h : Hit) (p : Point) : Prop :=
  ∃ s, p.rest = s ++ h.stop.rest ∧ h.stop.last = s.getLast?.or p.last

theorem Hit.from_empty (p : Point) : (Hit.empty p).From p := ⟨[], rfl, rfl⟩

theorem Hit.From.after {later earlier : Hit} {p : Point} (hl : later.From earlier.stop)
    (he : earlier.From p) : (later.after earlier).From p := by
  obtain ⟨s, hs, hlast⟩ := he
  obtain ⟨t, ht, hlast'⟩ := hl
  refine ⟨s ++ t, ?_, ?_⟩
  · rw [hs, ht, List.append_assoc]
    rfl
  · rw [← Option.or_or_last, ← hlast, ← hlast']
    rfl

theorem Hit.From.keep {h : Hit} {p : Point} (hf : h.From p) (capture : Capture) (part : Text) :
    (h.keep capture part).From p := by
  obtain ⟨s, hs, hlast⟩ := hf
  cases capture <;> exact ⟨s, hs, hlast⟩

namespace Pattern

/-- The search goes on behind a repetition only if it took something. -/
theorem mem_repeated_succ {once : Point → List Hit} {greedy : Bool} {steps : Nat} {p : Point}
    {h : Hit} :
    h ∈ repeated once greedy (steps + 1) p ↔
      h = .empty p ∨ ∃ h₁ ∈ once p, h₁.stop.rest.length < p.rest.length ∧
        ∃ h₂ ∈ repeated once greedy steps h₁.stop, h₂.after h₁ = h := by
  cases greedy <;> simp only [repeated] <;> simp [and_assoc]
  exact or_comm

theorem from_of_mem_repeated {once : Point → List Hit}
    (honce : ∀ p, ∀ h ∈ once p, h.From p) (greedy : Bool) (steps : Nat) (p : Point) :
    ∀ h ∈ repeated once greedy steps p, h.From p := by
  induction steps generalizing p with
  | zero =>
    intro h hh
    rw [repeated, List.mem_singleton] at hh
    exact hh ▸ Hit.from_empty p
  | succ steps ih =>
    intro h hh
    rcases mem_repeated_succ.1 hh with rfl | ⟨h₁, hh₁, -, h₂, hh₂, rfl⟩
    · exact Hit.from_empty p
    · exact (ih h₁.stop h₂ hh₂).after (honce p h₁ hh₁)

theorem from_of_mem_hits (pattern : Pattern) (p : Point) : ∀ h ∈ pattern.hits p, h.From p := by
  intro h hh
  induction pattern generalizing p h with
  | char accepts =>
    obtain ⟨last, rest⟩ := p
    cases rest with
    | nil => simp [hits] at hh
    | cons c rest =>
      obtain ⟨-, rfl⟩ : accepts c = true ∧ h = .empty ⟨some c, rest⟩ := by simpa [hits] using hh
      exact ⟨[c], rfl, rfl⟩
  | wordEdge | textStart =>
    rw [hits] at hh
    split at hh
    · rw [List.mem_singleton.1 hh]
      exact Hit.from_empty p
    · simp at hh
  | empty =>
    rw [hits, List.mem_singleton] at hh
    exact hh ▸ Hit.from_empty p
  | seq first second ih₁ ih₂ =>
    simp only [hits, List.mem_flatMap, List.mem_map] at hh
    obtain ⟨h₁, hh₁, h₂, hh₂, rfl⟩ := hh
    exact (ih₂ h₁.stop h₂ hh₂).after (ih₁ p h₁ hh₁)
  | alt preferred other ih₁ ih₂ =>
    rw [hits, List.mem_append] at hh
    exact hh.elim (ih₁ p h) (ih₂ p h)
  | many q ih | few q ih =>
    rw [hits] at hh
    exact from_of_mem_repeated ih _ _ p h hh
  | keep capture q ih =>
    simp only [hits, List.mem_map] at hh
    obtain ⟨h₁, hh₁, rfl⟩ := hh
    exact (ih p h₁ hh₁).keep capture _

/-! ## 2. What a pattern takes -/

structure Kept where
  title : Option Text := none
  name : Option Text := none

/-- What a later match keeps, and what an earlier one kept unless it was kept anew. -/
def Kept.after (later earlier : Kept) : Kept :=
  ⟨later.title.or earlier.title, later.name.or earlier.name⟩

/-- The hit that ends behind the text `s`, where `last` was the character before it. -/
def hitBehind (last : Option Char) (s rest : Text) (kept : Kept) : Hit :=
  ⟨⟨s.getLast?.or last, rest⟩, kept.title, kept.name⟩

/-- A pattern takes the text `s` that stands between the character `last` and the text `rest`. -/
def Takes (pattern : Pattern) (last : Option Char) (s rest : Text) (kept : Kept) : Prop :=
  hitBehind last s rest kept ∈ pattern.hits ⟨last, s ++ rest⟩

theorem exists_hitBehind {h : Hit} {last : Option Char} {t : Text} (hf : h.From ⟨last, t⟩) :
    ∃ s, t = s ++ h.stop.rest ∧ h = hitBehind last s h.stop.rest ⟨h.title, h.name⟩ := by
  obtain ⟨s, hs, hlast⟩ := hf
  obtain ⟨⟨l, r⟩, title, name⟩ := h
  obtain rfl : l = s.getLast?.or last := hlast
  exact ⟨s, hs, rfl⟩

/-- Every hit comes from a text that the pattern takes. -/
theorem exists_takes_of_mem_hits {pattern : Pattern} {last : Option Char} {t : Text} {h : Hit}
    (hh : h ∈ pattern.hits ⟨last, t⟩) :
    ∃ s rest kept, t = s ++ rest ∧ pattern.Takes last s rest kept ∧
      h = hitBehind last s rest kept := by
  obtain ⟨s, hs, he⟩ := exists_hitBehind (from_of_mem_hits pattern ⟨last, t⟩ h hh)
  refine ⟨s, h.stop.rest, ⟨h.title, h.name⟩, hs, ?_, he⟩
  rw [Takes, ← he, ← hs]
  exact hh

theorem hitBehind_inj {last : Option Char} {s s' rest rest' : Text} {kept kept' : Kept}
    (ht : s ++ rest = s' ++ rest')
    (h : hitBehind last s rest kept = hitBehind last s' rest' kept') :
    s = s' ∧ rest = rest' ∧ kept = kept' := by
  simp only [hitBehind, Hit.mk.injEq, Point.mk.injEq] at h
  obtain ⟨⟨-, rfl⟩, ht', hn'⟩ := h
  refine ⟨List.append_cancel_right ht, rfl, ?_⟩
  cases kept
  cases kept'
  simp_all

theorem takes_char {accepts : Char → Bool} {last : Option Char} {s rest : Text} {kept : Kept} :
    (char accepts).Takes last s rest kept ↔ ∃ c, s = [c] ∧ accepts c = true ∧ kept = {} := by
  have hcons (c : Char) (t : Text) :
      (char accepts).hits ⟨last, c :: t⟩ =
        if accepts c then [hitBehind last [c] t {}] else [] := rfl
  constructor
  · intro h
    rw [Takes] at h
    generalize ht : s ++ rest = t at h
    cases t with
    | nil => simp [hits] at h
    | cons c t =>
      rw [hcons] at h
      split at h
      · rename_i hc
        obtain ⟨hs, -, hk⟩ := hitBehind_inj (by simp [ht]) (List.mem_singleton.1 h)
        exact ⟨c, hs, hc, hk⟩
      · simp at h
  · rintro ⟨c, rfl, hc, rfl⟩
    rw [Takes, List.singleton_append, hcons, if_pos hc]
    exact List.mem_singleton.2 rfl

/-- A hit that takes nothing keeps nothing. -/
theorem eq_nil_of_mem_empty {last : Option Char} {s rest : Text} {kept : Kept}
    (h : hitBehind last s rest kept ∈ [Hit.empty ⟨last, s ++ rest⟩]) : s = [] ∧ kept = {} := by
  have h : hitBehind last s rest kept = hitBehind last [] (s ++ rest) {} := List.mem_singleton.1 h
  obtain ⟨hs, -, hkept⟩ := hitBehind_inj (by simp) h
  exact ⟨hs, hkept⟩

theorem takes_wordEdge {last : Option Char} {s rest : Text} {kept : Kept} :
    wordEdge.Takes last s rest kept ↔
      s = [] ∧ (Point.mk last rest).isWordEdge = true ∧ kept = {} := by
  constructor
  · intro h
    rw [Takes, hits] at h
    split at h
    · rename_i he
      obtain ⟨rfl, rfl⟩ := eq_nil_of_mem_empty h
      exact ⟨rfl, he, rfl⟩
    · simp at h
  · rintro ⟨rfl, he, rfl⟩
    simp [Takes, hits, he, hitBehind, Hit.empty]

theorem takes_textStart {last : Option Char} {s rest : Text} {kept : Kept} :
    textStart.Takes last s rest kept ↔ s = [] ∧ last = none ∧ kept = {} := by
  constructor
  · intro h
    rw [Takes, hits] at h
    split at h
    · rename_i he
      obtain ⟨rfl, rfl⟩ := eq_nil_of_mem_empty h
      exact ⟨rfl, by simpa using he, rfl⟩
    · simp at h
  · rintro ⟨rfl, rfl, rfl⟩
    simp [Takes, hits, hitBehind, Hit.empty]

theorem takes_empty {last : Option Char} {s rest : Text} {kept : Kept} :
    empty.Takes last s rest kept ↔ s = [] ∧ kept = {} := by
  constructor
  · intro h
    rw [Takes, hits] at h
    exact eq_nil_of_mem_empty h
  · rintro ⟨rfl, rfl⟩
    simp [Takes, hits, hitBehind, Hit.empty]

theorem takes_alt {p q : Pattern} {last : Option Char} {s rest : Text} {kept : Kept} :
    (alt p q).Takes last s rest kept ↔ p.Takes last s rest kept ∨ q.Takes last s rest kept := by
  simp only [Takes, hits, List.mem_append]

theorem hitBehind_after {last : Option Char} {s₁ s₂ rest : Text} {kept₁ kept₂ : Kept} :
    (hitBehind (s₁.getLast?.or last) s₂ rest kept₂).after (hitBehind last s₁ (s₂ ++ rest) kept₁) =
      hitBehind last (s₁ ++ s₂) rest (kept₂.after kept₁) := by
  simp only [Hit.after, hitBehind, Kept.after, Option.or_or_last]

theorem takes_seq {p q : Pattern} {last : Option Char} {s rest : Text} {kept : Kept} :
    (seq p q).Takes last s rest kept ↔
      ∃ s₁ s₂ kept₁ kept₂, s = s₁ ++ s₂ ∧ p.Takes last s₁ (s₂ ++ rest) kept₁ ∧
        q.Takes (s₁.getLast?.or last) s₂ rest kept₂ ∧ kept = kept₂.after kept₁ := by
  constructor
  · intro h
    simp only [Takes, hits, List.mem_flatMap, List.mem_map] at h
    obtain ⟨h₁, hh₁, h₂, hh₂, he⟩ := h
    obtain ⟨s₁, t₁, kept₁, ht₁, htakes₁, rfl⟩ := exists_takes_of_mem_hits hh₁
    obtain ⟨s₂, rest₂, kept₂, rfl, htakes₂, rfl⟩ := exists_takes_of_mem_hits hh₂
    rw [hitBehind_after] at he
    obtain ⟨rfl, rfl, rfl⟩ := hitBehind_inj (by simp [ht₁]) he.symm
    exact ⟨s₁, s₂, kept₁, kept₂, rfl, htakes₁, htakes₂, rfl⟩
  · rintro ⟨s₁, s₂, kept₁, kept₂, rfl, h₁, h₂, rfl⟩
    simp only [Takes, hits, List.mem_flatMap, List.mem_map]
    refine ⟨_, ?_, _, h₂, hitBehind_after⟩
    rw [List.append_assoc]
    exact h₁

theorem upTo_behind {last last' : Option Char} {s rest : Text} :
    Point.upTo ⟨last, s ++ rest⟩ ⟨last', rest⟩ = s := by
  simp [Point.upTo]

def Kept.add (kept : Kept) (capture : Capture) (s : Text) : Kept :=
  match capture with
  | .title => { kept with title := some s }
  | .name => { kept with name := some s }

theorem takes_keep {capture : Capture} {q : Pattern} {last : Option Char} {s rest : Text}
    {kept : Kept} :
    (keep capture q).Takes last s rest kept ↔
      ∃ kept', q.Takes last s rest kept' ∧ kept = kept'.add capture s := by
  have hkeep (s rest : Text) (kept : Kept) :
      (hitBehind last s rest kept).keep capture
        (Point.upTo ⟨last, s ++ rest⟩ (hitBehind last s rest kept).stop) =
        hitBehind last s rest (kept.add capture s) := by
    rw [hitBehind, upTo_behind]
    cases capture <;> rfl
  constructor
  · intro h
    simp only [Takes, hits, List.mem_map] at h
    obtain ⟨h₁, hh₁, he⟩ := h
    obtain ⟨s', rest', kept', ht, htakes, rfl⟩ := exists_takes_of_mem_hits hh₁
    rw [ht, hkeep] at he
    obtain ⟨rfl, rfl, rfl⟩ := hitBehind_inj ht he.symm
    exact ⟨kept', htakes, rfl⟩
  · rintro ⟨kept', h, rfl⟩
    simp only [Takes, hits, List.mem_map]
    exact ⟨_, h, hkeep s rest kept'⟩

/-! ## 3. Repetitions -/

theorem mem_repeated_at_end {once : Point → List Hit} {greedy : Bool} {steps : Nat} {p : Point}
    {h : Hit} (hp : p.rest.length = 0) : h ∈ repeated once greedy steps p ↔ h = .empty p := by
  cases steps with
  | zero => simp [repeated]
  | succ steps => simp [mem_repeated_succ, hp]

/-- A bound on the number of repetitions that is as large as what is left of the text is none. -/
theorem mem_repeated_steps {once : Point → List Hit} {greedy : Bool} {m n : Nat} {p : Point}
    {h : Hit} (hm : p.rest.length ≤ m) (hn : p.rest.length ≤ n) :
    h ∈ repeated once greedy m p ↔ h ∈ repeated once greedy n p := by
  induction m generalizing n p h with
  | zero => rw [mem_repeated_at_end (by omega), mem_repeated_at_end (by omega)]
  | succ m ih =>
    cases n with
    | zero => rw [mem_repeated_at_end (by omega), mem_repeated_at_end (by omega)]
    | succ n =>
      rw [mem_repeated_succ, mem_repeated_succ]
      -- one repetition uses up some of the text, so what is left fits one bound less
      have hnext (h₁ : Hit) (hlt : h₁.stop.rest.length < p.rest.length) (h₂ : Hit) :
          h₂ ∈ repeated once greedy m h₁.stop ↔ h₂ ∈ repeated once greedy n h₁.stop :=
        ih (by omega) (by omega)
      constructor
      · rintro (h | ⟨h₁, hh₁, hlt, h₂, hh₂, he⟩)
        · exact .inl h
        · exact .inr ⟨h₁, hh₁, hlt, h₂, (hnext h₁ hlt h₂).1 hh₂, he⟩
      · rintro (h | ⟨h₁, hh₁, hlt, h₂, hh₂, he⟩)
        · exact .inl h
        · exact .inr ⟨h₁, hh₁, hlt, h₂, (hnext h₁ hlt h₂).2 hh₂, he⟩

/-- Repetitions of a pattern take the text `s`. -/
def TakesRepeated (pattern : Pattern) (greedy : Bool) (last : Option Char) (s rest : Text)
    (kept : Kept) : Prop :=
  hitBehind last s rest kept ∈ repeated pattern.hits greedy (s ++ rest).length ⟨last, s ++ rest⟩

theorem takes_many {q : Pattern} {last : Option Char} {s rest : Text} {kept : Kept} :
    (many q).Takes last s rest kept ↔ q.TakesRepeated true last s rest kept := Iff.rfl

theorem takes_few {q : Pattern} {last : Option Char} {s rest : Text} {kept : Kept} :
    (few q).Takes last s rest kept ↔ q.TakesRepeated false last s rest kept := Iff.rfl

/-- Repetitions take nothing, or one repetition that is not empty and then further ones. -/
theorem takesRepeated_iff {q : Pattern} {greedy : Bool} {last : Option Char} {s rest : Text}
    {kept : Kept} :
    q.TakesRepeated greedy last s rest kept ↔
      (s = [] ∧ kept = {}) ∨
        ∃ s₁ s₂ kept₁ kept₂, s₁ ≠ [] ∧ s = s₁ ++ s₂ ∧ q.Takes last s₁ (s₂ ++ rest) kept₁ ∧
          q.TakesRepeated greedy (s₁.getLast?.or last) s₂ rest kept₂ ∧
          kept = kept₂.after kept₁ := by
  have hsteps (h : Hit) :
      h ∈ repeated q.hits greedy (s ++ rest).length ⟨last, s ++ rest⟩ ↔
        h ∈ repeated q.hits greedy ((s ++ rest).length + 1) ⟨last, s ++ rest⟩ :=
    mem_repeated_steps (Nat.le_refl _) (Nat.le_succ _)
  rw [TakesRepeated, hsteps, mem_repeated_succ]
  constructor
  · rintro (he | ⟨h₁, hh₁, hlt, h₂, hh₂, he⟩)
    · have he : hitBehind last s rest kept = hitBehind last [] (s ++ rest) {} := he
      obtain ⟨rfl, -, rfl⟩ := hitBehind_inj (by simp) he
      exact .inl ⟨rfl, rfl⟩
    · obtain ⟨s₁, t₁, kept₁, ht₁, htakes₁, rfl⟩ := exists_takes_of_mem_hits hh₁
      have hfrom := from_of_mem_repeated (from_of_mem_hits q) greedy _ _ h₂ hh₂
      obtain ⟨s₂, hs₂, hk⟩ := exists_hitBehind hfrom
      simp only [hitBehind] at hlt hh₂
      rw [hk, hs₂, hitBehind_after] at he
      obtain ⟨rfl, rfl, rfl⟩ := hitBehind_inj (by simp [ht₁, hs₂]) he.symm
      rw [hs₂] at htakes₁ hh₂ hlt ht₁
      refine .inr ⟨s₁, s₂, kept₁, _, ?_, rfl, htakes₁, ?_, rfl⟩
      -- it moved the point, so it is not empty
      · rintro rfl
        simp at hlt
      · rw [TakesRepeated, ← hk]
        exact (mem_repeated_steps (by simp) (by simp)).1 hh₂
  · rintro (⟨rfl, rfl⟩ | ⟨s₁, s₂, kept₁, kept₂, hne, rfl, h₁, h₂, rfl⟩)
    · exact .inl rfl
    · refine .inr ⟨_, ?_, ?_, _, ?_, hitBehind_after⟩
      · rw [List.append_assoc]
        exact h₁
      · have hpos := List.length_pos_iff.2 hne
        simp only [hitBehind, List.length_append]
        omega
      · exact (mem_repeated_steps (by simp [hitBehind]) (by simp [hitBehind])).1 h₂

theorem takesRepeated_char {accepts : Char → Bool} {greedy : Bool} {last : Option Char}
    {s rest : Text} {kept : Kept} :
    (char accepts).TakesRepeated greedy last s rest kept ↔
      s.all accepts = true ∧ kept = {} := by
  induction s generalizing last kept with
  | nil =>
    rw [takesRepeated_iff]
    constructor
    · rintro (⟨-, hk⟩ | ⟨s₁, s₂, _, _, hne, hs, -⟩)
      · exact ⟨rfl, hk⟩
      · exact absurd (List.append_eq_nil_iff.1 hs.symm).1 hne
    · rintro ⟨-, hk⟩
      exact .inl ⟨rfl, hk⟩
  | cons c s ih =>
    rw [takesRepeated_iff]
    constructor
    · rintro (⟨hs, -⟩ | ⟨s₁, s₂, kept₁, kept₂, -, hs, h₁, h₂, rfl⟩)
      · simp at hs
      · obtain ⟨d, rfl, hd, rfl⟩ := takes_char.1 h₁
        obtain ⟨rfl, rfl⟩ := List.cons.inj hs
        obtain ⟨hall, rfl⟩ := ih.1 h₂
        exact ⟨by simp [hd, hall], rfl⟩
    · rintro ⟨hall, rfl⟩
      simp only [List.all_cons, Bool.and_eq_true] at hall
      exact .inr ⟨[c], s, {}, {}, by simp, rfl, takes_char.2 ⟨c, rfl, hall.1, rfl⟩,
        ih.2 ⟨hall.2, rfl⟩, rfl⟩

/-! ## 4. Common patterns -/

section Common

variable {last : Option Char} {s rest : Text} {kept : Kept}

theorem takes_append {p q : Pattern} :
    (p ++ q).Takes last s rest kept ↔
      ∃ s₁ s₂ kept₁ kept₂, s = s₁ ++ s₂ ∧ p.Takes last s₁ (s₂ ++ rest) kept₁ ∧
        q.Takes (s₁.getLast?.or last) s₂ rest kept₂ ∧ kept = kept₂.after kept₁ :=
  takes_seq

theorem takes_orElse {p q : Pattern} :
    (p <|> q).Takes last s rest kept ↔ p.Takes last s rest kept ∨ q.Takes last s rest kept :=
  takes_alt

theorem takes_optional {q : Pattern} :
    (optional q).Takes last s rest kept ↔
      q.Takes last s rest kept ∨ (s = [] ∧ kept = {}) := by
  rw [optional, takes_alt, takes_empty]

theorem takes_one {c : Char} : (one c).Takes last s rest kept ↔ s = [c] ∧ kept = {} := by
  rw [one, takes_char]
  constructor
  · rintro ⟨d, rfl, hd, rfl⟩
    exact ⟨by rw [of_decide_eq_true hd], rfl⟩
  · rintro ⟨rfl, rfl⟩
    exact ⟨c, rfl, decide_eq_true rfl, rfl⟩

theorem takes_word {w : Text} : (word w).Takes last s rest kept ↔ s = w ∧ kept = {} := by
  induction w generalizing last s kept with
  | nil => exact takes_empty
  | cons c w ih =>
    rw [show word (c :: w) = seq (one c) (word w) from rfl, takes_seq]
    constructor
    · rintro ⟨s₁, s₂, kept₁, kept₂, rfl, h₁, h₂, rfl⟩
      obtain ⟨rfl, rfl⟩ := takes_one.1 h₁
      obtain ⟨rfl, rfl⟩ := ih.1 h₂
      exact ⟨rfl, rfl⟩
    · rintro ⟨rfl, rfl⟩
      exact ⟨[c], w, {}, {}, rfl, takes_one.2 ⟨rfl, rfl⟩, ih.2 ⟨rfl, rfl⟩, rfl⟩

theorem takes_words {ts : List Text} :
    (words ts).Takes last s rest kept ↔ s ∈ ts ∧ kept = {} := by
  rw [words]
  induction ts with
  | nil =>
    show (char fun _ => false).Takes last s rest kept ↔ _
    simp [takes_char]
  | cons t ts ih =>
    cases ts with
    | nil =>
      show (word t).Takes last s rest kept ↔ _
      rw [takes_word, List.mem_singleton]
    | cons u ts =>
      show (alt (word t) (anyOf ((u :: ts).map word))).Takes last s rest kept ↔ _
      rw [takes_alt, takes_word, ih, List.mem_cons (b := t), or_and_right]

theorem takes_many_char {accepts : Char → Bool} :
    (many (char accepts)).Takes last s rest kept ↔ s.all accepts = true ∧ kept = {} :=
  takes_many.trans takesRepeated_char

theorem takes_few_char {accepts : Char → Bool} :
    (few (char accepts)).Takes last s rest kept ↔ s.all accepts = true ∧ kept = {} :=
  takes_few.trans takesRepeated_char

theorem takes_blanks : blanks.Takes last s rest kept ↔ s.all isBlank = true ∧ kept = {} :=
  takes_many_char

theorem takes_many1_char {accepts : Char → Bool} :
    (many1 (char accepts)).Takes last s rest kept ↔
      s ≠ [] ∧ s.all accepts = true ∧ kept = {} := by
  rw [many1, takes_seq]
  constructor
  · rintro ⟨s₁, s₂, kept₁, kept₂, rfl, h₁, h₂, rfl⟩
    obtain ⟨c, rfl, hc, rfl⟩ := takes_char.1 h₁
    obtain ⟨hs, rfl⟩ := takes_many_char.1 h₂
    exact ⟨by simp, by simp [hc, hs], rfl⟩
  · rintro ⟨hne, hs, rfl⟩
    cases s with
    | nil => exact absurd rfl hne
    | cons c s =>
      simp only [List.all_cons, Bool.and_eq_true] at hs
      exact ⟨[c], s, {}, {}, rfl, takes_char.2 ⟨c, rfl, hs.1, rfl⟩,
        takes_many_char.2 ⟨hs.2, rfl⟩, rfl⟩

theorem takes_append_one {p : Pattern} {c : Char} :
    (p ++ one c).Takes last s rest kept ↔
      ∃ s₁, s = s₁ ++ [c] ∧ p.Takes last s₁ (c :: rest) kept := by
  rw [takes_append]
  constructor
  · rintro ⟨s₁, s₂, kept₁, kept₂, rfl, h₁, h₂, rfl⟩
    obtain ⟨rfl, rfl⟩ := takes_one.1 h₂
    exact ⟨s₁, rfl, h₁⟩
  · rintro ⟨s₁, rfl, h⟩
    exact ⟨s₁, [c], kept, {}, rfl, h, takes_one.2 ⟨rfl, rfl⟩, rfl⟩

theorem takes_append_blanks {p : Pattern} :
    (p ++ blanks).Takes last s rest kept ↔
      ∃ s₁ b, s = s₁ ++ b ∧ b.all isBlank = true ∧ p.Takes last s₁ (b ++ rest) kept := by
  rw [takes_append]
  constructor
  · rintro ⟨s₁, b, kept₁, kept₂, rfl, h₁, h₂, rfl⟩
    obtain ⟨hb, rfl⟩ := takes_blanks.1 h₂
    exact ⟨s₁, b, rfl, hb, h₁⟩
  · rintro ⟨s₁, b, rfl, hb, h⟩
    exact ⟨s₁, b, kept, {}, rfl, h, takes_blanks.2 ⟨hb, rfl⟩, rfl⟩

end Common

/-! ## 5. What a match is made of -/

/-- What repetitions take is nothing, or something of the pattern before further repetitions. -/
theorem TakesRepeated.induct {q : Pattern} {motive : Text → Kept → Prop} (hnil : motive [] {})
    (hcons : ∀ last s₁ s₂ rest kept₁ kept₂, q.Takes last s₁ rest kept₁ → motive s₂ kept₂ →
      motive (s₁ ++ s₂) (kept₂.after kept₁))
    {greedy : Bool} {last : Option Char} {s rest : Text} {kept : Kept}
    (h : q.TakesRepeated greedy last s rest kept) : motive s kept := by
  induction hn : s.length using Nat.strongRecOn generalizing s last kept with
  | ind n ih =>
    rcases takesRepeated_iff.1 h with ⟨rfl, rfl⟩ | ⟨s₁, s₂, kept₁, kept₂, hne, rfl, h₁, h₂, rfl⟩
    · exact hnil
    · have hpos := List.length_pos_iff.2 hne
      rw [List.length_append] at hn
      exact hcons _ s₁ s₂ _ kept₁ kept₂ h₁ (ih s₂.length (by omega) h₂ rfl)

def keepsNothing : Pattern → Bool
  | .keep _ _ => false
  | .seq p q | .alt p q => p.keepsNothing && q.keepsNothing
  | .many q | .few q => q.keepsNothing
  | _ => true

theorem Takes.kept_eq {pattern : Pattern} (hp : pattern.keepsNothing = true)
    {last : Option Char} {s rest : Text} {kept : Kept}
    (h : pattern.Takes last s rest kept) : kept = {} := by
  induction pattern generalizing last s rest kept with
  | char accepts =>
    obtain ⟨-, -, -, hk⟩ := takes_char.1 h
    exact hk
  | wordEdge => exact (takes_wordEdge.1 h).2.2
  | textStart => exact (takes_textStart.1 h).2.2
  | empty => exact (takes_empty.1 h).2
  | seq p q ihp ihq =>
    simp only [keepsNothing, Bool.and_eq_true] at hp
    obtain ⟨s₁, s₂, kept₁, kept₂, -, h₁, h₂, rfl⟩ := takes_seq.1 h
    rw [ihp hp.1 h₁, ihq hp.2 h₂]
    rfl
  | alt p q ihp ihq =>
    simp only [keepsNothing, Bool.and_eq_true] at hp
    exact (takes_alt.1 h).elim (ihp hp.1) (ihq hp.2)
  | many q ih | few q ih =>
    refine @TakesRepeated.induct q (fun _ kept => kept = {}) rfl ?_ _ _ _ _ _ h
    intro _ _ _ _ kept₁ kept₂ h₁ h₂
    rw [ih hp h₁, h₂]
    rfl
  | keep => exact absurd hp (by simp [keepsNothing])

/-- All characters that a pattern can take are of a class. -/
def Within (p : Char → Bool) : Pattern → Prop
  | .char accepts => ∀ c, accepts c = true → p c = true
  | .seq q r | .alt q r => q.Within p ∧ r.Within p
  | .many q | .few q | .keep _ q => q.Within p
  | _ => True

theorem Takes.all {p : Char → Bool} {pattern : Pattern} (hp : pattern.Within p)
    {last : Option Char} {s rest : Text} {kept : Kept}
    (h : pattern.Takes last s rest kept) : s.all p = true := by
  induction pattern generalizing last s rest kept with
  | char accepts =>
    obtain ⟨c, rfl, hc, -⟩ := takes_char.1 h
    simpa using hp c hc
  | wordEdge =>
    obtain ⟨rfl, -⟩ := takes_wordEdge.1 h
    rfl
  | textStart =>
    obtain ⟨rfl, -⟩ := takes_textStart.1 h
    rfl
  | empty =>
    obtain ⟨rfl, -⟩ := takes_empty.1 h
    rfl
  | seq q r ihq ihr =>
    obtain ⟨s₁, s₂, _, _, rfl, h₁, h₂, -⟩ := takes_seq.1 h
    rw [List.all_append, ihq hp.1 h₁, ihr hp.2 h₂]
    rfl
  | alt q r ihq ihr => exact (takes_alt.1 h).elim (ihq hp.1) (ihr hp.2)
  | many q ih | few q ih =>
    refine @TakesRepeated.induct q (fun s _ => s.all p = true) rfl ?_ _ _ _ _ _ h
    intro _ s₁ s₂ _ _ _ h₁ h₂
    rw [List.all_append, ih hp h₁, h₂]
    rfl
  | keep capture q ih =>
    obtain ⟨_, h, -⟩ := takes_keep.1 h
    exact ih hp h

section Within

variable {p : Char → Bool}

theorem within_append {q r : Pattern} : (q ++ r).Within p ↔ q.Within p ∧ r.Within p := Iff.rfl

theorem within_orElse {q r : Pattern} : (q <|> r).Within p ↔ q.Within p ∧ r.Within p := Iff.rfl

theorem within_optional {q : Pattern} : (optional q).Within p ↔ q.Within p := and_iff_left trivial

theorem within_one {c : Char} : (one c).Within p ↔ p c = true := by
  simp [one, Within]

theorem within_oneOf {cs : Text} : (oneOf cs).Within p ↔ cs.all p = true := by
  simp [oneOf, Within]

theorem within_word {w : Text} : (word w).Within p ↔ w.all p = true := by
  induction w with
  | nil => exact ⟨fun _ => rfl, fun _ => trivial⟩
  | cons c w ih =>
    rw [show word (c :: w) = one c ++ word w from rfl, within_append, within_one, ih,
      List.all_cons, Bool.and_eq_true]

theorem within_words {ts : List Text} : (words ts).Within p ↔ ∀ t ∈ ts, t.all p = true := by
  rw [words]
  induction ts with
  | nil => simp [anyOf, Within]
  | cons t ts ih =>
    cases ts with
    | nil =>
      show (word t).Within p ↔ _
      rw [within_word]
      simp
    | cons u ts =>
      show (word t).Within p ∧ (anyOf ((u :: ts).map word)).Within p ↔ _
      rw [within_word, ih]
      simp

end Within

/-! ## 6. The surroundings of a match -/

/-- Whether a pattern does not ask for the start of the whole text. -/
def isUnanchored : Pattern → Bool
  | .textStart => false
  | .seq p q | .alt p q => p.isUnanchored && q.isUnanchored
  | .many q | .few q | .keep _ q => q.isUnanchored
  | _ => true

def startsWord (t : Text) : Bool := t.head?.any isWord

theorem startsWord_append {s t t' : Text} (h : startsWord t = startsWord t') :
    startsWord (s ++ t) = startsWord (s ++ t') := by
  cases s with
  | nil => exact h
  | cons c s => rfl

theorem any_isWord_last {s : Text} {last last' : Option Char}
    (h : last.any isWord = last'.any isWord) :
    (s.getLast?.or last).any isWord = (s.getLast?.or last').any isWord := by
  cases s.getLast? with
  | none => exact h
  | some c => rfl

theorem TakesRepeated.congr {q : Pattern} {greedy : Bool}
    (hq : ∀ {last last' : Option Char} {s rest rest' : Text} {kept : Kept},
      last.any isWord = last'.any isWord → startsWord rest = startsWord rest' →
        q.Takes last s rest kept → q.Takes last' s rest' kept)
    {last last' : Option Char} {s rest rest' : Text} {kept : Kept}
    (hlast : last.any isWord = last'.any isWord) (hrest : startsWord rest = startsWord rest')
    (h : q.TakesRepeated greedy last s rest kept) :
    q.TakesRepeated greedy last' s rest' kept := by
  induction hn : s.length using Nat.strongRecOn generalizing s last last' kept with
  | ind n ih =>
    rw [takesRepeated_iff] at h ⊢
    rcases h with h | ⟨s₁, s₂, kept₁, kept₂, hne, rfl, h₁, h₂, rfl⟩
    · exact .inl h
    · have hpos := List.length_pos_iff.2 hne
      rw [List.length_append] at hn
      exact .inr ⟨s₁, s₂, kept₁, kept₂, hne, rfl, hq hlast (startsWord_append hrest) h₁,
        ih s₂.length (by omega) (any_isWord_last hlast) h₂ rfl, rfl⟩

/-- Around the text that it takes, an unanchored pattern sees only whether words go on there. -/
theorem Takes.congr {pattern : Pattern} (hp : pattern.isUnanchored = true)
    {last last' : Option Char} {s rest rest' : Text} {kept : Kept}
    (hlast : last.any isWord = last'.any isWord) (hrest : startsWord rest = startsWord rest')
    (h : pattern.Takes last s rest kept) : pattern.Takes last' s rest' kept := by
  induction pattern generalizing last last' s rest rest' kept with
  | char accepts => exact takes_char.2 (takes_char.1 h)
  | wordEdge =>
    -- the only case that looks at the surroundings
    obtain ⟨hs, he, hk⟩ := takes_wordEdge.1 h
    refine takes_wordEdge.2 ⟨hs, ?_, hk⟩
    rw [Point.isWordEdge] at he ⊢
    rw [← hlast]
    exact (congrArg (last.any isWord != ·) hrest).symm.trans he
  | textStart => exact absurd hp (by decide)
  | empty => exact takes_empty.2 (takes_empty.1 h)
  | seq p q ihp ihq =>
    simp only [isUnanchored, Bool.and_eq_true] at hp
    obtain ⟨s₁, s₂, kept₁, kept₂, hs, h₁, h₂, hk⟩ := takes_seq.1 h
    exact takes_seq.2 ⟨s₁, s₂, kept₁, kept₂, hs, ihp hp.1 hlast (startsWord_append hrest) h₁,
      ihq hp.2 (any_isWord_last hlast) hrest h₂, hk⟩
  | alt p q ihp ihq =>
    simp only [isUnanchored, Bool.and_eq_true] at hp
    rcases takes_alt.1 h with h | h
    · exact takes_alt.2 (.inl (ihp hp.1 hlast hrest h))
    · exact takes_alt.2 (.inr (ihq hp.2 hlast hrest h))
  | many q ih => exact takes_many.2 (.congr (ih hp) hlast hrest (takes_many.1 h))
  | few q ih => exact takes_few.2 (.congr (ih hp) hlast hrest (takes_few.1 h))
  | keep capture q ih =>
    obtain ⟨kept', h, hk⟩ := takes_keep.1 h
    exact takes_keep.2 ⟨kept', ih hp hlast hrest h, hk⟩

/-- What is taken before nothing and before a word is taken before anything. -/
theorem Takes.before_any {p : Pattern} (hp : p.isUnanchored = true) {last : Option Char}
    {s : Text} {kept : Kept} (h : p.Takes last s [] kept) (h' : p.Takes last s ['a'] kept)
    (rest : Text) : p.Takes last s rest kept := by
  cases hw : startsWord rest with
  | false => exact h.congr hp rfl (Eq.trans (by decide) hw.symm)
  | true => exact h'.congr hp rfl (Eq.trans (by decide) hw.symm)

/-! ## 7. Hits and searches -/

theorem hit?_isSome {pattern : Pattern} {last : Option Char} {t : Text} :
    (pattern.hit? ⟨last, t⟩).isSome = true ↔
      ∃ s rest kept, t = s ++ rest ∧ pattern.Takes last s rest kept := by
  rw [hit?, List.isSome_head?]
  constructor
  · intro hne
    obtain ⟨h, hh⟩ := List.exists_mem_of_ne_nil _ hne
    obtain ⟨s, rest, kept, ht, htakes, -⟩ := exists_takes_of_mem_hits hh
    exact ⟨s, rest, kept, ht, htakes⟩
  · rintro ⟨s, rest, kept, rfl, htakes⟩
    exact List.ne_nil_of_mem htakes

theorem exists_takes_of_hit? {pattern : Pattern} {last : Option Char} {t : Text} {h : Hit}
    (hh : pattern.hit? ⟨last, t⟩ = some h) :
    ∃ s rest kept, t = s ++ rest ∧ pattern.Takes last s rest kept ∧
      h = hitBehind last s rest kept :=
  exists_takes_of_mem_hits (List.mem_of_mem_head? hh)

/-- A pattern takes at most one text at a place. -/
def IsUnambiguous (p : Pattern) : Prop :=
  ∀ {last : Option Char} {s s' rest rest' : Text} {kept kept' : Kept}, s ++ rest = s' ++ rest' →
    p.Takes last s rest kept → p.Takes last s' rest' kept' → s = s'

theorem occursFrom_iff {pattern : Pattern} {last : Option Char} {t : Text} :
    pattern.occursFrom last t = true ↔
      ∃ before s rest kept, t = before ++ s ++ rest ∧
        pattern.Takes (before.getLast?.or last) s rest kept := by
  induction t generalizing last with
  | nil =>
    rw [occursFrom, hit?_isSome]
    constructor
    · rintro ⟨s, rest, kept, ht, h⟩
      exact ⟨[], s, rest, kept, ht, h⟩
    · rintro ⟨before, s, rest, kept, ht, h⟩
      obtain ⟨hb, rfl⟩ := List.append_eq_nil_iff.1 ht.symm
      obtain ⟨rfl, rfl⟩ := List.append_eq_nil_iff.1 hb
      exact ⟨[], [], kept, rfl, h⟩
  | cons c t ih =>
    rw [occursFrom, Bool.or_eq_true, hit?_isSome, ih]
    constructor
    · rintro (⟨s, rest, kept, ht, h⟩ | ⟨before, s, rest, kept, rfl, h⟩)
      · exact ⟨[], s, rest, kept, ht, h⟩
      · refine ⟨c :: before, s, rest, kept, rfl, ?_⟩
        rw [show c :: before = [c] ++ before from rfl, ← Option.or_or_last]
        exact h
    · rintro ⟨before, s, rest, kept, ht, h⟩
      cases before with
      | nil => exact .inl ⟨s, rest, kept, ht, h⟩
      | cons d before =>
        obtain ⟨rfl, rfl⟩ := List.cons.inj ht
        rw [show c :: before = [c] ++ before from rfl, ← Option.or_or_last] at h
        exact .inr ⟨before, s, rest, kept, rfl, h⟩

/-- A pattern occurs in a text exactly if it takes some part of the text. -/
theorem occursIn_iff {pattern : Pattern} {t : Text} :
    pattern.occursIn t = true ↔
      ∃ before s rest kept, t = before ++ s ++ rest ∧
        pattern.Takes before.getLast? s rest kept := by
  rw [occursIn, occursFrom_iff]
  simp only [Option.or_none]

end Pattern

end Parlance
