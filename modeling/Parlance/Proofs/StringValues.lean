import Parlance.Proofs.Arguments
import Parlance.Toml.Scalar

/-!
The strings that literals denote. A literal with single or double quotes denotes a sequence of
UTF-16 code units, by all the escapes of the language. Written in another style it denotes the same
string exactly if each of its escapes is one that undoing them knows: one of a line feed, of a tab,
or of a character that stands for itself.
-/

namespace Parlance

namespace Source

/-! ## 1. Code units -/

/-- The UTF-16 code units of a code point. -/
def pointUnits (n : Nat) : List Nat :=
  if n < 0x10000 then [n] else [0xD800 + (n - 0x10000) / 0x400, 0xDC00 + (n - 0x10000) % 0x400]

def units (t : Text) : List Nat := t.flatMap fun c => pointUnits c.toNat

theorem length_pointUnits (n : Nat) :
    1 ≤ (pointUnits n).length ∧ (pointUnits n).length ≤ 2 := by
  unfold pointUnits
  split <;> simp

@[simp] theorem units_nil : units [] = [] := rfl

@[simp] theorem units_cons (c : Char) (t : Text) :
    units (c :: t) = pointUnits c.toNat ++ units t := rfl

@[simp] theorem units_append (s t : Text) : units (s ++ t) = units s ++ units t :=
  List.flatMap_append

theorem length_le_units (t : Text) : t.length ≤ (units t).length := by
  induction t with
  | nil => exact Nat.le_refl 0
  | cons c t ih =>
    have hc := (length_pointUnits c.toNat).1
    rw [units_cons, List.length_append, List.length_cons]
    omega

/-! ## 2. Escapes -/

/-- Whether a character ends a line. -/
def isLineEnd (c : Char) : Bool := c = '\n' || c = '\r' || c = '\u2028' || c = '\u2029'

/-- The code unit of the control character that is written by a letter or a zero. -/
def controlUnit? : Char → Option Nat
  | 'n' => some 10
  | 't' => some 9
  | 'r' => some 13
  | 'b' => some 8
  | 'f' => some 12
  | 'v' => some 11
  | '0' => some 0
  | _ => none

def hexNumber? (digits : Text) : Option Nat :=
  if !digits.isEmpty && digits.all Toml.isHexDigit then some (Toml.runValue 16 digits) else none

/-- A code unit written by a number of hexadecimal digits, and what follows them. -/
def splitDigits? (count : Nat) (t : Text) : Option (List Nat × Text) :=
  if count ≤ t.length then (hexNumber? (t.take count)).map fun n => ([n], t.drop count) else none

/-- The code units of a code point written by hexadecimal digits up to a closing brace, and what
follows it. -/
def splitPoint? (t : Text) : Option (List Nat × Text) :=
  match t.dropWhile Toml.isHexDigit with
  | '\x7d' :: tail =>
    ((hexNumber? (t.takeWhile Toml.isHexDigit)).filter (· < 0x110000)).map fun n =>
      (pointUnits n, tail)
  | _ => none

/-- The code units that the text behind a backslash stands for, and what follows. The end of a line
stands for nothing, and a character without a meaning of its own for itself. -/
def splitEscape? : Text → Option (List Nat × Text)
  | [] => none
  | 'x' :: rest => splitDigits? 2 rest
  | 'u' :: '\x7b' :: rest => splitPoint? rest
  -- a brace first would be a code point, so these are the digits
  | 'u' :: rest => splitDigits? 4 rest
  -- both characters end one line
  | '\r' :: '\n' :: rest => some ([], rest)
  | c :: rest =>
    some (if isLineEnd c then [] else (controlUnit? c).elim (units [c]) ([·]), rest)

/-- Whether the escape of a character is undone as the language reads it. -/
def isKeptEscape (c : Char) : Bool :=
  !(isLineEnd c || ['r', 'b', 'f', 'v', '0', 'x', 'u'].contains c)

/-- The character that an escape is undone to. -/
def undone (c : Char) : Char := if c = 'n' then '\n' else if c = 't' then '\t' else c

/-- What the text behind a backslash is read as and what it is undone to: the first is never longer,
and the same only for an escape that is kept. -/
structure EscapeFacts (c : Char) (more : Text) (us : List Nat) : Prop where
  plain : ∀ d ∈ more, d ≠ '\\' ∧ isQuote d = false
  single : isKeptEscape c = true → more = []
  length : us.length ≤ (units (undone c :: more)).length
  same : us = units (undone c :: more) ↔ isKeptEscape c = true

/-- An escape that is read as fewer code units than it is undone to. -/
theorem EscapeFacts.of_length {c : Char} {more : Text} {us : List Nat}
    (hplain : ∀ d ∈ more, d ≠ '\\' ∧ isQuote d = false) (hlength : us.length < more.length + 1)
    (hc : isKeptEscape c = false) : EscapeFacts c more us := by
  have hunits := length_le_units (undone c :: more)
  rw [List.length_cons] at hunits
  refine ⟨hplain, by simp [hc], by omega, iff_of_false ?_ (by simp [hc])⟩
  intro h
  rw [h] at hlength
  omega

theorem isPlain_of_isHexDigit {c : Char} (h : Toml.isHexDigit c = true) :
    c ≠ '\\' ∧ isQuote c = false := by
  have hne {d : Char} (hd : Toml.isHexDigit d = false) : c ≠ d := by
    rintro rfl
    rw [h] at hd
    exact absurd hd (by decide)
  refine ⟨hne (by decide), ?_⟩
  simp [isQuote, @hne '\x27' (by decide), @hne '"' (by decide), @hne '\x60' (by decide)]

theorem all_of_hexNumber? {digits : Text} {n : Nat} (h : hexNumber? digits = some n) :
    digits ≠ [] ∧ ∀ d ∈ digits, d ≠ '\\' ∧ isQuote d = false := by
  unfold hexNumber? at h
  split at h
  · rename_i hall
    simp only [Bool.and_eq_true, Bool.not_eq_true', List.isEmpty_eq_false_iff,
      List.all_eq_true] at hall
    exact ⟨hall.1, fun d hd => isPlain_of_isHexDigit (hall.2 d hd)⟩
  · exact absurd h (by simp)

theorem of_splitDigits? {count : Nat} {t tail : Text} {us : List Nat}
    (h : splitDigits? count t = some (us, tail)) :
    ∃ more, t = more ++ tail ∧ more.length = count ∧ us.length = 1 ∧
      ∀ d ∈ more, d ≠ '\\' ∧ isQuote d = false := by
  unfold splitDigits? at h
  split at h
  · rename_i hcount
    obtain ⟨n, hn, he⟩ := Option.map_eq_some_iff.1 h
    obtain ⟨rfl, rfl⟩ := Prod.mk.inj he
    exact ⟨t.take count, (List.take_append_drop count t).symm, List.length_take_of_le hcount, rfl,
      (all_of_hexNumber? hn).2⟩
  · exact absurd h (by simp)

theorem of_splitPoint? {t tail : Text} {us : List Nat} (h : splitPoint? t = some (us, tail)) :
    ∃ more, t = more ++ tail ∧ us.length ≤ more.length ∧
      ∀ d ∈ more, d ≠ '\\' ∧ isQuote d = false := by
  unfold splitPoint? at h
  split at h
  · rename_i rest hrest
    obtain ⟨n, hn, he⟩ := Option.map_eq_some_iff.1 h
    obtain ⟨rfl, rfl⟩ := Prod.mk.inj he
    obtain ⟨hdigits, hplain⟩ := all_of_hexNumber? (Option.filter_eq_some_iff.1 hn).1
    have hlength := List.length_pos_iff.2 hdigits
    have hunits := (length_pointUnits n).2
    refine ⟨t.takeWhile Toml.isHexDigit ++ ['\x7d'], ?_, ?_, ?_⟩
    · rw [List.append_assoc, List.singleton_append, ← hrest, List.takeWhile_append_dropWhile]
    · rw [List.length_append, List.length_singleton]
      omega
    · exact List.forall_mem_append.2 ⟨hplain, List.forall_mem_singleton.2 (by decide)⟩
  · exact absurd h (by simp)

theorem escapeFacts_single {c : Char} (hx : c ≠ 'x') (hu : c ≠ 'u') :
    EscapeFacts c [] (if isLineEnd c then [] else (controlUnit? c).elim (units [c]) ([·])) := by
  by_cases hend : isLineEnd c = true
  · rw [if_pos hend]
    exact .of_length (by simp) (by simp) (by simp [isKeptEscape, hend])
  rw [if_neg hend]
  unfold controlUnit?
  split
  case h_8 hn ht hr hb hf hv h0 =>
    -- no control character, so the character stands for itself on both sides
    have hundone : undone c = c := by
      rw [undone, if_neg hn, if_neg ht]
    have hkept : isKeptEscape c = true := by
      simp only [isKeptEscape, hend, List.contains_eq_mem, List.mem_cons, List.not_mem_nil, hx, hu]
      simpa using ⟨hr, hb, hf, hv, h0⟩
    rw [Option.elim_none]
    refine ⟨by simp, fun _ => rfl, ?_, ?_⟩
    · exact Nat.le_of_eq (by rw [hundone])
    · exact iff_of_true (by rw [hundone]) hkept
  all_goals exact ⟨by simp, fun _ => rfl, by decide, by decide⟩

theorem of_splitEscape? {t tail : Text} {us : List Nat} (h : splitEscape? t = some (us, tail)) :
    ∃ c more, t = c :: (more ++ tail) ∧ EscapeFacts c more us := by
  unfold splitEscape? at h
  split at h
  · exact absurd h (by simp)
  · obtain ⟨more, rfl, hcount, hus, hplain⟩ := of_splitDigits? h
    exact ⟨'x', more, rfl, .of_length hplain (by omega) (by decide)⟩
  · obtain ⟨more, rfl, hus, hplain⟩ := of_splitPoint? h
    refine ⟨'u', '\x7b' :: more, rfl, .of_length ?_ (by rw [List.length_cons]; omega) (by decide)⟩
    intro d hd
    rcases List.mem_cons.1 hd with rfl | hd
    · decide
    · exact hplain d hd
  · obtain ⟨more, rfl, hcount, hus, hplain⟩ := of_splitDigits? h
    exact ⟨'u', more, rfl, .of_length hplain (by omega) (by decide)⟩
  · obtain ⟨rfl, rfl⟩ := Prod.mk.inj (Option.some.inj h)
    refine ⟨'\r', ['\n'], rfl, .of_length ?_ (by decide) (by decide)⟩
    intro d hd
    obtain rfl := List.mem_singleton.1 hd
    decide
  · rename_i c rest hx _ hu _
    obtain ⟨rfl, rfl⟩ := Prod.mk.inj (Option.some.inj h)
    refine ⟨c, [], rfl, escapeFacts_single ?_ ?_⟩
    · exact hx
    · exact hu

theorem splitEscape?_length {t tail : Text} {us : List Nat}
    (h : splitEscape? t = some (us, tail)) : tail.length < t.length := by
  obtain ⟨c, more, rfl, -⟩ := of_splitEscape? h
  simp only [List.length_cons, List.length_append]
  omega

/-! ## 3. Literals -/

/-- The code units that a text denotes from behind an opening quote up to the closing one, which
ends it. No line may end before. -/
def literalUnits? (quote : Char) : Text → Option (List Nat)
  | [] => none
  | '\\' :: rest =>
    match _h : splitEscape? rest with
    | some (us, tail) => (literalUnits? quote tail).map (us ++ ·)
    | none => none
  | c :: rest =>
    if c = quote then if rest.isEmpty then some [] else none
    else if c = '\n' || c = '\r' then none
    else (literalUnits? quote rest).map (units [c] ++ ·)
termination_by t => t.length
decreasing_by
  · have hlength := splitEscape?_length _h
    rw [List.length_cons]
    omega
  · simp

/-- The code units of the string that a literal with single or double quotes denotes. -/
def stringUnits? : Text → Option (List Nat)
  | [] => none
  | quote :: rest => if quote = '\x27' ∨ quote = '"' then literalUnits? quote rest else none

/-- Whether each escape of a literal is undone as the language reads it. -/
def keepsEscapes : Text → Bool
  | [] => true
  | '\\' :: c :: rest => isKeptEscape c && keepsEscapes rest
  | _ :: rest => keepsEscapes rest

section Walk

variable {quote c : Char} {t inner more : Text} {us vs : List Nat}

theorem unescape_cons (hb : c ≠ '\\') (t : Text) : unescape (c :: t) = c :: unescape t := by
  rw [unescape]
  intro d rest hc
  exact absurd hc hb

theorem keepsEscapes_cons (hb : c ≠ '\\') (t : Text) : keepsEscapes (c :: t) = keepsEscapes t := by
  rw [keepsEscapes]
  intro d rest hc
  exact absurd hc hb

theorem isLiteralBody_cons (hb : c ≠ '\\') (hq : c ≠ quote) (t : Text) :
    isLiteralBody quote (c :: t) = isLiteralBody quote t := by
  rw [isLiteralBody]
  · simp [hb, hq]
  · intro d rest hc
    exact absurd hc hb

/-- Characters that are neither backslashes nor quotes stay what they are. -/
theorem plain_append (hmore : ∀ d ∈ more, d ≠ '\\' ∧ isQuote d = false)
    (hq : isQuote quote = true) (t : Text) :
    isLiteralBody quote (more ++ t) = isLiteralBody quote t ∧
      unescape (more ++ t) = more ++ unescape t ∧
      keepsEscapes (more ++ t) = keepsEscapes t := by
  induction more with
  | nil => exact ⟨rfl, rfl, rfl⟩
  | cons d more ih =>
    obtain ⟨hd, hmore⟩ := List.forall_mem_cons.1 hmore
    obtain ⟨hbody, hundo, hkeeps⟩ := ih hmore
    have hne : d ≠ quote := by
      rintro rfl
      exact absurd (hd.2.symm.trans hq) Bool.false_ne_true
    rw [List.cons_append, isLiteralBody_cons hd.1 hne, unescape_cons hd.1, keepsEscapes_cons hd.1,
      hundo]
    exact ⟨hbody, rfl, hkeeps⟩

theorem append_eq_iff {xs ys : List Nat} (hus : us.length ≤ xs.length)
    (hvs : vs.length ≤ ys.length) : us ++ vs = xs ++ ys ↔ us = xs ∧ vs = ys := by
  constructor
  · intro h
    have hlength := congrArg List.length h
    rw [List.length_append, List.length_append] at hlength
    exact List.append_inj h (by omega)
  · rintro ⟨rfl, rfl⟩
    rfl

theorem undone_ne_return (h : isKeptEscape c = true) : undone c ≠ '\r' := by
  have hc : c ≠ '\r' := by
    rintro rfl
    exact absurd h (by decide)
  unfold undone
  split
  · decide
  · split
    · decide
    · exact hc

/-- What a text denotes from behind an opening quote, next to what undoing its escapes gives. -/
structure IsRead (quote : Char) (t inner : Text) (us : List Nat) : Prop where
  text : t = inner ++ [quote]
  body : isLiteralBody quote inner = true
  length : us.length ≤ (units (unescape inner)).length
  same : us = units (unescape inner) ↔ keepsEscapes t = true
  oneLine : keepsEscapes t = true → '\r' ∉ unescape inner

theorem IsRead.nil (hq : isQuote quote = true) : IsRead quote [quote] [] [] where
  text := rfl
  body := rfl
  length := Nat.le_refl 0
  same := iff_of_true rfl (keepsEscapes_cons (quote_ne_backslash hq) [])
  oneLine := fun _ => List.not_mem_nil

theorem IsRead.plain (h : IsRead quote t inner us) (hb : c ≠ '\\') (hq : c ≠ quote)
    (hr : c ≠ '\r') : IsRead quote (c :: t) (c :: inner) (units [c] ++ us) := by
  have hundo := unescape_cons hb inner
  have hunits : units (unescape (c :: inner)) = units [c] ++ units (unescape inner) := by
    rw [hundo, units_cons, units_cons, units_nil, List.append_nil]
  refine ⟨?_, ?_, ?_, ?_, ?_⟩
  · rw [h.text, List.cons_append]
  · rw [isLiteralBody_cons hb hq, h.body]
  · have hlength := h.length
    rw [hunits, List.length_append, List.length_append]
    omega
  -- the character stands on both sides, so the rest decides
  · rw [hunits, append_eq_iff (Nat.le_refl _) h.length, keepsEscapes_cons hb, h.same]
    exact and_iff_right rfl
  · rw [hundo, keepsEscapes_cons hb]
    intro hkeeps
    exact List.not_mem_cons_of_ne_of_not_mem (Ne.symm hr) (h.oneLine hkeeps)

theorem IsRead.escape (h : IsRead quote t inner us) (hq : isQuote quote = true)
    (he : EscapeFacts c more vs) :
    IsRead quote ('\\' :: c :: (more ++ t)) ('\\' :: c :: (more ++ inner)) (vs ++ us) := by
  obtain ⟨hbody, hplain, -⟩ := plain_append he.plain hq inner
  obtain ⟨-, -, hkeeps⟩ := plain_append he.plain hq t
  have hundo : unescape ('\\' :: c :: (more ++ inner)) = undone c :: more ++ unescape inner := by
    rw [unescape, hplain]
    rfl
  have hkept : keepsEscapes ('\\' :: c :: (more ++ t)) = true ↔
      isKeptEscape c = true ∧ keepsEscapes t = true := by
    rw [keepsEscapes, hkeeps, Bool.and_eq_true]
  refine ⟨?_, ?_, ?_, ?_, ?_⟩
  · rw [h.text]
    simp
  · rw [isLiteralBody, hbody, h.body]
  · have hlength := h.length
    have hescape := he.length
    rw [hundo, units_append, List.length_append, List.length_append]
    omega
  · rw [hundo, units_append, append_eq_iff he.length h.length, hkept, he.same, h.same]
  · intro hall
    obtain ⟨hc, hrest⟩ := hkept.1 hall
    -- nothing but the character itself follows the backslash of an escape that is kept
    rw [hundo, he.single hc]
    exact List.not_mem_cons_of_ne_of_not_mem (undone_ne_return hc).symm (h.oneLine hrest)

theorem exists_isRead (hq : isQuote quote = true) (h : literalUnits? quote t = some us) :
    ∃ inner, IsRead quote t inner us := by
  fun_induction literalUnits? quote t generalizing us with
  | case1 => exact absurd h (by simp)
  | case2 rest us' tail hs ih =>
    obtain ⟨vs, hvs, rfl⟩ := Option.map_eq_some_iff.1 h
    obtain ⟨inner, hread⟩ := ih hvs
    obtain ⟨c, more, rfl, he⟩ := of_splitEscape? hs
    exact ⟨_, hread.escape hq he⟩
  | case3 => exact absurd h (by simp)
  | case4 rest hempty =>
    obtain rfl := Option.some.inj h
    rw [List.isEmpty_iff] at hempty
    rw [hempty]
    exact ⟨[], .nil hq⟩
  | case5 => exact absurd h (by simp)
  | case6 => exact absurd h (by simp)
  | case7 c rest hb hne hline ih =>
    obtain ⟨vs, hvs, rfl⟩ := Option.map_eq_some_iff.1 h
    obtain ⟨inner, hread⟩ := ih hvs
    simp only [Bool.or_eq_true, decide_eq_true_eq, not_or] at hline
    -- no line ends here
    exact ⟨_, hread.plain hb hne hline.2⟩

theorem isQuote_of_plain (hq : quote = '\x27' ∨ quote = '"') : isQuote quote = true := by
  rcases hq with rfl | rfl <;> rfl

theorem exists_isRead_of_stringUnits? {e : Text} (h : stringUnits? e = some us) :
    ∃ quote t inner, (quote = '\x27' ∨ quote = '"') ∧ e = quote :: t ∧
      IsRead quote t inner us := by
  unfold stringUnits? at h
  split at h
  · exact absurd h (by simp)
  · rename_i quote t
    split at h
    · rename_i hq
      obtain ⟨inner, hread⟩ := exists_isRead (isQuote_of_plain hq) h
      exact ⟨quote, t, inner, hq, rfl, hread⟩
    · exact absurd h (by simp)

end Walk

/-! ## 4. Literals that are written -/

/-- An escape that is kept is read as the character it is undone to. -/
theorem splitEscape?_kept {c : Char} (hc : isKeptEscape c = true) (rest : Text) :
    splitEscape? (c :: rest) = some (units [undone c], rest) := by
  have hne {d : Char} (hd : isKeptEscape d = false) : c ≠ d := by
    rintro rfl
    exact absurd (hc.symm.trans hd) Bool.true_eq_false.mp
  have hx : c ≠ 'x' := hne (by decide)
  have hu : c ≠ 'u' := hne (by decide)
  have hr : c ≠ '\r' := hne (by decide)
  rw [splitEscape?, (escapeFacts_single hx hu).same.2 hc]
  · exact hx
  · exact fun rest h _ => hu h
  · exact hu
  · exact fun rest h _ => hr h

theorem literalUnits?_plain {quote c : Char} (hb : c ≠ '\\') (hq : c ≠ quote) (hn : c ≠ '\n')
    (rest : Text) :
    literalUnits? quote (c :: rest) =
      if c = '\r' then none else (literalUnits? quote rest).map (units [c] ++ ·) := by
  rw [literalUnits?, if_neg hq]
  · simp [hn]
  · exact hb

theorem literalUnits?_kept {quote c : Char} (hc : isKeptEscape c = true) (rest : Text) :
    literalUnits? quote ('\\' :: c :: rest) =
      (literalUnits? quote rest).map (units [undone c] ++ ·) := by
  rw [literalUnits?]
  split
  · rename_i us tail hs
    rw [splitEscape?_kept hc] at hs
    obtain ⟨rfl, rfl⟩ := Prod.mk.inj (Option.some.inj hs)
    rfl
  · rename_i hs
    rw [splitEscape?_kept hc] at hs
    exact absurd hs (by simp)

end Source

open Source

/-- Escaping uses no escapes but those that are kept. -/
theorem Quote.escape_kept (q : Quote) (c : Char) :
    (∃ d, q.escape c = ['\\', d] ∧ isKeptEscape d = true ∧ undone d = c) ∨
      (q.escape c = [c] ∧ c ≠ '\\' ∧ c ≠ q.char ∧ c ≠ '\n') := by
  unfold Quote.escape
  by_cases hb : c = '\\'
  · exact .inl ⟨'\\', by simp [hb], by decide, by rw [hb]; decide⟩
  by_cases hn : c = '\n'
  · exact .inl ⟨'n', by simp [hn], by decide, by rw [hn]; decide⟩
  by_cases ht : c = '\t'
  · exact .inl ⟨'t', by simp [ht], by decide, by rw [ht]; decide⟩
  by_cases hq : c = q.char
  · refine .inl ⟨c, by rw [if_neg hb, if_neg hn, if_neg ht, if_pos hq], ?_, ?_⟩
    all_goals
      rw [hq]
      cases q <;> decide
  · exact .inr ⟨by simp [hb, hn, ht, hq], hb, hq, hn⟩

namespace Style

variable (s : Style)

/-- What is written for a character denotes it, but a carriage return ends its line. -/
theorem literalUnits?_escape (c : Char) (rest : Text) :
    literalUnits? s.quote.char (s.quote.escape c ++ rest) =
      if c = '\r' then none else (literalUnits? s.quote.char rest).map (units [c] ++ ·) := by
  rcases s.quote.escape_kept c with ⟨d, he, hd, rfl⟩ | ⟨he, hb, hq, hn⟩
  · rw [he, if_neg (undone_ne_return hd)]
    exact literalUnits?_kept hd rest
  · rw [he]
    exact literalUnits?_plain hb hq hn rest

/-- A written literal denotes the text it is written for, unless a carriage return ends its line. -/
theorem stringUnits?_literal (t : Text) :
    stringUnits? (s.literal t) = if '\r' ∈ t then none else some (units t) := by
  have hquote : s.quote.char = '\x27' ∨ s.quote.char = '"' := by
    cases s.quote
    · exact .inl rfl
    · exact .inr rfl
  have hbody : literalUnits? s.quote.char (t.flatMap s.quote.escape ++ [s.quote.char]) =
      if '\r' ∈ t then none else some (units t) := by
    induction t with
    | nil =>
      rw [List.flatMap_nil, List.nil_append, literalUnits?]
      · simp
      · exact quote_ne_backslash s.quote.isQuote_char
    | cons c t ih =>
      rw [List.flatMap_cons, List.append_assoc, s.literalUnits?_escape, ih]
      by_cases hc : c = '\r'
      · simp [hc]
      · by_cases ht : '\r' ∈ t
        · simp [ht]
        · simp [hc, ht, Ne.symm hc]
  unfold literal
  rw [List.cons_append, stringUnits?, if_pos hquote, hbody]

theorem requote_literal {quote : Char} {inner : Text} (hq : quote = '\x27' ∨ quote = '"')
    (hi : isLiteralBody quote inner = true) :
    s.requote (quote :: inner ++ [quote]) = s.literal (unescape inner) := by
  have hquote := isQuote_of_plain hq
  have htemplate : Text.firstIs (· = '\x60') (quote :: inner ++ [quote]) = false := by
    rcases hq with rfl | rfl <;> rfl
  have htrim := (IsValueText.literal hquote hi).isTrimmed.trim_eq
  unfold requote
  simp only [htrim, htemplate, Bool.false_eq_true, if_false, Parlance.unquote_literal hquote hi]
  rfl

/-- A literal in another style denotes the same string exactly if each of its escapes is of a line
feed, of a tab or of a character that stands for itself. -/
theorem stringUnits?_requote_iff {e : Text} (h : (stringUnits? e).isSome = true) :
    stringUnits? (s.requote e) = stringUnits? e ↔ keepsEscapes e = true := by
  obtain ⟨us, hus⟩ := Option.isSome_iff_exists.1 h
  obtain ⟨quote, t, inner, hq, rfl, hread⟩ := exists_isRead_of_stringUnits? hus
  have hquote := isQuote_of_plain hq
  have hkeeps := keepsEscapes_cons (quote_ne_backslash hquote) t
  have hliteral : s.requote (quote :: t) = s.literal (unescape inner) := by
    rw [hread.text]
    exact s.requote_literal hq hread.body
  rw [hus, hkeeps, hliteral, s.stringUnits?_literal]
  constructor
  · intro hsame
    split at hsame
    · exact absurd hsame (by simp)
    · exact hread.same.1 (Option.some.inj hsame).symm
  · intro hall
    rw [if_neg (hread.oneLine hall), hread.same.2 hall]

/-- Both quotes, a backslash, a line feed, a tab and a character beyond sixteen bits, escaped and
plain. -/
def escapedLiteral : Text := "'it\\'s \\\\ \\n\\t \"\\é😀\\😀\"'"

theorem stringUnits?_requote_escapedLiteral :
    ({ quote := .double } : Style).requote escapedLiteral =
        "\"it's \\\\ \\n\\t \\\"é😀😀\\\"\"".toList ∧
      stringUnits? (({ quote := .double } : Style).requote escapedLiteral) =
        some [105, 116, 39, 115, 32, 92, 32, 10, 9, 32, 34, 233, 55357, 56832, 55357, 56832, 34] := by
  have hunits : stringUnits? escapedLiteral =
      some [105, 116, 39, 115, 32, 92, 32, 10, 9, 32, 34, 233, 55357, 56832, 55357, 56832, 34] := by
    decide +kernel
  have hkeeps : keepsEscapes escapedLiteral = true := by decide +kernel
  have hsame := (stringUnits?_requote_iff { quote := .double } (by rw [hunits]; rfl)).2 hkeeps
  exact ⟨by decide +kernel, hsame.trans hunits⟩

/-- The escape of a carriage return becomes the letter that writes it. -/
theorem stringUnits?_requote_return :
    stringUnits? "'a\\rb'" = some [97, 13, 98] ∧
      ({} : Style).requote "'a\\rb'" = "'arb'".toList ∧
      stringUnits? (({} : Style).requote "'a\\rb'") = some [97, 114, 98] := by
  decide +kernel

end Style

end Parlance
