import Mathlib.Data.List.Chain
import Parlance.Proofs.Scope

/-!
Texts that differ in their comments only. Two readings are alike if they hold the same characters of
code and of literals, and comments at the same places. Blocks, calls and the semicolons behind calls
then end at corresponding characters.
-/

namespace Parlance.Source

/-! ## 1. Where comments begin and end -/

/-- How a comment meets its neighbours: it begins with a slash, and ends with one unless a line feed
ends it. -/
def Mark.Meets (a b : Mark) : Prop :=
  (a.kind ≠ .comment → b.kind = .comment → b.char = '/') ∧
    (a.kind = .comment → b.kind = .code → a.char = '/' ∨ b.char = '\n')

/-- What the first character read in a mode can be. -/
def Mode.Starts : Mode → Mark → Prop
  | .code, m | .literal _, m => m.kind = .comment → m.char = '/'
  | .lineComment, m => m.kind = .code → m.char = '\n'
  | .blockComment, m => m.kind = .comment

theorem Mark.Meets.of_visible {a m : Mark} (ha : a.kind ≠ .comment)
    (hm : m.kind = .comment → m.char = '/') : a.Meets m :=
  ⟨fun _ => hm, fun h => absurd h ha⟩

theorem Mark.Meets.of_comment {a m : Mark} (ha : a.kind = .comment)
    (hm : m.kind = .code → a.char = '/' ∨ m.char = '\n') : a.Meets m :=
  ⟨fun h => absurd ha h, fun _ => hm⟩

theorem Mode.Pairs.meets {mode next : Mode} {c d : Char} {kind : Kind}
    (h : mode.Pairs c d kind next) :
    mode.Starts ⟨c, kind⟩ ∧ Mark.Meets ⟨c, kind⟩ ⟨d, kind⟩ ∧
      ∀ m, next.Starts m → Mark.Meets ⟨d, kind⟩ m := by
  cases h with
  | opensLine | closesBlock =>
    exact ⟨by simp [Mode.Starts], .of_comment rfl (by simp),
      fun m _ => .of_comment rfl fun _ => .inl rfl⟩
  | opensBlock =>
    -- what stands in a block comment next is comment
    refine ⟨by simp [Mode.Starts], .of_comment rfl (by simp),
      fun m hm => .of_comment rfl fun h => ?_⟩
    exact absurd (h.symm.trans hm) (by decide)
  | escape =>
    exact ⟨by simp [Mode.Starts], .of_visible (by simp) (by simp),
      fun m hm => .of_visible (by simp) hm⟩

theorem Mode.single_meets (mode : Mode) (c : Char) :
    mode.Starts ⟨c, (mode.single c).1⟩ ∧
      ∀ m, (mode.single c).2.Starts m → Mark.Meets ⟨c, (mode.single c).1⟩ m := by
  cases mode with
  | code =>
    have hkind : Kind.ofCode c ≠ .comment := Kind.ofCode_ne_comment c
    refine ⟨fun h => absurd h hkind, fun m hm => .of_visible hkind ?_⟩
    simp only [Mode.single, Mode.afterCode] at hm
    split at hm <;> exact hm
  | literal quote =>
    refine ⟨by simp [Mode.Starts, Mode.single], fun m hm => .of_visible (by simp [Mode.single]) ?_⟩
    simp only [Mode.single] at hm
    split at hm <;> exact hm
  | lineComment =>
    by_cases hc : c = '\n'
    · simp only [Mode.single, hc, if_true]
      exact ⟨fun _ => rfl, fun m hm => .of_visible (by simp) hm⟩
    · simp only [Mode.single, hc, if_false]
      exact ⟨by simp [Mode.Starts], fun m hm => .of_comment rfl fun h => .inr (hm h)⟩
  | blockComment =>
    refine ⟨rfl, fun m hm => .of_comment rfl fun h => absurd (h.symm.trans hm) (by decide)⟩

/-- A reading begins as its mode says and goes on as neighbours meet. -/
theorem isChain_read (mode : Mode) (t : Text) :
    (∀ m ∈ (read mode t).1.head?, mode.Starts m) ∧ (read mode t).1.IsChain Mark.Meets := by
  induction mode, t using read_induction with
  | nil mode => simp [read]
  | pair mode c d t kind next hpair ih =>
    obtain ⟨hstarts, hmeets, hnext⟩ := hpair.meets
    rw [read_pair hpair]
    refine ⟨by simpa using hstarts, List.isChain_cons_cons.2 ⟨hmeets, ?_⟩⟩
    exact List.isChain_cons.2 ⟨fun m hm => hnext m (ih.1 m hm), ih.2⟩
  | single mode c t halone ih =>
    obtain ⟨hstarts, hnext⟩ := mode.single_meets c
    rw [read_single halone]
    exact ⟨by simpa using hstarts, List.isChain_cons.2 ⟨fun m hm => hnext m (ih.1 m hm), ih.2⟩⟩

theorem isChain_marks (t : Text) : (marks t).IsChain Mark.Meets := (isChain_read .code t).2

theorem slash_of_marks {t : Text} {m : Mark} (h : m ∈ (marks t).head?) (hm : m.kind = .comment) :
    m.char = '/' :=
  (isChain_read .code t).1 m h hm

/-! ## 2. Readings that are alike -/

def IsComment (ms : List Mark) : Prop := ms ≠ [] ∧ ∀ m ∈ ms, m.kind = .comment

/-- The same characters of code and of literals, with comments at the same places. -/
inductive Alike : List Mark → List Mark → Prop
  | nil : Alike [] []
  | same {m : Mark} {ms ns : List Mark} (hm : m.kind ≠ .comment) (h : Alike ms ns) :
      Alike (m :: ms) (m :: ns)
  | comments {cs ds ms ns : List Mark} (hcs : IsComment cs) (hds : IsComment ds)
      (h : Alike ms ns) : Alike (cs ++ ms) (ds ++ ns)

namespace Alike

theorem symm {ms ns : List Mark} (h : Alike ms ns) : Alike ns ms := by
  induction h with
  | nil => exact .nil
  | same hm _ ih => exact .same hm ih
  | comments hcs hds _ ih => exact .comments hds hcs ih

theorem append {ms ns ms' ns' : List Mark} (h : Alike ms ns) (h' : Alike ms' ns') :
    Alike (ms ++ ms') (ns ++ ns') := by
  induction h with
  | nil => exact h'
  | same hm _ ih => exact .same hm ih
  | comments hcs hds _ ih =>
    rw [List.append_assoc, List.append_assoc]
    exact .comments hcs hds ih

theorem visible_left {m : Mark} {ms ns : List Mark} (h : Alike (m :: ms) ns)
    (hm : m.kind ≠ .comment) : ∃ ns', ns = m :: ns' ∧ Alike ms ns' := by
  generalize hl : m :: ms = l at h
  cases h with
  | nil => simp at hl
  | same _ h =>
    obtain ⟨rfl, rfl⟩ := List.cons.inj hl
    exact ⟨_, rfl, h⟩
  | @comments cs ds ms' ns' hcs hds h =>
    cases cs with
    | nil => exact absurd rfl hcs.1
    | cons c cs =>
      obtain ⟨rfl, -⟩ := List.cons.inj hl
      exact absurd (hcs.2 m List.mem_cons_self) hm

theorem visible_append {front ms ns : List Mark} (h : Alike (front ++ ms) ns)
    (hfront : ∀ m ∈ front, m.kind ≠ .comment) : ∃ ns', ns = front ++ ns' ∧ Alike ms ns' := by
  induction front generalizing ns with
  | nil => exact ⟨ns, rfl, h⟩
  | cons m front ih =>
    obtain ⟨ns', rfl, h'⟩ := visible_left h (hfront m List.mem_cons_self)
    obtain ⟨ns'', rfl, h''⟩ := ih h' fun a ha => hfront a (List.mem_cons_of_mem m ha)
    exact ⟨ns'', rfl, h''⟩

end Alike

/-! ## 3. Cutting readings that are alike -/

/-- Two readings in which nothing was found, or which are cut at the same character of a sort. -/
inductive CutAlike (p : Mark → Prop) (ms ns : List Mark) :
    Option (List Mark × List Mark) → Option (List Mark × List Mark) → Prop
  | none : CutAlike p ms ns none none
  | some {front back front' back' : List Mark} {m : Mark} (hm : p m) (hms : ms = front ++ m :: back)
      (hns : ns = front' ++ m :: back') (hfront : Alike front front') (hback : Alike back back') :
      CutAlike p ms ns (some (front, back)) (some (front', back'))

theorem CutAlike.prepend {p : Mark → Prop} {ms ns a a' : List Mark}
    {x y : Option (List Mark × List Mark)} (h : CutAlike p ms ns x y) (ha : Alike a a') :
    CutAlike p (a ++ ms) (a' ++ ns) (x.map fun (front, back) => (a ++ front, back))
      (y.map fun (front, back) => (a' ++ front, back)) := by
  cases h with
  | none => exact .none
  | some hm hms hns hfront hback =>
    refine .some hm ?_ ?_ (ha.append hfront) hback
    · rw [hms, List.append_assoc]
    · rw [hns, List.append_assoc]

namespace Alike

variable {ms ns : List Mark}

theorem nested_of_isComment {cs : List Mark} (h : IsComment cs) : Nested cs :=
  nested_of_hidden fun m hm => by rw [h.2 m hm]; decide

/-- A block ends at the same brace. -/
theorem splitBlock (h : Alike ms ns) (depth : Nat) :
    CutAlike (fun m => m.isCode '\x7d' = true) ms ns (Source.splitBlock depth ms)
      (Source.splitBlock depth ns) := by
  induction h generalizing depth with
  | nil => exact .none
  | @same m ms ns hm h ih =>
    have hone : Alike [m] [m] := .same hm .nil
    unfold Source.splitBlock
    by_cases hc : m.isCode '\x7d' = true
    · rw [if_pos hc, if_pos hc]
      cases depth with
      | zero => exact .some hc rfl rfl .nil h
      | succ depth => exact (ih depth).prepend hone
    · rw [if_neg hc, if_neg hc]
      exact (ih _).prepend hone
  | @comments cs ds ms ns hcs hds h ih =>
    -- a comment has no brace of code, so both searches go on behind theirs
    rw [splitBlock_nested (nested_of_isComment hcs), splitBlock_nested (nested_of_isComment hds)]
    exact (ih depth).prepend (by simpa using Alike.comments hcs hds .nil)

theorem splitClose (h : Alike ms ns) (depth : Nat) :
    CutAlike (fun m => m.closes = true) ms ns (Source.splitClose (depth + 1) ms)
      (Source.splitClose (depth + 1) ns) := by
  induction h generalizing depth with
  | nil => exact .none
  | @same m ms ns hm h ih =>
    have hone : Alike [m] [m] := .same hm .nil
    unfold Source.splitClose
    by_cases hc : m.closes = true
    · rw [if_pos hc, if_pos hc]
      cases depth with
      | zero => exact .some hc rfl rfl .nil h
      | succ depth => exact (ih depth).prepend hone
    · rw [if_neg hc, if_neg hc]
      by_cases ho : m.opens = true
      · rw [if_pos ho]
        exact (ih (depth + 1)).prepend hone
      · rw [if_neg ho]
        exact (ih depth).prepend hone
  | @comments cs ds ms ns hcs hds h ih =>
    rw [splitClose_nested (nested_of_isComment hcs), splitClose_nested (nested_of_isComment hds)]
    exact (ih depth).prepend (by simpa using Alike.comments hcs hds .nil)

/-- What follows in code mode goes on with a word on both sides or on neither. -/
theorem startsWord (h : Alike ms ns) (hms : ∀ m ∈ ms.head?, m.kind = .comment → m.char = '/')
    (hns : ∀ m ∈ ns.head?, m.kind = .comment → m.char = '/') :
    Pattern.startsWord (unmark ms) = Pattern.startsWord (unmark ns) := by
  -- a comment begins with a slash, which begins no word
  have hslash {cs ms : List Mark} (hcs : IsComment cs)
      (hs : ∀ m ∈ (cs ++ ms).head?, m.kind = .comment → m.char = '/') :
      Pattern.startsWord (unmark (cs ++ ms)) = false := by
    cases cs with
    | nil => exact absurd rfl hcs.1
    | cons c cs =>
      have hc := hs c (by simp) (hcs.2 c List.mem_cons_self)
      rw [List.cons_append, unmark_cons, hc]
      rfl
  cases h with
  | nil => rfl
  | same hm h => rfl
  | comments hcs hds h => rw [hslash hcs hms, hslash hds hns]

end Alike

/-! ## 4. Corresponding places -/

def visibleCount (ms : List Mark) : Nat := ms.countP fun m => m.kind ≠ .comment

theorem Alike.visibleCount_eq {ms ns : List Mark} (h : Alike ms ns) :
    visibleCount ms = visibleCount ns := by
  have hzero {cs : List Mark} (hcs : IsComment cs) : visibleCount cs = 0 :=
    List.countP_eq_zero.2 fun m hm => by simp [hcs.2 m hm]
  induction h with
  | nil => rfl
  | same hm _ ih => simpa [visibleCount, List.countP_cons] using ih
  | comments hcs hds _ ih =>
    rw [visibleCount, visibleCount, List.countP_append, List.countP_append]
    have h₁ := hzero hcs
    have h₂ := hzero hds
    unfold visibleCount at h₁ h₂ ih
    omega

/-- The first `k` and the first `k'` characters of two readings are alike and end with the same
character of code, which is no part of a word. -/
inductive Corresponds : (ms ns : List Mark) → (k k' : Nat) → Prop
  | mk {m : Mark} {front back front' back' : List Mark} (hm : m.kind = .code)
      (hword : isWord m.char = false) (hfront : Alike front front') (hback : Alike back back') :
      Corresponds (front ++ m :: back) (front' ++ m :: back') (front.length + 1)
        (front'.length + 1)

theorem take_succ_length (m : Mark) (front back : List Mark) :
    (front ++ m :: back).take (front.length + 1) = front ++ [m] := by
  rw [List.take_length_add_append, List.take_succ_cons, List.take_zero]

namespace Corresponds

variable {ms ns : List Mark} {k k' l l' : Nat}

theorem symm (h : Corresponds ms ns k k') : Corresponds ns ms k' k := by
  cases h with
  | mk hm hword hfront hback => exact .mk hm hword hfront.symm hback.symm

theorem pos (h : Corresponds ms ns k k') : 1 ≤ k := by
  cases h with
  | mk => omega

theorem le (h : Corresponds ms ns k k') : k ≤ ms.length := by
  cases h with
  | mk =>
    rw [List.length_append, List.length_cons]
    omega

theorem count_eq (h : Corresponds ms ns k k') :
    visibleCount (ms.take k) = visibleCount (ns.take k') := by
  cases h with
  | @mk m front back front' back' hm hword hfront hback =>
    have hone : Alike [m] [m] := .same (by rw [hm]; decide) .nil
    rw [take_succ_length, take_succ_length]
    exact (hfront.append hone).visibleCount_eq

/-- A place before a corresponding one has fewer characters before it outside comments. -/
theorem count_lt (h : Corresponds ms ns k k') (hl : l < k) :
    visibleCount (ms.take l) < visibleCount (ms.take k) := by
  cases h with
  | @mk m front back front' back' hm hword hfront hback =>
    -- all that stands before the place lies in the front, which the common character follows
    have hshort : visibleCount ((front ++ m :: back).take l) ≤ visibleCount front := by
      rw [List.take_append_of_le_length (by omega)]
      exact (List.take_sublist l front).countP_le
    have hlong : visibleCount ((front ++ m :: back).take (front.length + 1)) =
        visibleCount front + 1 := by
      rw [take_succ_length]
      simp [visibleCount, hm]
    omega

theorem le_of_le (hk : Corresponds ms ns k k') (hl : Corresponds ms ns l l') (h : k ≤ l) :
    k' ≤ l' := by
  -- otherwise the characters outside comments would be counted the other way round
  by_contra hlt
  have hn := hk.symm.count_lt (l := l') (by omega)
  have hm : visibleCount (ms.take k) ≤ visibleCount (ms.take l) :=
    (List.take_sublist_take_left h).countP_le
  have h₁ := hk.count_eq
  have h₂ := hl.count_eq
  omega

theorem max (hk : Corresponds ms ns k k') (hl : Corresponds ms ns l l') :
    Corresponds ms ns (max k l) (max k' l') := by
  rcases Nat.le_total k l with h | h
  · rwa [Nat.max_eq_right h, Nat.max_eq_right (le_of_le hk hl h)]
  · rwa [Nat.max_eq_left h, Nat.max_eq_left (le_of_le hl hk h)]

theorem append {a a' : List Mark} (h : Corresponds ms ns k k') (ha : Alike a a') :
    Corresponds (a ++ ms) (a' ++ ns) (a.length + k) (a'.length + k') := by
  cases h with
  | @mk m front back front' back' hm hword hfront hback =>
    have h := Corresponds.mk hm hword (ha.append hfront) hback
    simpa only [List.append_assoc, List.length_append, Nat.add_assoc] using h

end Corresponds

/-! ## 5. Bytes -/

/-- The bytes of a marked character: what each belongs to and, outside comments, which it is. -/
def Mark.visibleBytes (m : Mark) : List (Kind × Option UInt8) :=
  (String.utf8EncodeChar m.char).map fun b =>
    (m.kind, if m.kind = .comment then none else some b)

/-- The bytes of a text in UTF-8: what each belongs to and, outside comments, which it is. -/
def visibleBytes (t : Text) : List (Kind × Option UInt8) := (marks t).flatMap Mark.visibleBytes

theorem char_of_utf8Encode {c d : Char} {x y : List UInt8}
    (h : String.utf8EncodeChar c ++ x = String.utf8EncodeChar d ++ y) : c = d := by
  have hc := @ByteArray.utf8DecodeChar?_utf8EncodeChar_append x.toByteArray c
  have hd := @ByteArray.utf8DecodeChar?_utf8EncodeChar_append y.toByteArray d
  rw [← List.toByteArray_append, h, List.toByteArray_append, hd] at hc
  exact (Option.some.inj hc).symm

theorem Mark.visibleBytes_ne_nil (m : Mark) : m.visibleBytes ≠ [] := by
  simp [visibleBytes]

theorem kind_of_mem_visibleBytes {m : Mark} {b : Kind × Option UInt8} (h : b ∈ m.visibleBytes) :
    b.1 = m.kind := by
  obtain ⟨_, -, rfl⟩ := List.mem_map.1 h
  rfl

/-- The bytes of a character outside comments say which character it is. -/
theorem eq_of_visibleBytes {m n : Mark} {x y : List (Kind × Option UInt8)}
    (hm : m.kind ≠ .comment) (h : m.visibleBytes ++ x = n.visibleBytes ++ y) : m = n := by
  have hkind : m.kind = n.kind := by
    obtain ⟨b, bs, hb⟩ := List.exists_cons_of_ne_nil m.visibleBytes_ne_nil
    obtain ⟨d, ds, hd⟩ := List.exists_cons_of_ne_nil n.visibleBytes_ne_nil
    rw [hb, hd] at h
    obtain ⟨rfl, -⟩ := List.cons.inj h
    have hbm := kind_of_mem_visibleBytes (m := m) (b := b) (by simp [hb])
    have hbn := kind_of_mem_visibleBytes (m := n) (b := b) (by simp [hd])
    rw [← hbm, hbn]
  -- outside comments the bytes are those of the character, from which it can be decoded
  have hbytes {m : Mark} (hm : m.kind ≠ .comment) :
      m.visibleBytes.map (fun b => b.2.getD 0) = String.utf8EncodeChar m.char := by
    rw [Mark.visibleBytes, List.map_map]
    simp [hm, Function.comp_def]
  have hproj := congrArg (List.map fun b => b.2.getD 0) h
  rw [List.map_append, List.map_append, hbytes hm, hbytes (hkind ▸ hm)] at hproj
  obtain ⟨c, k⟩ := m
  obtain ⟨d, k'⟩ := n
  obtain rfl : c = d := char_of_utf8Encode hproj
  obtain rfl : k = k' := hkind
  rfl

/-- Behind the bytes of a comment stand the bytes of what follows the comment. -/
theorem dropWhile_visibleBytes (ms : List Mark) :
    (ms.flatMap Mark.visibleBytes).dropWhile (fun b => b.1 = .comment) =
      (ms.dropWhile fun m => m.kind = .comment).flatMap Mark.visibleBytes := by
  induction ms with
  | nil => rfl
  | cons m ms ih =>
    rw [List.flatMap_cons, List.dropWhile_cons]
    by_cases hm : m.kind = .comment
    · rw [if_pos (by simpa using hm), List.dropWhile_append_of_pos, ih]
      intro b hb
      simpa [kind_of_mem_visibleBytes hb] using hm
    · obtain ⟨b, bs, hb⟩ := List.exists_cons_of_ne_nil m.visibleBytes_ne_nil
      have hkind := kind_of_mem_visibleBytes (m := m) (b := b) (by simp [hb])
      rw [if_neg (by simpa using hm), List.flatMap_cons, hb, List.cons_append,
        List.dropWhile_cons, if_neg (by simpa [hkind] using hm)]

theorem isComment_takeWhile {m : Mark} {ms : List Mark} (hm : m.kind = .comment) :
    IsComment ((m :: ms).takeWhile fun m => m.kind = .comment) := by
  constructor
  · rw [List.takeWhile_cons, if_pos (by simpa using hm)]
    simp
  · intro a ha
    simpa using List.all_eq_true.1 List.all_takeWhile a ha

/-- Readings with the same bytes outside comments are alike. -/
theorem alike_of_visibleBytes {ms ns : List Mark}
    (h : ms.flatMap Mark.visibleBytes = ns.flatMap Mark.visibleBytes) : Alike ms ns := by
  -- by what is left, since a comment is taken off as a whole
  induction hl : ms.length using Nat.strongRecOn generalizing ms ns with
  | ind l ih =>
    cases ms with
    | nil =>
      cases ns with
      | nil => exact .nil
      | cons n ns =>
        rw [List.flatMap_nil, List.flatMap_cons] at h
        exact absurd (List.append_eq_nil_iff.1 h.symm).1 n.visibleBytes_ne_nil
    | cons m ms =>
      rw [List.length_cons] at hl
      cases ns with
      | nil =>
        rw [List.flatMap_nil, List.flatMap_cons] at h
        exact absurd (List.append_eq_nil_iff.1 h).1 m.visibleBytes_ne_nil
      | cons n ns =>
        have hcons := h
        rw [List.flatMap_cons, List.flatMap_cons] at hcons
        by_cases hm : m.kind = .comment
        · have hn : n.kind = .comment := by
            by_contra hn
            exact hn (eq_of_visibleBytes hn hcons.symm ▸ hm)
          -- the bytes of two comments need not match one by one
          have hdrop := congrArg (List.dropWhile fun b => b.1 = .comment) h
          rw [dropWhile_visibleBytes, dropWhile_visibleBytes] at hdrop
          have hshort : ((m :: ms).dropWhile fun m => m.kind = .comment).length < l := by
            rw [List.dropWhile_cons, if_pos (by simpa using hm)]
            have := (List.dropWhile_sublist (l := ms) fun m => m.kind = .comment).length_le
            omega
          have hrest := ih _ hshort hdrop rfl
          rw [← List.takeWhile_append_dropWhile (p := fun m => m.kind = .comment) (l := m :: ms),
            ← List.takeWhile_append_dropWhile (p := fun m => m.kind = .comment) (l := n :: ns)]
          exact .comments (isComment_takeWhile hm) (isComment_takeWhile hn) hrest
        · obtain rfl := eq_of_visibleBytes hm hcons
          exact .same hm (ih ms.length (by omega) (List.append_cancel_left hcons) rfl)

end Parlance.Source
