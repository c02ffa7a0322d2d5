import Parlance.Text.Basic

/-!
Byte offsets that do not fall inside a character. Such an offset cuts a text in two, and what is
left from it on is the second part.
-/

namespace Parlance.Text

/-- An offset between two characters of a text, or at one of its ends. -/
def IsBoundary (t : Text) (offset : Nat) : Prop :=
  ∃ before after, t = before ++ after ∧ size before = offset

variable {t before after : Text} {offset : Nat}

theorem isBoundary_append (before after : Text) : IsBoundary (before ++ after) (size before) :=
  ⟨before, after, rfl, rfl⟩

theorem isBoundary_start (t : Text) : IsBoundary t 0 := ⟨[], t, rfl, rfl⟩

theorem isBoundary_end (t : Text) : IsBoundary t (size t) := ⟨t, [], (List.append_nil t).symm, rfl⟩

theorem IsBoundary.le (h : IsBoundary t offset) : offset ≤ size t := by
  obtain ⟨before, after, rfl, rfl⟩ := h
  rw [size_append]
  omega

theorem size_pos (h : t ≠ []) : 0 < size t := by
  cases t with
  | nil => exact absurd rfl h
  | cons c t =>
    have := c.utf8Size_pos
    rw [size_cons]
    omega

theorem size_take_le (count : Nat) (t : Text) : size (t.take count) ≤ size t := by
  have h := size_append (t.take count) (t.drop count)
  rw [List.take_append_drop] at h
  omega

/-- An offset says what stands before it. -/
theorem eq_of_size_eq {before' after' : Text} (h : before ++ after = before' ++ after')
    (hsize : size before = size before') : before = before' ∧ after = after' := by
  have hcut := cut?_size before after
  rw [h, hsize, cut?_size] at hcut
  obtain ⟨hbefore, hafter⟩ := Prod.mk.inj (Option.some.inj hcut)
  exact ⟨hbefore.symm, hafter.symm⟩

theorem isBoundary_take (before after : Text) (count : Nat) :
    IsBoundary (before ++ after) (size before + size (after.take count)) :=
  ⟨before ++ after.take count, after.drop count,
    by rw [List.append_assoc, List.take_append_drop], size_append _ _⟩

theorem eq_of_cut? (h : cut? offset t = some (before, after)) :
    t = before ++ after ∧ size before = offset := by
  fun_induction cut? offset t generalizing before with
  | case1 t =>
    obtain ⟨rfl, rfl⟩ := Prod.mk.inj (Option.some.inj h)
    exact ⟨rfl, rfl⟩
  | case2 => exact absurd h (by simp)
  | case3 n c rest hc ih =>
    obtain ⟨⟨front, back⟩, hcut, he⟩ := Option.map_eq_some_iff.1 h
    obtain ⟨rfl, rfl⟩ := Prod.mk.inj he
    obtain ⟨rfl, hsize⟩ := ih hcut
    refine ⟨rfl, ?_⟩
    rw [size_cons, hsize]
    omega
  | case4 => exact absurd h (by simp)

theorem isBoundary_iff_cut? : IsBoundary t offset ↔ (cut? offset t).isSome = true := by
  constructor
  · rintro ⟨before, after, rfl, rfl⟩
    rw [cut?_size]
    rfl
  · intro h
    obtain ⟨⟨before, after⟩, hcut⟩ := Option.isSome_iff_exists.1 h
    obtain ⟨ht, hsize⟩ := eq_of_cut? hcut
    exact ⟨before, after, ht, hsize⟩

instance (t : Text) (offset : Nat) : Decidable (IsBoundary t offset) :=
  decidable_of_iff _ isBoundary_iff_cut?.symm

theorem fromOffset_append (before after : Text) :
    fromOffset (size before) (before ++ after) = after := by
  induction before with
  | nil => rw [size_nil, List.nil_append, fromOffset]
  | cons c before ih =>
    -- no character is empty
    obtain ⟨k, hk⟩ : ∃ k, c.utf8Size + size before = k + 1 :=
      ⟨c.utf8Size + size before - 1, by have := c.utf8Size_pos; omega⟩
    rw [size_cons, List.cons_append, hk, fromOffset, ← hk, Nat.add_sub_cancel_left, ih]

theorem fromOffset_end (t : Text) : fromOffset (size t) t = [] := by
  have h := fromOffset_append t []
  rwa [List.append_nil] at h

end Parlance.Text
