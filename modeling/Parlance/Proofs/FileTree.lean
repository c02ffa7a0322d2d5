import Mathlib.Data.List.Basic
import Parlance.FileTree.Basic

/-!
What operations on files leave as it is. A place of a tree is the list of the names that lead to it
from the outermost folder. Making folders changes no file, and writing a text changes the one file
that the path names; folders stay folders, so that a path which led somewhere still leads there.
-/

namespace Parlance

/-- Steps that may fail are all done if the last one is. -/
theorem bind_eq_ok {ε α β : Type} {x : Except ε α} {f : α → Except ε β} {b : β} :
    x >>= f = .ok b ↔ ∃ a, x = .ok a ∧ f a = .ok b := by
  cases x with
  | error e => exact ⟨fun h => absurd h (by simp [bind, Except.bind]), by simp⟩
  | ok a => simp [bind, Except.bind]

namespace FileNode

/-! ## 1. Places of a node -/

/-- What the file at a place holds, if a file stands there. -/
def content? (root : FileNode) (place : List Text) : Option Content :=
  match root.get place with
  | .ok (.file content) => some content
  | _ => none

/-- A folder stands at a place. -/
def HasFolder (root : FileNode) (place : List Text) : Prop :=
  ∃ entries, root.get place = .ok (.folder entries)

variable {root new : FileNode} {p q : List Text}

theorem content?_eq_some {c : Content} :
    root.content? p = some c ↔ root.get p = .ok (.file c) := by
  unfold content?
  split
  next content h => rw [h, Option.some.injEq, Except.ok.injEq, file.injEq]
  next h => exact ⟨fun hc => absurd hc (by simp), fun hc => absurd hc (h c)⟩

theorem content?_congr {a b : FileNode} (h : a.get p = b.get q) : a.content? p = b.content? q := by
  unfold content?
  rw [h]

theorem content?_error {e : FileError} (h : root.get p = .error e) : root.content? p = none := by
  unfold content?
  rw [h]

theorem content?_folder {entries : List (Text × FileNode)}
    (h : root.get p = .ok (.folder entries)) : root.content? p = none := by
  unfold content?
  rw [h]

theorem get_append (root : FileNode) (p s : List Text) :
    root.get (p ++ s) = (root.get p).bind fun node => node.get s := by
  induction p generalizing root with
  | nil => cases root <;> rfl
  | cons name p ih =>
    cases root with
    | file content => rfl
    | folder entries =>
      rw [List.cons_append, get, get]
      cases entries.lookup name with
      | none => rfl
      | some node => exact ih node

theorem get_file (content : Content) {s : List Text} (hs : s ≠ []) :
    (file content).get s = .error .notAFolder := by
  cases s with
  | nil => exact absurd rfl hs
  | cons name s => rfl

theorem get_empty {s : List Text} (hs : s ≠ []) : empty.get s = .error .notFound := by
  cases s with
  | nil => exact absurd rfl hs
  | cons name s => rfl

/-! ## 2. Putting a node at a place -/

theorem lookup_putEntry_self (name : Text) (node : FileNode) (entries : List (Text × FileNode)) :
    (putEntry name node entries).lookup name = some node := by
  induction entries with
  | nil => rw [putEntry, List.lookup_cons_self]
  | cons entry entries ih =>
    rw [putEntry]
    by_cases h : entry.1 = name
    · rw [if_pos h, h, List.lookup_cons_self]
    · rw [if_neg h, List.lookup_cons, beq_false_of_ne (Ne.symm h)]
      exact ih

theorem lookup_putEntry_of_ne {name other : Text} (hne : other ≠ name) (node : FileNode)
    (entries : List (Text × FileNode)) :
    (putEntry name node entries).lookup other = entries.lookup other := by
  induction entries with
  | nil => rw [putEntry, List.lookup_cons, beq_false_of_ne hne]
  | cons entry entries ih =>
    rw [putEntry]
    by_cases h : entry.1 = name
    · rw [if_pos h, List.lookup_cons, List.lookup_cons, h, beq_false_of_ne hne]
    · rw [if_neg h, List.lookup_cons, List.lookup_cons, ih]

/-- Under the place, unless a file stands in the way, there is what was put there. -/
theorem get_put_append (h : root.get p ≠ .error .notAFolder) (s : List Text) :
    (root.put new p).get (p ++ s) = new.get s := by
  induction p generalizing root with
  | nil => rfl
  | cons name p ih =>
    cases root with
    | file content => exact absurd rfl h
    | folder entries =>
      rw [put, List.cons_append, get, lookup_putEntry_self]
      refine ih ?_
      rw [get] at h
      cases hnode : entries.lookup name with
      | some node => rwa [hnode] at h
      | none =>
        -- nothing stands there, so a folder is made for the next name
        cases p <;> exact fun hempty => absurd hempty (by simp [get, empty])

theorem get_put_self (h : root.get p ≠ .error .notAFolder) :
    (root.put new p).get p = .ok new := by
  have hget : (root.put new p).get (p ++ []) = new.get [] := get_put_append h []
  rw [List.append_nil] at hget
  rw [hget]
  cases new <;> rfl

/-- Away from the place there is what stood there, or one of the folders around the place where
no file stood. -/
theorem get_put_of_not_prefix (root new : FileNode) (hq : ¬p <+: q) :
    (root.put new p).get q = root.get q ∨
      (root.put new p).HasFolder q ∧ root.content? q = none := by
  induction p generalizing root q with
  | nil => exact absurd List.nil_prefix hq
  | cons name p ih =>
    cases root with
    | file content => exact .inl rfl
    | folder entries =>
      cases q with
      | nil => exact .inr ⟨⟨_, rfl⟩, rfl⟩
      | cons other q =>
        unfold HasFolder content?
        rw [put, get, get]
        -- the folder itself stays, so only what its entry holds may differ
        by_cases hname : other = name
        · subst hname
          have hput := ih ((entries.lookup other).getD empty)
            fun h => hq (List.cons_prefix_cons.2 ⟨rfl, h⟩)
          rw [lookup_putEntry_self]
          cases hnode : entries.lookup other with
          | some node => rwa [hnode] at hput
          | none =>
            -- nothing stood there, and a folder is made for the names that follow
            rw [hnode] at hput
            obtain hsame | hfolder := hput
            · by_cases hnil : q = []
              · subst hnil
                exact .inr ⟨⟨[], hsame⟩, rfl⟩
              · exact .inl (hsame.trans (get_empty hnil))
            · exact .inr ⟨hfolder.1, rfl⟩
        · rw [lookup_putEntry_of_ne hname]
          exact .inl rfl

theorem content?_put_of_not_prefix (hq : ¬p <+: q) :
    (root.put new p).content? q = root.content? q := by
  obtain hsame | ⟨⟨entries, hfolder⟩, hnone⟩ := get_put_of_not_prefix root new hq
  · exact content?_congr hsame
  · rw [hnone, content?_folder hfolder]

theorem HasFolder.put_of_not_prefix (h : root.HasFolder q) (hq : ¬p <+: q) :
    (root.put new p).HasFolder q := by
  obtain hsame | hfolder := get_put_of_not_prefix root new hq
  · obtain ⟨entries, hget⟩ := h
    exact ⟨entries, hsame.trans hget⟩
  · exact hfolder.1

/-- Nothing stands under a place without a folder. -/
theorem not_hasFolder_of_prefix (hp : ¬root.HasFolder p) (hpq : p <+: q) : ¬root.HasFolder q := by
  obtain ⟨s, rfl⟩ := hpq
  rintro ⟨entries, hget⟩
  rw [get_append] at hget
  cases hnode : root.get p with
  | error e => rw [hnode] at hget; exact absurd hget (by simp [Except.bind])
  | ok node =>
    cases node with
    | folder inner => exact hp ⟨inner, hnode⟩
    | file content =>
      rw [hnode] at hget
      cases s <;> exact absurd hget (by simp [Except.bind, get])

theorem HasFolder.put (h : root.HasFolder q) (hp : ¬root.HasFolder p) :
    (root.put new p).HasFolder q :=
  h.put_of_not_prefix fun hpq => not_hasFolder_of_prefix hp hpq h

/-! ## 3. A file or an empty folder at a place where there is no folder -/

/-- A file can be put at a place: nothing stands there, or another file does. -/
def HasRoom (root : FileNode) (place : List Text) : Prop :=
  root.get place = .error .notFound ∨ ∃ old, root.get place = .ok (.file old)

theorem HasRoom.way (h : root.HasRoom p) : root.get p ≠ .error .notAFolder := by
  obtain h | ⟨old, h⟩ := h <;> rw [h] <;> simp

theorem HasRoom.not_hasFolder (h : root.HasRoom p) : ¬root.HasFolder p := by
  rintro ⟨entries, hentries⟩
  obtain h | ⟨old, h⟩ := h <;> rw [h] at hentries <;> exact absurd hentries (by simp)

theorem content?_put_empty (h : root.get p = .error .notFound) (q : List Text) :
    (root.put empty p).content? q = root.content? q := by
  by_cases hpq : p <+: q
  · obtain ⟨s, rfl⟩ := hpq
    have hold : root.get (p ++ s) = .error .notFound := by
      rw [get_append, h]
      rfl
    have hput : (root.put empty p).get (p ++ s) = empty.get s :=
      get_put_append (HasRoom.way (.inl h)) s
    rw [content?_error hold]
    by_cases hs : s = []
    · rw [hs] at hput ⊢
      exact content?_folder hput
    · exact content?_error (hput.trans (get_empty hs))
  · exact content?_put_of_not_prefix hpq

/-- A file that is written changes no other. -/
theorem content?_put_file {c : Content} (h : root.HasRoom p) (hq : q ≠ p) :
    (root.put (.file c) p).content? q = root.content? q := by
  by_cases hpq : p <+: q
  · obtain ⟨s, rfl⟩ := hpq
    have hs : s ≠ [] := fun hs => hq (by rw [hs, List.append_nil])
    have hput : (root.put (.file c) p).get (p ++ s) = (file c).get s := get_put_append h.way s
    have hold : root.content? (p ++ s) = none := by
      obtain h | ⟨old, h⟩ := h
      · exact content?_error (by rw [get_append, h]; rfl)
      · exact content?_error (by rw [get_append, h]; exact get_file old hs)
    rw [hold]
    exact content?_error (hput.trans (get_file c hs))
  · exact content?_put_of_not_prefix hpq

end FileNode

namespace FileTree

variable {t u v : FileTree}

/-! ## 4. Paths -/

/-- A path that is not written as that of a folder has no slash to take from its end. -/
theorem reverse_dropWhile_slash {path : Text} (h : ¬Path.endsWithSlash path = true) :
    (path.reverse.dropWhile (· = '/')).reverse = path := by
  unfold Path.endsWithSlash at h
  rw [List.getLast?_eq_head?_reverse] at h
  cases hrev : path.reverse with
  | nil => rw [← List.reverse_reverse path, hrev]; rfl
  | cons c rest =>
    rw [hrev, List.head?_cons, decide_eq_true_eq, Option.some.injEq] at h
    rw [List.dropWhile_cons_of_neg (by simpa using h), ← hrev, List.reverse_reverse]

/-- Parts that lead somewhere lead there in every tree with the same folders. -/
theorem follow_of_hasFolder (h : ∀ q, t.root.HasFolder q → u.root.HasFolder q)
    {folder parts place : List Text} (hplace : t.follow folder parts = .ok place) :
    u.follow folder parts = .ok place := by
  induction parts generalizing folder with
  | nil => exact hplace
  | cons part parts ih =>
    rw [follow] at hplace ⊢
    cases hget : t.root.get folder with
    | error e => rw [hget] at hplace; exact absurd hplace (by simp)
    | ok node =>
      rw [hget] at hplace
      cases node with
      | file content => exact absurd hplace (by simp)
      | folder entries =>
        obtain ⟨entries', hget'⟩ := h folder ⟨entries, hget⟩
        rw [hget']
        dsimp only at hplace ⊢
        split_ifs at hplace ⊢ <;> exact ih hplace

/-! ## 5. Operations -/

/-- What the file at a place holds, if a file stands there. -/
def content? (t : FileTree) (place : List Text) : Option Content := t.root.content? place

theorem exists_of_makeFolder {path : Text} (h : t.makeFolder path = .ok u) :
    ∃ place, t.root.get place = .error .notFound ∧ u = t.put place .empty := by
  obtain ⟨place, -, h⟩ := bind_eq_ok.1 h
  refine ⟨place, ?_⟩
  split at h
  next hget => exact ⟨hget, (Except.ok.inj h).symm⟩
  next => exact absurd h (by simp [throw, throwThe, MonadExceptOf.throw])
  next => exact absurd h (by simp [throw, throwThe, MonadExceptOf.throw])

/-- A text is written to the place that the path names, where no folder stands. -/
theorem exists_of_writeText {path contents : Text} (h : t.writeText path contents = .ok u) :
    ∃ place, t.names path = .ok place ∧ t.root.HasRoom place ∧
      u = t.put place (.file (.text contents)) := by
  obtain ⟨place, hplace, h⟩ := bind_eq_ok.1 h
  dsimp only at h
  split at h
  next => exact absurd h (by simp [bind, Except.bind, throw, throwThe, MonadExceptOf.throw])
  next hslash =>
    rw [reverse_dropWhile_slash hslash] at hplace
    refine ⟨place, hplace, ?_⟩
    split at h
    next hget => exact ⟨.inl hget, (Except.ok.inj h).symm⟩
    next old hget => exact ⟨.inr ⟨old, hget⟩, (Except.ok.inj h).symm⟩
    next => exact absurd h (by simp [throw, throwThe, MonadExceptOf.throw])
    next => exact absurd h (by simp [throw, throwThe, MonadExceptOf.throw])

theorem content?_makeFolder {path : Text} (h : t.makeFolder path = .ok u) (q : List Text) :
    u.content? q = t.content? q := by
  obtain ⟨place, hget, rfl⟩ := exists_of_makeFolder h
  exact FileNode.content?_put_empty hget q

/-- A folder may also be there already. -/
theorem content?_makeFolder_or (path : Text)
    (h : (match t.makeFolder path with
      | .ok made => Except.ok made
      | .error e => if t.hasFolder path then .ok t else .error e) = .ok u) (q : List Text) :
    u.content? q = t.content? q := by
  split at h
  next made hmade =>
    rw [← Except.ok.inj h]
    exact content?_makeFolder hmade q
  next =>
    split at h
    · rw [← Except.ok.inj h]
    · exact absurd h (by simp)

theorem content?_makeFolders {depth : Nat} {path : Text} (h : makeFolders depth t path = .ok u)
    (q : List Text) : u.content? q = t.content? q := by
  induction depth generalizing t u path with
  | zero => rw [← Except.ok.inj h]
  | succ depth ih =>
    rw [makeFolders] at h
    split at h
    next made hmade =>
      rw [← Except.ok.inj h]
      exact content?_makeFolder hmade q
    next =>
      -- the folder around is made first, if the path tells it
      dsimp only at h
      split at h
      · obtain ⟨made, hmade, h⟩ := bind_eq_ok.1 h
        exact (content?_makeFolder_or path h q).trans (ih hmade)
      · exact content?_makeFolder_or path h q
    -- the folder is there already, or none can be made
    next e _ herror =>
      refine content?_makeFolder_or path ?_ q
      rwa [herror]

theorem content?_makeParent {path : Text} (h : t.makeParent path = .ok u) (q : List Text) :
    u.content? q = t.content? q := by
  unfold makeParent at h
  split at h
  · exact content?_makeFolders h q
  · rw [← Except.ok.inj h]

/-- The tree `u` is the tree `t` with a text in the file that the path names. It may have more
folders. -/
def Writes (t : FileTree) (path contents : Text) (u : FileTree) : Prop :=
  ∃ place, u.names path = .ok place ∧ u.content? place = some (.text contents) ∧
    ∀ other, other ≠ place → u.content? other = t.content? other

theorem writes_writeText {path contents : Text} (h : t.writeText path contents = .ok u) :
    t.Writes path contents u := by
  obtain ⟨place, hplace, hroom, rfl⟩ := exists_of_writeText h
  refine ⟨place, ?_, ?_, fun other => FileNode.content?_put_file hroom⟩
  · -- the folders on the way are still there
    unfold names at hplace ⊢
    split at hplace
    · exact absurd hplace (by simp)
    · next hne =>
      rw [if_neg hne]
      exact follow_of_hasFolder (fun q hq => hq.put hroom.not_hasFolder) hplace
  · exact FileNode.content?_eq_some.2 (FileNode.get_put_self hroom.way)

/-- A file may be written after the folders around it have been made. -/
theorem writes_makeParent {path contents : Text} (hmade : t.makeParent path = .ok u)
    (hwritten : u.writeText path contents = .ok v) : t.Writes path contents v := by
  obtain ⟨place, hplace, hcontent, hother⟩ := writes_writeText hwritten
  exact ⟨place, hplace, hcontent,
    fun other hne => (hother other hne).trans (content?_makeParent hmade other)⟩

/-- What was written is what is read. -/
theorem Writes.readText {path contents : Text} (h : t.Writes path contents u) :
    u.readText path = .ok contents := by
  obtain ⟨place, hplace, hcontent, -⟩ := h
  have hget := FileNode.content?_eq_some.1 hcontent
  unfold FileTree.readText find
  rw [hplace]
  simp only [bind, Except.bind, hget]
  rfl

end FileTree

end Parlance
