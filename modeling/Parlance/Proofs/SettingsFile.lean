import Parlance.CommandLine.Run
import Parlance.Proofs.FileTree
import Parlance.Proofs.TomlLines

/-!
Settings and their file. A file that holds some of the keys of saved settings, in any order, gives
these settings back where it has their keys and the defaults elsewhere; so the file with all of them,
which is the one that is saved, gives the settings themselves.
-/

namespace Parlance

open TomlValue (Fields)

/-! ## 1. Keys -/

/-- The groups of the settings, which are the tables of their file. -/
inductive SettingGroup where
  | frameworks
  | codeStyle
deriving DecidableEq, Repr

/-- The settings that a file can hold. -/
inductive SettingKey where
  | defaultSource
  | defaultTarget
  | indentation
  | quoteStyle
  | emitHeader
deriving DecidableEq, Repr

def SettingGroup.name : SettingGroup → Text
  | .frameworks => "frameworks"
  | .codeStyle => "code_style"

namespace SettingKey

def group : SettingKey → SettingGroup
  | .defaultSource | .defaultTarget => .frameworks
  | .indentation | .quoteStyle | .emitHeader => .codeStyle

def name : SettingKey → Text
  | .defaultSource => "default_source"
  | .defaultTarget => "default_target"
  | .indentation => "indentation"
  | .quoteStyle => "quote_style"
  | .emitHeader => "emit_header"

end SettingKey

theorem SettingGroup.name_injective {g h : SettingGroup} (heq : g.name = h.name) : g = h := by
  cases g <;> cases h <;> first | rfl | exact absurd heq (by decide)

theorem SettingKey.name_injective {k l : SettingKey} (heq : k.name = l.name) : k = l := by
  cases k <;> cases l <;> first | rfl | exact absurd heq (by decide)

theorem SettingGroup.isName (g : SettingGroup) : Toml.IsName g.name := by
  cases g <;> exact ⟨by decide, List.all_eq_true.1 rfl⟩

theorem SettingKey.isName (k : SettingKey) : Toml.IsName k.name := by
  cases k <;> exact ⟨by decide, List.all_eq_true.1 rfl⟩

namespace Settings

/-- The value that is saved for a setting; none for a source vocabulary that is not set. -/
def saved? (s : Settings) : SettingKey → Option Toml.Scalar
  | .defaultSource => s.defaultSource.map fun f => .string f.name
  | .defaultTarget => some (.string s.defaultTarget.name)
  | .indentation => some (.string s.indentation)
  | .quoteStyle => some (.string s.quoteStyle)
  | .emitHeader => some (.boolean s.emitHeader)

/-- The settings with the defaults for all that is not kept. -/
def keeping (s : Settings) (kept : SettingKey → Bool) : Settings :=
  let defaults : Settings := {}
  { defaultSource := if kept .defaultSource then s.defaultSource else defaults.defaultSource
    defaultTarget := if kept .defaultTarget then s.defaultTarget else defaults.defaultTarget
    indentation := if kept .indentation then s.indentation else defaults.indentation
    quoteStyle := if kept .quoteStyle then s.quoteStyle else defaults.quoteStyle
    emitHeader := if kept .emitHeader then s.emitHeader else defaults.emitHeader }

theorem keeping_all (s : Settings) : s.keeping (fun _ => true) = s := rfl

/-! ## 2. Reading the fields of a file -/

def valueIn? (fields : Fields) (k : SettingKey) : Option TomlValue :=
  match fields.lookup k.group.name with
  | some (.table _ inner) => inner.lookup k.name
  | _ => none

/-- A file has the saved values of the settings that are kept, and none of the others. It may have
more. -/
structure KeptIn (s : Settings) (kept : SettingKey → Bool) (fields : Fields) : Prop where
  tables : ∀ (g : SettingGroup) value, fields.lookup g.name = some value →
    ∃ origin inner, value = .table origin inner
  values : ∀ k, valueIn? fields k = if kept k then (s.saved? k).map Toml.Scalar.value else none

variable {s : Settings} {kept : SettingKey → Bool} {fields : Fields}

theorem exists_groupIn (h : s.KeptIn kept fields) (g : SettingGroup) (keys : List Text) :
    ∃ inner, groupIn fields g.name keys = some inner ∧
      ∀ k : SettingKey, k.group = g →
        inner.lookup k.name = if kept k then (s.saved? k).map Toml.Scalar.value else none := by
  unfold groupIn field
  cases hg : fields.lookup g.name with
  | none =>
    refine ⟨[], rfl, ?_⟩
    rintro k rfl
    rw [← h.values k, valueIn?, hg]
    rfl
  | some value =>
    obtain ⟨origin, inner, rfl⟩ := h.tables g value hg
    refine ⟨inner, rfl, ?_⟩
    rintro k rfl
    rw [← h.values k, valueIn?, hg]

/-- A value that is kept is read, and for one that is not there is the default. -/
theorem field_kept {α : Type} {inner : Fields} {key : Text} {read? : TomlValue → Option α}
    {x : α} {isKept : Bool} {v : TomlValue}
    (hlookup : inner.lookup key = if isKept then some v else none) (hread : read? v = some x)
    (default : α) : field inner key read? default = some (if isKept then x else default) := by
  unfold field
  rw [hlookup]
  cases isKept with
  | false => rfl
  | true => exact hread

theorem framework?_name (f : Framework) : framework? (.string f.name) = some f := by
  cases f <;> rfl

theorem text?_string (t : Text) : text? (.string t) = some t := rfl

theorem bool?_boolean (b : Bool) : bool? (.boolean b) = some b := rfl

/-- A source vocabulary that is not set is its own default. -/
theorem field_source {inner : Fields} {key : Text} {source : Option Framework} {isKept : Bool}
    (hlookup : inner.lookup key =
      if isKept then source.map fun f => TomlValue.string f.name else none) :
    field inner key (fun v => (framework? v).map some) none =
      some (if isKept then source else none) := by
  cases source with
  | some f => exact field_kept hlookup (congrArg (Option.map some) (framework?_name f)) none
  | none =>
    -- kept or not, the file has no such key
    have hnone : inner.lookup key = none := by
      rw [hlookup]
      cases isKept <;> rfl
    unfold field
    rw [hnone]
    cases isKept <;> rfl

/-- What is kept in a file is read from it, and the rest has its defaults. -/
theorem ofFields_of_keptIn (h : s.KeptIn kept fields) : ofFields fields = some (s.keeping kept) := by
  obtain ⟨frameworks, hframeworks, hf⟩ :=
    exists_groupIn h .frameworks ["default_source", "default_target"]
  obtain ⟨codeStyle, hcodeStyle, hc⟩ :=
    exists_groupIn h .codeStyle ["indentation", "quote_style", "emit_header"]
  have hsource := hf .defaultSource rfl
  rw [saved?, Option.map_map] at hsource
  unfold ofFields
  -- both groups and then the five fields, in the order in which they are asked for
  refine Option.bind_eq_some_iff.2 ⟨_, hframeworks, ?_⟩
  refine Option.bind_eq_some_iff.2 ⟨_, hcodeStyle, ?_⟩
  refine Option.bind_eq_some_iff.2 ⟨_, field_source hsource, ?_⟩
  refine Option.bind_eq_some_iff.2
    ⟨_, field_kept (hf .defaultTarget rfl) (framework?_name _) _, ?_⟩
  refine Option.bind_eq_some_iff.2 ⟨_, field_kept (hc .indentation rfl) (text?_string _) _, ?_⟩
  refine Option.bind_eq_some_iff.2 ⟨_, field_kept (hc .quoteStyle rfl) (text?_string _) _, ?_⟩
  exact Option.bind_eq_some_iff.2 ⟨_, field_kept (hc .emitHeader rfl) (bool?_boolean _) _, rfl⟩

/-! ## 3. Files with some of the keys -/

end Settings

/-- An order of groups and of keys. A file in this order has the given groups, and in each of them
those of the given keys that belong to it. -/
structure SettingsLayout where
  groups : List SettingGroup
  keys : List SettingKey
  nodup_groups : groups.Nodup
  nodup_keys : keys.Nodup

namespace SettingsLayout

/-- The order in which settings are saved. -/
def whole : SettingsLayout where
  groups := [.frameworks, .codeStyle]
  keys := [.defaultSource, .defaultTarget, .indentation, .quoteStyle, .emitHeader]
  nodup_groups := by decide
  nodup_keys := by decide

def has (l : SettingsLayout) (k : SettingKey) : Bool := l.groups.contains k.group && l.keys.contains k

/-- The keys of a group, in order. -/
def keysOf (l : SettingsLayout) (g : SettingGroup) : List SettingKey :=
  l.keys.filter fun k => k.group = g

end SettingsLayout

namespace Settings

/-- The line of a key; none if no value is saved for it. -/
def line (s : Settings) (k : SettingKey) : Text :=
  ((s.saved? k).map fun v => entry k.name v.written).getD []

def groupText (s : Settings) (g : SettingGroup) (keys : List SettingKey) : Text :=
  '[' :: (g.name ++ ']' :: '\n' :: keys.flatMap s.line)

/-- The text of a file in a given order, with an empty line between groups. -/
def textIn (s : Settings) (l : SettingsLayout) : Text :=
  Text.join ['\n'] (l.groups.map fun g => s.groupText g (l.keysOf g))

theorem toText_eq (s : Settings) : s.toText = s.textIn .whole := by
  have hframeworks : SettingsLayout.whole.keysOf .frameworks = [.defaultSource, .defaultTarget] := by
    decide
  have hcodeStyle :
      SettingsLayout.whole.keysOf .codeStyle = [.indentation, .quoteStyle, .emitHeader] := by
    decide
  have hsource : (s.defaultSource.map fun f => entry "default_source" (Toml.quoted f.name)).getD [] =
      s.line .defaultSource := by
    rw [line, saved?, Option.map_map]
    rfl
  have htarget : entry "default_target" (Toml.quoted s.defaultTarget.name) =
      s.line .defaultTarget := rfl
  have hindentation : entry "indentation" (Toml.quoted s.indentation) = s.line .indentation := rfl
  have hquote : entry "quote_style" (Toml.quoted s.quoteStyle) = s.line .quoteStyle := rfl
  have hheader : entry "emit_header" (if s.emitHeader then "true" else "false") =
      s.line .emitHeader := rfl
  have htext : s.textIn .whole =
      s.groupText .frameworks [.defaultSource, .defaultTarget] ++ ['\n'] ++
        s.groupText .codeStyle [.indentation, .quoteStyle, .emitHeader] := by
    rw [textIn, Text.join, ← hframeworks, ← hcodeStyle]
    exact List.intercalate_cons_cons.trans (congrArg _ List.intercalate_singleton)
  rw [htext]
  unfold toText groupText
  rw [hsource, htarget, hindentation, hquote, hheader]
  simp only [List.flatMap_cons, List.flatMap_nil, List.append_assoc, List.cons_append,
    List.append_nil]
  rfl

def fieldsOf (s : Settings) (keys : List SettingKey) : Fields :=
  keys.filterMap fun k => (s.saved? k).map fun v => (k.name, v.value)

/-- What is read of a file in a given order. -/
def fieldsIn (s : Settings) (l : SettingsLayout) : Fields :=
  l.groups.map fun g => (g.name, .table .header (s.fieldsOf (l.keysOf g)))

theorem lookup_fieldsOf (s : Settings) (keys : List SettingKey) (k : SettingKey) :
    (s.fieldsOf keys).lookup k.name =
      if keys.contains k then (s.saved? k).map Toml.Scalar.value else none := by
  unfold fieldsOf
  induction keys with
  | nil => rfl
  | cons l keys ih =>
    rw [List.filterMap_cons, List.contains_cons]
    by_cases hkl : k = l
    · subst hkl
      cases hs : s.saved? k with
      | none =>
        rw [hs] at ih
        simpa using ih
      | some v => simp
    -- different settings have different names
    · have hname : k.name ≠ l.name := fun h => hkl (SettingKey.name_injective h)
      rw [beq_false_of_ne hkl, Bool.false_or]
      cases s.saved? l with
      | none => exact ih
      | some v =>
        rw [Option.map_some, List.lookup_cons, beq_false_of_ne hname]
        exact ih

theorem lookup_map_groups (groups : List SettingGroup) (value : SettingGroup → TomlValue)
    (g : SettingGroup) :
    (groups.map fun h => (h.name, value h)).lookup g.name =
      if groups.contains g then some (value g) else none := by
  induction groups with
  | nil => rfl
  | cons h groups ih =>
    rw [List.map_cons, List.lookup_cons, List.contains_cons]
    by_cases hgh : g = h
    · rw [hgh, beq_self_eq_true, beq_self_eq_true]
      rfl
    · have hname : g.name ≠ h.name := fun heq => hgh (SettingGroup.name_injective heq)
      rw [beq_false_of_ne hgh, beq_false_of_ne hname, Bool.false_or]
      exact ih

theorem keptIn_fieldsIn (s : Settings) (l : SettingsLayout) : s.KeptIn l.has (s.fieldsIn l) where
  tables := by
    intro g value hvalue
    rw [fieldsIn, lookup_map_groups] at hvalue
    split at hvalue
    · exact ⟨_, _, (Option.some.inj hvalue).symm⟩
    · exact absurd hvalue (by simp)
  values := by
    intro k
    rw [valueIn?, fieldsIn, lookup_map_groups, SettingsLayout.has]
    cases hgroup : l.groups.contains k.group with
    | false => rfl
    | true =>
      have hkeys : (l.keysOf k.group).contains k = l.keys.contains k := by
        simp [SettingsLayout.keysOf]
      rw [if_pos rfl, Bool.true_and, ← hkeys]
      exact lookup_fieldsOf s _ k

/-! ## 4. Reading such a file -/

open Toml (Reads)

variable {s : Settings} {done inner result : Fields} {t : Text} {header : List Text}
  {g : SettingGroup}

theorem lookup_append_of_ne {key other : Text} (hinner : inner.lookup other = none)
    (hne : other ≠ key) (value : TomlValue) : (inner ++ [(key, value)]).lookup other = none := by
  rw [List.lookup_append, hinner, List.lookup_cons, beq_false_of_ne hne]
  rfl

theorem reads_keys {keys : List SettingKey} (hdone : done.lookup g.name = none)
    (hinner : ∀ k ∈ keys, inner.lookup k.name = none) (hnodup : keys.Nodup)
    (h : Reads [g.name] (done ++ [(g.name, .table .header (inner ++ s.fieldsOf keys))]) t result) :
    Reads [g.name] (done ++ [(g.name, .table .header inner)]) (keys.flatMap s.line ++ t) result := by
  induction keys generalizing inner with
  | nil => rwa [fieldsOf, List.filterMap_nil, List.append_nil] at h
  | cons k keys ih =>
    -- the name of this key is new, and so are those of the keys behind it after it has been read
    obtain ⟨hk, hnodup⟩ := List.nodup_cons.1 hnodup
    have hrest : ∀ l ∈ keys, inner.lookup l.name = none :=
      fun l hl => hinner l (List.mem_cons_of_mem k hl)
    rw [fieldsOf, List.filterMap_cons] at h
    rw [List.flatMap_cons, List.append_assoc, line]
    cases hs : s.saved? k with
    | none =>
      rw [hs] at h
      exact ih hrest hnodup h
    | some v =>
      rw [hs] at h
      have hline : entry k.name v.written ++ (keys.flatMap s.line ++ t) =
          k.name ++ ' ' :: '=' :: ' ' :: (v.written ++ '\n' :: (keys.flatMap s.line ++ t)) := by
        simp [entry]
      rw [Option.map_some, Option.getD_some, hline]
      refine Toml.reads_entry k.isName hdone (hinner k List.mem_cons_self) v (ih ?_ hnodup ?_)
      · intro l hl
        -- no later key has the name of this one
        refine lookup_append_of_ne (hrest l hl) (fun heq => hk ?_) _
        exact SettingKey.name_injective heq ▸ hl
      · rwa [List.append_assoc]

theorem reads_groupText {keys : List SettingKey} (hdone : done.lookup g.name = none)
    (hnodup : keys.Nodup)
    (h : Reads [g.name] (done ++ [(g.name, .table .header (s.fieldsOf keys))]) t result) :
    Reads header done (s.groupText g keys ++ t) result := by
  have htext : s.groupText g keys ++ t =
      '[' :: (g.name ++ ']' :: '\n' :: (keys.flatMap s.line ++ t)) := by
    simp [groupText]
  rw [htext]
  exact Toml.reads_header g.isName hdone (reads_keys hdone (fun _ _ => rfl) hnodup h)

theorem exists_join (s : Settings) (g : SettingGroup) (keys : List SettingKey)
    (rest : List Text) : ∃ t, Text.join ['\n'] (s.groupText g keys :: rest) = '[' :: t := by
  unfold Text.join
  cases rest with
  | nil => exact ⟨_, List.intercalate_singleton⟩
  | cons u rest => exact ⟨_, List.intercalate_cons_cons⟩

theorem reads_groups (keys : SettingGroup → List SettingKey) (hkeys : ∀ g, (keys g).Nodup)
    {groups : List SettingGroup} (hdone : ∀ g ∈ groups, done.lookup g.name = none)
    (hnodup : groups.Nodup) :
    Reads header done (Text.join ['\n'] (groups.map fun g => s.groupText g (keys g)))
      (done ++ groups.map fun g => (g.name, .table .header (s.fieldsOf (keys g)))) := by
  induction groups generalizing done header with
  | nil =>
    rw [List.map_nil, List.map_nil, List.append_nil]
    exact Toml.reads_end
  | cons g groups ih =>
    obtain ⟨hg, hnodup⟩ := List.nodup_cons.1 hnodup
    have hgroup := hdone g List.mem_cons_self
    have hread := @ih (done ++ [(g.name, .table .header (s.fieldsOf (keys g)))]) [g.name]
      (fun h hh => lookup_append_of_ne (hdone h (List.mem_cons_of_mem g hh))
        (fun heq => hg ((SettingGroup.name_injective heq : h = g) ▸ hh)) _) hnodup
    rw [List.append_assoc, List.singleton_append] at hread
    rw [List.map_cons, List.map_cons]
    cases groups with
    | nil =>
      rw [List.map_nil, Text.join, List.intercalate_singleton]
      rw [← List.append_nil (s.groupText g (keys g))]
      exact reads_groupText hgroup (hkeys g) hread
    | cons g' groups =>
      -- the empty line between two groups is followed by the bracket of a header
      rw [List.map_cons, Text.join, List.intercalate_cons_cons, List.append_assoc]
      refine reads_groupText hgroup (hkeys g) ?_
      rw [List.map_cons] at hread
      obtain ⟨t, ht⟩ := s.exists_join g' (keys g') (groups.map fun g => s.groupText g (keys g))
      rw [ht] at hread
      rw [Text.join] at ht
      rw [ht]
      exact Toml.reads_blankLine hread

theorem read?_textIn (s : Settings) (l : SettingsLayout) :
    Toml.read? (s.textIn l) = some (s.fieldsIn l) := by
  have hread : Reads [] [] (s.textIn l) (s.fieldsIn l) :=
    reads_groups l.keysOf (fun g => l.nodup_keys.filter _) (fun g _ => rfl) l.nodup_groups
  have hmark : Toml.withoutMark (s.textIn l) = s.textIn l := by
    unfold textIn
    cases l.groups with
    | nil => rfl
    | cons g groups =>
      obtain ⟨t, ht⟩ := s.exists_join g (l.keysOf g) (groups.map fun g => s.groupText g (l.keysOf g))
      rw [List.map_cons, ht]
      rfl
  unfold Toml.read?
  dsimp only
  rw [hmark]
  exact hread _ (Nat.lt_succ_self _)

/-- A file with some of the keys gives the settings back where it has them. -/
theorem ofText?_textIn (s : Settings) (l : SettingsLayout) :
    ofText? (s.textIn l) = some (s.keeping l.has) := by
  unfold ofText?
  rw [read?_textIn]
  exact ofFields_of_keptIn (s.keptIn_fieldsIn l)

theorem ofText?_toText (s : Settings) : ofText? s.toText = some s := by
  have hall : SettingsLayout.whole.has = fun _ => true := by
    funext k
    cases k <;> rfl
  rw [toText_eq, ofText?_textIn, hall, keeping_all]

/-! ## 5. Saving and loading -/

theorem load_of_readText {tree : FileTree} {path : Text} (h : tree.readText path = .ok t)
    (hs : ofText? t = some s) : load tree path = .ok s := by
  have hpath : tree.hasPath path = true := by
    obtain ⟨node, hnode, -⟩ := bind_eq_ok.1 h
    unfold FileTree.hasPath
    rw [hnode]
  unfold load
  rw [hpath, h]
  dsimp only
  rw [hs]
  rfl

theorem writes_save {tree : FileTree} {path : Text} (h : (s.save tree path).2 = .ok ()) :
    tree.Writes path s.toText (s.save tree path).1 := by
  unfold save at h ⊢
  cases hmade : tree.makeParent path with
  | error cause =>
    rw [hmade] at h
    exact absurd h (by simp)
  | ok made =>
    rw [hmade] at h
    dsimp only at h ⊢
    cases hwritten : made.writeText path s.toText with
    | error cause =>
      rw [hwritten] at h
      exact absurd h (by simp)
    | ok written => exact FileTree.writes_makeParent hmade hwritten

end Settings

end Parlance
