import Mathlib.Data.List.Forall2
import Mathlib.Data.List.TakeWhile
import Parlance.FileTree.Scan
import Parlance.Proofs.FileTree

/-!
The sources of a tree of files. Under each path a scan finds every source exactly once, in the order
of a walk that takes the folders depth first and what they hold by name, and it finds nothing else. It
fails if and only if one of the paths names nothing.
-/

namespace Parlance

namespace FileNode

/-! ## 1. Names in a folder -/

/-- No folder of a node holds two things with one name. -/
inductive HasDistinctNames : FileNode → Prop
  | file (content : Content) : HasDistinctNames (.file content)
  | folder {entries : List (Text × FileNode)} (hnames : (entries.map Prod.fst).Nodup)
      (hentries : ∀ entry ∈ entries, HasDistinctNames entry.2) :
      HasDistinctNames (.folder entries)

theorem lookup_eq_some_iff_mem {entries : List (Text × FileNode)}
    (h : (entries.map Prod.fst).Nodup) {name : Text} {node : FileNode} :
    entries.lookup name = some node ↔ (name, node) ∈ entries := by
  induction entries with
  | nil => simp
  | cons entry entries ih =>
    obtain ⟨other, first⟩ := entry
    rw [List.map_cons, List.nodup_cons] at h
    rw [List.lookup_cons, List.mem_cons, Prod.mk.injEq]
    by_cases hname : name = other
    · -- the name is that of the first entry, so no later one has it
      subst hname
      have hlater : (name, node) ∉ entries := fun hmem => h.1 (List.mem_map.2 ⟨_, hmem, rfl⟩)
      simp [hlater, eq_comm]
    · rw [beq_false_of_ne hname]
      simp [hname, ih h.2]

theorem mem_putEntry {name : Text} {node : FileNode} {entries : List (Text × FileNode)}
    {entry : Text × FileNode} (h : entry ∈ putEntry name node entries) :
    entry = (name, node) ∨ entry ∈ entries := by
  induction entries with
  | nil => exact .inl (List.mem_singleton.1 h)
  | cons first entries ih =>
    rw [putEntry] at h
    split at h
    next heq =>
      rcases List.mem_cons.1 h with h | h
      · exact .inl (heq ▸ h)
      · exact .inr (List.mem_cons_of_mem _ h)
    next =>
      rcases List.mem_cons.1 h with h | h
      · exact .inr (h ▸ List.mem_cons_self)
      · exact (ih h).imp_right (List.mem_cons_of_mem _)

theorem nodup_putEntry (name : Text) (node : FileNode) {entries : List (Text × FileNode)}
    (h : (entries.map Prod.fst).Nodup) : ((putEntry name node entries).map Prod.fst).Nodup := by
  induction entries with
  | nil => exact List.pairwise_singleton _ name
  | cons first entries ih =>
    rw [List.map_cons, List.nodup_cons] at h
    rw [putEntry]
    split
    · exact List.nodup_cons.2 h
    next hne =>
      refine List.nodup_cons.2 ⟨fun hmem => ?_, ih h.2⟩
      obtain ⟨entry, hentry, heq⟩ := List.mem_map.1 hmem
      rcases mem_putEntry hentry with rfl | hold
      · exact hne heq.symm
      · exact h.1 (List.mem_map.2 ⟨entry, hold, heq⟩)

theorem hasDistinctNames_empty : empty.HasDistinctNames :=
  .folder List.nodup_nil (by simp)

/-- What is put somewhere stands beside what was there under other names. -/
theorem HasDistinctNames.put {root new : FileNode} (h : root.HasDistinctNames)
    (hnew : new.HasDistinctNames) (place : List Text) :
    (root.put new place).HasDistinctNames := by
  induction place generalizing root with
  | nil => rwa [FileNode.put]
  | cons name place ih =>
    cases h with
    | file content => exact .file content
    | @folder entries hnames hentries =>
      -- what stands under the name, or a new folder
      have hinner : ((entries.lookup name).getD empty).HasDistinctNames := by
        cases hlookup : entries.lookup name with
        | none => exact hasDistinctNames_empty
        | some node => exact hentries _ ((lookup_eq_some_iff_mem hnames).1 hlookup)
      rw [FileNode.put]
      refine .folder (nodup_putEntry name _ hnames) fun entry hentry => ?_
      rcases mem_putEntry hentry with rfl | hold
      · exact ih hinner
      · exact hentries entry hold

theorem HasDistinctNames.get {root node : FileNode} (h : root.HasDistinctNames)
    {place : List Text} (hget : root.get place = .ok node) : node.HasDistinctNames := by
  induction place generalizing root with
  | nil =>
    have hroot : root.get [] = .ok root := by cases root <;> rfl
    exact Except.ok.inj (hroot.symm.trans hget) ▸ h
  | cons name place ih =>
    cases h with
    | file content => exact absurd hget (by simp [FileNode.get])
    | folder hnames hentries =>
      rw [FileNode.get] at hget
      split at hget
      next => exact absurd hget (by simp)
      next inner hlookup =>
        exact ih (hentries _ ((lookup_eq_some_iff_mem hnames).1 hlookup)) hget

/-- A tree that is made of files has distinct names in each folder. -/
theorem hasDistinctNames_ofFiles (files : List (Text × Option Content)) :
    (ofFiles files).HasDistinctNames := by
  refine List.foldlRecOn files _ hasDistinctNames_empty fun root h file _ => h.put ?_ _
  cases file.2 with
  | none => exact hasDistinctNames_empty
  | some content => exact .file content

/-! ## 2. The order of a walk -/

/-- Of two places the one comes first in a walk whose name comes first, character by character,
where the ways to them part. -/
def Earlier (p q : List Text) : Prop := List.Lex List.lt p q

theorem nameLe_iff {a b : Text} : nameLe a b = true ↔ List.le a b := by
  fun_induction nameLe a b with
  | case1 b => exact iff_of_true rfl (List.nil_le b)
  | case2 a s => exact iff_of_false (by decide) (List.not_le.2 (List.nil_lt_cons a s))
  | case3 a s b t ih =>
    rw [Bool.or_eq_true, Bool.and_eq_true, decide_eq_true_eq, decide_eq_true_eq, ih]
    exact List.cons_le_cons_iff.symm

theorem pairwise_sorted {entries : List (Text × FileNode)} (h : (entries.map Prod.fst).Nodup) :
    (entries.mergeSort fun a b => nameLe a.1 b.1).Pairwise fun a b => List.lt a.1 b.1 := by
  have hle : (entries.mergeSort fun a b => nameLe a.1 b.1).Pairwise fun a b =>
      List.le a.1 b.1 := by
    refine (List.pairwise_mergeSort ?_ ?_ entries).imp fun hab => nameLe_iff.1 hab
    · intro a b c hab hbc
      exact nameLe_iff.2 (List.le_trans (nameLe_iff.1 hab) (nameLe_iff.1 hbc))
    · intro a b
      rw [Bool.or_eq_true, nameLe_iff, nameLe_iff]
      exact List.le_total a.1 b.1
  -- sorting only tells that no name comes after a later one, and no two are the same
  have hne : (entries.mergeSort fun a b => nameLe a.1 b.1).Pairwise fun a b => a.1 ≠ b.1 :=
    List.pairwise_map.1 (((List.mergeSort_perm entries _).map Prod.fst).nodup_iff.2 h)
  refine (hle.and hne).imp fun hab => ?_
  exact (List.le_iff_lt_or_eq.1 hab.1).resolve_right hab.2

/-! ## 3. Sources -/

/-- A name with one of the endings of sources behind its last dot, and something in front of it. -/
def NamesSource (name : Text) : Prop :=
  ∃ stem ending, stem ≠ [] ∧ ending ∈ sourceExtensions ∧ name = stem ++ '.' :: ending

theorem extension?_append {ending : Text} (h : '.' ∉ ending) (stem : Text) :
    Path.extension? (stem ++ '.' :: ending) = if stem = [] then none else some ending := by
  have hending : ∀ c ∈ ending.reverse, decide (c ≠ '.') = true :=
    fun c hc => decide_eq_true fun heq => h (heq ▸ List.mem_reverse.1 hc)
  have hback : (stem ++ '.' :: ending).reverse.takeWhile (· ≠ '.') = ending.reverse := by
    rw [List.reverse_append, List.reverse_cons, List.append_assoc,
      List.takeWhile_append_of_pos hending]
    simp
  rw [Path.extension?, hback]
  cases stem with
  | nil => simp
  | cons c stem =>
    have hlength : ending.reverse.length + 1 < (c :: stem ++ '.' :: ending).length := by
      rw [List.length_reverse, List.length_append, List.length_cons, List.length_cons]
      omega
    rw [if_pos hlength, if_neg (List.cons_ne_nil c stem), List.reverse_reverse]

theorem extension?_eq_none {name : Text} (h : '.' ∉ name) : Path.extension? name = none := by
  have hback : name.reverse.takeWhile (· ≠ '.') = name.reverse :=
    List.takeWhile_eq_self_iff.2 fun c hc =>
      decide_eq_true fun heq => h (heq ▸ List.mem_reverse.1 hc)
  rw [Path.extension?, hback]
  simp

/-- The last dot of a name with an ending stands behind something. -/
theorem extension?_eq_some_iff {name ending : Text} :
    Path.extension? name = some ending ↔
      ∃ stem, stem ≠ [] ∧ '.' ∉ ending ∧ name = stem ++ '.' :: ending := by
  constructor
  · intro h
    by_cases hdot : '.' ∈ name
    · -- the last dot is the first one from the end
      obtain ⟨back, front, hsplit, hback⟩ := List.eq_append_cons_of_mem (List.mem_reverse.2 hdot)
      have hname : name = front.reverse ++ '.' :: back.reverse := by
        rw [← List.reverse_reverse name, hsplit]
        simp
      have hlast : '.' ∉ back.reverse := fun hmem => hback (List.mem_reverse.1 hmem)
      rw [hname, extension?_append hlast] at h
      split at h
      next => exact absurd h (by simp)
      next hne => exact ⟨front.reverse, hne, Option.some.inj h ▸ hlast, Option.some.inj h ▸ hname⟩
    · rw [extension?_eq_none hdot] at h
      exact absurd h (by simp)
  · rintro ⟨stem, hstem, hdot, rfl⟩
    rw [extension?_append hdot, if_neg hstem]

theorem isSourceName_iff {name : Text} : isSourceName name = true ↔ NamesSource name := by
  have hdots : ∀ ending ∈ sourceExtensions, '.' ∉ ending := by decide
  simp only [isSourceName, Option.any_eq_true, List.contains_iff_mem, NamesSource]
  constructor
  · rintro ⟨ending, hextension, hending⟩
    obtain ⟨stem, hstem, -, rfl⟩ := extension?_eq_some_iff.1 hextension
    exact ⟨stem, ending, hstem, hending, rfl⟩
  · rintro ⟨stem, ending, hstem, hending, rfl⟩
    exact ⟨ending, extension?_eq_some_iff.2 ⟨stem, hstem, hdots ending hending, rfl⟩, hending⟩

theorem isSkipped_iff {name : Text} :
    isSkipped name = true ↔ name = "node_modules".toList ∨ name.head? = some '.' := by
  cases name <;> simp [isSkipped, Text.firstIs]

/-- A place in a node holds a source: it is that of the node itself and the node is a file with a
text, or a file with a text stands there below the node, with the name of a source and behind no
folder for installed packages and no hidden one. -/
structure IsSource (root : FileNode) (place : List Text) (text : Text) : Prop where
  content : root.content? place = some (.text text)
  name : ∀ name ∈ place.getLast?, NamesSource name
  way : ∀ folder ∈ place.dropLast, folder ≠ "node_modules".toList ∧ folder.head? ≠ some '.'

/-- The places of some sources with their texts, all of them, in the order of a walk. -/
structure IsWalk (holds : List Text → Text → Prop) (sources : List (List Text × Text)) : Prop where
  ordered : sources.Pairwise fun a b => Earlier a.1 b.1
  complete : ∀ place text, (place, text) ∈ sources ↔ holds place text

theorem Earlier.ne {p q : List Text} (h : Earlier p q) : p ≠ q := by
  rintro rfl
  exact List.lex_irrefl (fun name => List.lt_irrefl name) p h

theorem Earlier.asymm {p q : List Text} (h : Earlier p q) : ¬ Earlier q p := by
  intro hback
  have hloop : Earlier p p := List.lex_trans (fun hab hbc => List.lt_trans hab hbc) h hback
  exact hloop.ne rfl

/-- There is only one list of all sources in the order of a walk. -/
theorem IsWalk.unique {holds : List Text → Text → Prop} {sources others : List (List Text × Text)}
    (h : IsWalk holds sources) (h' : IsWalk holds others) : sources = others := by
  have hne {l : List (List Text × Text)} (hl : l.Pairwise fun a b => Earlier a.1 b.1) : l.Nodup :=
    hl.imp fun hab heq => hab.ne (congrArg Prod.fst heq)
  have hperm : sources.Perm others := by
    refine (List.perm_ext_iff_of_nodup (hne h.ordered) (hne h'.ordered)).2 ?_
    rintro ⟨place, text⟩
    rw [h.complete, h'.complete]
  exact hperm.eq_of_pairwise (fun a b _ _ hab hba => absurd hba hab.asymm) h.ordered h'.ordered

def detected (path : Text) (source : List Text × Text) : Detected :=
  ⟨source.1.foldl Path.join path, detectFramework source.2⟩

/-! ## 4. The sources of a folder -/

/-- What a walk does not pass over: a file with the name of a source, or a folder that is neither
hidden nor one for installed packages. -/
def isEntered (name : Text) : FileNode → Bool
  | .file _ => isSourceName name
  | .folder _ => !isSkipped name

theorem scanEntry_eq (path name : Text) (node : FileNode) :
    node.scanEntry path name = if node.isEntered name then node.scanRoot path else [] := by
  cases node with
  | file content => rw [scanEntry, scanRoot, isEntered]
  | folder entries => cases h : isSkipped name <;> simp [scanEntry, scanRoot, isEntered, h]

theorem scanEntries_eq (path : Text) (entries : List (Text × FileNode)) :
    scanEntries path entries =
      entries.map fun entry => (entry.1, entry.2.scanEntry (Path.join path entry.1) entry.1) := by
  induction entries with
  | nil => rw [scanEntries, List.map_nil]
  | cons entry entries ih => rw [scanEntries, List.map_cons, ih]

theorem scanRoot_folder (path : Text) (entries : List (Text × FileNode)) :
    (folder entries).scanRoot path =
      (entries.mergeSort fun a b => nameLe a.1 b.1).flatMap fun entry =>
        entry.2.scanEntry (Path.join path entry.1) entry.1 := by
  have hsort := List.map_mergeSort (l := entries)
    (f := fun entry => (entry.1, entry.2.scanEntry (Path.join path entry.1) entry.1))
    (r := fun a b => nameLe a.1 b.1) (s := fun a b => nameLe a.1 b.1) fun _ _ _ _ => rfl
  rw [scanRoot, scanEntries_eq, ← hsort, List.flatMap_map]

theorem content?_file {content other : Content} {place : List Text} :
    (file content).content? place = some other ↔ place = [] ∧ content = other := by
  cases place with
  | nil => simp [content?, get]
  | cons name place => simp [content?, get]

theorem content?_folder_cons {entries : List (Text × FileNode)} {name : Text} {place : List Text}
    {content : Content} :
    (folder entries).content? (name :: place) = some content ↔
      ∃ node, entries.lookup name = some node ∧ node.content? place = some content := by
  simp only [content?_eq_some, get]
  cases entries.lookup name <;> simp

theorem isEntered_folder {name : Text} {entries : List (Text × FileNode)} :
    (folder entries).isEntered name = true ↔
      name ≠ "node_modules".toList ∧ name.head? ≠ some '.' := by
  rw [isEntered, Bool.not_eq_true', ← Bool.not_eq_true, isSkipped_iff, not_or]

theorem isSource_file {content : Content} {place : List Text} {text : Text} :
    (file content).IsSource place text ↔ place = [] ∧ content = .text text := by
  constructor
  · intro h
    exact content?_file.1 h.content
  · rintro ⟨rfl, rfl⟩
    exact ⟨rfl, by simp, by simp⟩

/-- A source below a folder is a source of one of its entries that a walk enters. -/
theorem isSource_cons {entries : List (Text × FileNode)} {name : Text} {place : List Text}
    {text : Text} :
    (folder entries).IsSource (name :: place) text ↔
      ∃ node, entries.lookup name = some node ∧ node.isEntered name = true ∧
        node.IsSource place text := by
  constructor
  · intro h
    obtain ⟨node, hnode, hcontent⟩ := content?_folder_cons.1 h.content
    refine ⟨node, hnode, ?_⟩
    -- the name is the last one of the place under a file, and one of its way under a folder
    cases node with
    | file content =>
      obtain ⟨rfl, rfl⟩ := content?_file.1 hcontent
      exact ⟨isSourceName_iff.2 (h.name name rfl), hcontent, by simp, by simp⟩
    | folder inner =>
      cases place with
      | nil => exact absurd hcontent (by simp [content?, get])
      | cons next place =>
        have hway := List.forall_mem_cons.1 h.way
        exact ⟨isEntered_folder.2 hway.1, hcontent, h.name, hway.2⟩
  · rintro ⟨node, hnode, hentered, h⟩
    have hcontent := content?_folder_cons.2 ⟨node, hnode, h.content⟩
    cases node with
    | file content =>
      obtain ⟨rfl, rfl⟩ := content?_file.1 h.content
      refine ⟨hcontent, fun last hlast => ?_, by simp⟩
      obtain rfl := Option.some.inj hlast
      exact isSourceName_iff.1 hentered
    | folder inner =>
      cases place with
      | nil => exact absurd h.content (by simp [content?, get])
      | cons next place =>
        exact ⟨hcontent, h.name, List.forall_mem_cons.2 ⟨isEntered_folder.1 hentered, h.way⟩⟩

/-! ## 5. The whole walk -/

def under (name : Text) (sources : List (List Text × Text)) : List (List Text × Text) :=
  sources.map fun source => (name :: source.1, source.2)

theorem mem_under {name text : Text} {place : List Text} {sources : List (List Text × Text)} :
    (place, text) ∈ under name sources ↔ ∃ rest, place = name :: rest ∧ (rest, text) ∈ sources := by
  unfold under
  constructor
  · intro h
    obtain ⟨⟨rest, t⟩, hmem, heq⟩ := List.mem_map.1 h
    obtain ⟨rfl, rfl⟩ := Prod.mk.inj heq
    exact ⟨rest, rfl, hmem⟩
  · rintro ⟨rest, rfl, hmem⟩
    exact List.mem_map.2 ⟨(rest, text), hmem, rfl⟩

theorem map_detected_under (path name : Text) (sources : List (List Text × Text)) :
    (under name sources).map (detected path) = sources.map (detected (Path.join path name)) := by
  rw [under, List.map_map]
  rfl

/-- A place in one of some entries holds a source that a walk comes to. -/
def HoldsSource (entries : List (Text × FileNode)) (place : List Text) (text : Text) : Prop :=
  ∃ entry ∈ entries, ∃ rest, place = entry.1 :: rest ∧ entry.2.isEntered entry.1 = true ∧
    entry.2.IsSource rest text

theorem holdsSource_cons {name : Text} {node : FileNode} {entries : List (Text × FileNode)}
    {place : List Text} {text : Text} :
    HoldsSource ((name, node) :: entries) place text ↔
      (∃ rest, place = name :: rest ∧ node.isEntered name = true ∧ node.IsSource rest text) ∨
        HoldsSource entries place text := by
  simp [HoldsSource]

theorem isSource_folder {entries : List (Text × FileNode)} (h : (entries.map Prod.fst).Nodup)
    {place : List Text} {text : Text} :
    (folder entries).IsSource place text ↔ HoldsSource entries place text := by
  cases place with
  | nil =>
    constructor
    · intro hsource
      exact absurd hsource.content (by simp [content?, get])
    · rintro ⟨entry, -, rest, hnil, -⟩
      exact absurd hnil (by simp)
  | cons name place =>
    simp only [isSource_cons, HoldsSource, lookup_eq_some_iff_mem h]
    constructor
    · rintro ⟨node, hnode, hentered, hsource⟩
      exact ⟨(name, node), hnode, place, rfl, hentered, hsource⟩
    · rintro ⟨⟨name', node⟩, hnode, place', heq, hentered, hsource⟩
      obtain ⟨rfl, rfl⟩ := List.cons.inj heq
      exact ⟨node, hnode, hentered, hsource⟩

/-- The walk through some entries goes through the first of them, if it enters it, before the
others. -/
theorem IsWalk.cons {name : Text} {node : FileNode} {entries : List (Text × FileNode)}
    {sources later : List (List Text × Text)} (hname : ∀ entry ∈ entries, List.lt name entry.1)
    (hnode : IsWalk node.IsSource sources) (hlater : IsWalk (HoldsSource entries) later) :
    IsWalk (HoldsSource ((name, node) :: entries))
      ((if node.isEntered name then under name sources else []) ++ later) where
  ordered := by
    -- two places in one entry part behind its name, two in different entries at their names
    refine List.pairwise_append.2 ⟨?_, hlater.ordered, ?_⟩
    · split
      · exact List.pairwise_map.2 (hnode.ordered.imp fun hab => .cons hab)
      · exact .nil
    · rintro ⟨p, s⟩ hp ⟨q, t⟩ hq
      obtain ⟨entry, hentry, rest, rfl, -⟩ := (hlater.complete q t).1 hq
      split at hp
      · obtain ⟨rest', rfl, -⟩ := mem_under.1 hp
        exact .rel (hname entry hentry)
      · exact absurd hp List.not_mem_nil
  complete place text := by
    rw [List.mem_append, hlater.complete, holdsSource_cons]
    refine or_congr_left ?_
    split
    next hentered => simp only [mem_under, hnode.complete, hentered, true_and]
    next hpassed => simp [hpassed]

theorem exists_walk_entries {entries : List (Text × FileNode)}
    (hsorted : entries.Pairwise fun a b => List.lt a.1 b.1)
    (h : ∀ entry ∈ entries, ∃ sources, IsWalk entry.2.IsSource sources ∧
      ∀ path, entry.2.scanRoot path = sources.map (detected path)) :
    ∃ sources, IsWalk (HoldsSource entries) sources ∧
      ∀ path, (entries.flatMap fun entry =>
        entry.2.scanEntry (Path.join path entry.1) entry.1) = sources.map (detected path) := by
  -- the entries are taken by name, so that the places in the first come before all later ones
  induction entries with
  | nil => exact ⟨[], ⟨.nil, by simp [HoldsSource]⟩, fun _ => rfl⟩
  | cons entry entries ih =>
    obtain ⟨name, node⟩ := entry
    obtain ⟨hname, hsorted⟩ := List.pairwise_cons.1 hsorted
    obtain ⟨hnode, hentries⟩ := List.forall_mem_cons.1 h
    obtain ⟨sources, hwalk, hscan⟩ := hnode
    obtain ⟨later, hlater, hscanLater⟩ := ih hsorted hentries
    refine ⟨_, hwalk.cons hname hlater, fun path => ?_⟩
    rw [List.flatMap_cons, hscanLater, List.map_append, scanEntry_eq, hscan]
    congr 1
    split
    · rw [map_detected_under]
    · rfl

/-- A scan of a node finds its sources in the order of a walk. -/
theorem exists_walk {root : FileNode} (h : root.HasDistinctNames) :
    ∃ sources, IsWalk root.IsSource sources ∧
      ∀ path, root.scanRoot path = sources.map (detected path) := by
  -- the node is the root of its own walk, so neither its name nor that of a folder around it counts
  induction h with
  | file content =>
    cases content with
    | text t =>
      refine ⟨[([], t)], ⟨List.pairwise_singleton _ _, fun place text => ?_⟩, fun path => ?_⟩
      · rw [isSource_file, List.mem_singleton, Prod.mk.injEq, Content.text.injEq, eq_comm (a := t)]
      · rw [scanRoot]
        rfl
    | binary bytes =>
      refine ⟨[], ⟨.nil, fun place text => ?_⟩, fun path => ?_⟩
      · simp [isSource_file]
      · rw [scanRoot]
        rfl
  | @folder entries hnames _ ih =>
    obtain ⟨sources, hwalk, hscan⟩ := exists_walk_entries (pairwise_sorted hnames)
      fun entry hentry => ih entry (List.mem_mergeSort.1 hentry)
    refine ⟨sources, ⟨hwalk.ordered, fun place text => ?_⟩, fun path => ?_⟩
    · rw [hwalk.complete, isSource_folder hnames]
      simp only [HoldsSource, List.mem_mergeSort]
    · rw [scanRoot_folder, hscan]

end FileNode

namespace FileTree

open FileNode

variable {t : FileTree}

/-! ## 6. Several paths -/

theorem hasPath_iff {path : Text} : t.hasPath path = true ↔ ∃ node, t.find path = .ok node := by
  unfold hasPath
  cases t.find path <;> simp

/-- Some sources are all those under a path of a tree, each told of once in the order of a walk. -/
def FindsSources (t : FileTree) (path : Text) (found : List Detected) : Prop :=
  ∃ node sources, t.find path = .ok node ∧ IsWalk node.IsSource sources ∧
    found = sources.map (detected path)

/-- What a scan finds under a path is all there is to be found. -/
theorem findsSources_iff (h : t.root.HasDistinctNames) {path : Text} {found : List Detected} :
    t.FindsSources path found ↔ ∃ node, t.find path = .ok node ∧ found = node.scanRoot path := by
  refine exists_congr fun node => ?_
  constructor
  · -- a list of all sources in order is the list that the walk finds
    rintro ⟨sources, hfind, hwalk, rfl⟩
    obtain ⟨names, -, hget⟩ := bind_eq_ok.1 hfind
    obtain ⟨others, hothers, hscan⟩ := exists_walk (h.get hget)
    exact ⟨hfind, by rw [hscan, hwalk.unique hothers]⟩
  · rintro ⟨hfind, rfl⟩
    obtain ⟨names, -, hget⟩ := bind_eq_ok.1 hfind
    obtain ⟨sources, hwalk, hscan⟩ := exists_walk (h.get hget)
    exact ⟨sources, hfind, hwalk, hscan path⟩

theorem scan_cons_error {path : Text} {e : FileError} (h : t.find path = .error e)
    (paths : List Text) : t.scan (path :: paths) = .error path := by
  rw [scan, h]

theorem scan_cons_ok {path : Text} {node : FileNode} (h : t.find path = .ok node)
    (paths : List Text) :
    t.scan (path :: paths) = (t.scan paths).map fun found => node.scanRoot path ++ found := by
  rw [scan, h]

/-- A scan fails at the first path that names nothing. -/
theorem scan_eq_error_iff {paths : List Text} {missing : Text} :
    t.scan paths = .error missing ↔
      paths.find? (fun path => !t.hasPath path) = some missing := by
  induction paths with
  | nil => simp [scan]
  | cons path paths ih =>
    cases hfind : t.find path with
    | error e =>
      have hmissing : t.hasPath path = false := by rw [hasPath, hfind]
      rw [scan_cons_error hfind, List.find?_cons_of_pos (by rw [hmissing]; rfl)]
      simp
    | ok node =>
      have hthere : t.hasPath path = true := hasPath_iff.2 ⟨node, hfind⟩
      rw [scan_cons_ok hfind, List.find?_cons_of_neg (by rw [hthere]; decide), ← ih]
      cases t.scan paths <;> simp [Except.map]

theorem scan_eq_ok_iff (h : t.root.HasDistinctNames) {paths : List Text} {found : List Detected} :
    t.scan paths = .ok found ↔
      ∃ parts, List.Forall₂ t.FindsSources paths parts ∧ found = parts.flatten := by
  induction paths generalizing found with
  | nil => simp [scan, List.forall₂_nil_left_iff, eq_comm]
  | cons path paths ih =>
    simp only [List.forall₂_cons_left_iff, findsSources_iff h]
    cases hfind : t.find path with
    | error e =>
      -- nothing is found under this path, so there is no list for it either
      rw [scan_cons_error hfind]
      simp
    | ok node =>
      rw [scan_cons_ok hfind]
      constructor
      · intro hok
        cases hrest : t.scan paths with
        | error missing =>
          rw [hrest] at hok
          exact absurd hok (by simp [Except.map])
        | ok later =>
          obtain ⟨parts, hparts, rfl⟩ := ih.1 hrest
          rw [hrest] at hok
          refine ⟨_, ⟨node.scanRoot path, parts, ⟨node, rfl, rfl⟩, hparts, rfl⟩, ?_⟩
          exact (Except.ok.inj hok).symm
      · rintro ⟨_, ⟨part, parts, ⟨node', hnode, rfl⟩, hparts, rfl⟩, rfl⟩
        obtain rfl := Except.ok.inj hnode
        rw [ih.2 ⟨parts, hparts, rfl⟩]
        rfl

/-- A folder with sources in it and below it, hidden ones and those of a package among them, a file
that is no text and one without the name of a source. -/
def workspace : FileTree where
  root := ofFiles [
    ("specs-2/z.ts".toList, some (.text "cy.get('#z')")),
    ("specs/b.spec.ts".toList, some (.text "test('b', f)")),
    ("specs/node_modules/lib.js".toList, some (.text "cy.visit('/')")),
    (".cache/y.js".toList, some (.text "page.goto('/')")),
    (".setup.js".toList, some (.text "")),
    ("notes.md".toList, some (.text "suite('x', f)")),
    ("bin.js".toList, some (.binary [0xff, 0xfe])),
    ("empty".toList, none)]

/-- Paths that overlap, one of a hidden folder, and those of the two files that are no sources. -/
def workspacePaths : List Text := [".", "specs/", ".cache", "notes.md", "./bin.js"]

end FileTree

end Parlance
