import Parlance.CommandLine.Run
import Parlance.Proofs.Conversion
import Parlance.Proofs.FileTree

/-!
A request to convert a file, from the settings to the exit code. Nothing is written before the
conversion has succeeded, and then only the destination. A conversion gets its style from the
settings, which name none that it would refuse; so it fails only when it has the same vocabulary on
both sides.
-/

namespace Parlance

/-! ## 1. Styles from settings -/

theorem Indent.validate_of_ofText {t : Text} {indent : Indent} (h : ofText t = .ok indent)
    (quote : Quote) (header : Bool) : Style.validate ⟨indent, quote, header⟩ = .ok () := by
  unfold ofText at h
  dsimp only at h
  split at h
  · rw [← Except.ok.inj h]
    rfl
  · split at h
    · rw [← Except.ok.inj h]
      rfl
    · split at h
      next width hwidth =>
        rw [← Except.ok.inj h]
        exact if_pos (Option.filter_eq_some_iff.1 hwidth).2
      next => exact absurd h (by simp)

theorem Settings.validate_of_style {s : Settings} {style : Style} (h : s.style = .ok style) :
    style.validate = .ok () := by
  obtain ⟨indent, hindent, h⟩ := bind_eq_ok.1 h
  obtain ⟨quote, -, h⟩ := bind_eq_ok.1 h
  rw [← Except.ok.inj h]
  exact Indent.validate_of_ofText hindent quote s.emitHeader

/-- With a style that is not refused, a conversion fails only between a vocabulary and itself. -/
theorem success_eq_false_iff {source target : Framework} {style : Style}
    (hstyle : style.validate = .ok ()) (t : Text) :
    (convert source target style t).success = false ↔ source = target := by
  by_cases hpair : source = target
  · refine ⟨fun _ => hpair, fun _ => ?_⟩
    unfold convert
    rw [Route.between, if_pos hpair]
    rfl
  · rw [convert_of_ne hpair, Route.convert_of_success _ t (.inr hstyle)]
    exact ⟨fun h => absurd h (by decide : ¬(true = false)), fun h => absurd h hpair⟩

/-! ## 2. What a conversion has to start from -/

/-- The vocabulary that a conversion writes: the one asked for, or the default. -/
def ConvertRequest.resolveTarget (c : ConvertRequest) (settings : Settings) : Framework :=
  c.target.getD settings.defaultTarget

/-- A conversion has all it needs: its settings can be read, its source is a text, a vocabulary can be
told for it, and the settings name a style. -/
structure ConvertRequest.Starts (c : ConvertRequest) (settingsPath : Text) (tree : FileTree)
    (settings : Settings) (t : Text) (source : Framework) (style : Style) : Prop where
  load : Settings.load tree settingsPath = .ok settings
  readText : tree.readText c.file = .ok t
  resolveSource : c.resolveSource t settings = .ok source
  style : settings.style = .ok style

namespace ConvertRequest

variable {c : ConvertRequest} {tree after : FileTree} {settings : Settings}

theorem mapError_eq_ok {ε ε' α : Type} {f : ε → ε'} {x : Except ε α} {a : α} :
    x.mapError f = .ok a ↔ x = .ok a := by
  cases x with
  | error e => exact ⟨fun h => absurd h (by simp [Except.mapError]), fun h => absurd h (by simp)⟩
  | ok b => rw [Except.mapError, Except.ok.injEq, Except.ok.injEq]

theorem outcome_eq_ok {o : Outcome} :
    c.outcome tree settings = .ok o ↔ ∃ t source style, tree.readText c.file = .ok t ∧
      c.resolveSource t settings = .ok source ∧ settings.style = .ok style ∧
      o = convert source (c.resolveTarget settings) style t := by
  constructor
  · intro h
    obtain ⟨t, ht, h⟩ := bind_eq_ok.1 h
    obtain ⟨source, hsource, h⟩ := bind_eq_ok.1 h
    obtain ⟨style, hstyle, h⟩ := bind_eq_ok.1 h
    exact ⟨t, source, style, mapError_eq_ok.1 ht, hsource, mapError_eq_ok.1 hstyle,
      (Except.ok.inj h).symm⟩
  · rintro ⟨t, source, style, ht, hsource, hstyle, rfl⟩
    refine bind_eq_ok.2 ⟨t, mapError_eq_ok.2 ht, ?_⟩
    refine bind_eq_ok.2 ⟨source, hsource, ?_⟩
    exact bind_eq_ok.2 ⟨style, mapError_eq_ok.2 hstyle, rfl⟩

/-! ## 3. Writing -/

/-- The code stands at the destination, if there is one, and no other file has changed. -/
def Delivers (c : ConvertRequest) (tree : FileTree) (code : Text) (after : FileTree) : Prop :=
  match c.destination? with
  | none => after = tree
  | some path => tree.Writes path code after

theorem write_cases (tree : FileTree) (path code : Text) :
    (∃ e, (write tree path code).2 = .error e ∧
      ∀ place, (write tree path code).1.content? place = tree.content? place) ∨
    (write tree path code).2 = .ok () ∧ tree.Writes path code (write tree path code).1 := by
  unfold write
  cases hmade : tree.makeParent path with
  | error cause => exact .inl ⟨_, rfl, fun _ => rfl⟩
  | ok made =>
    dsimp only
    cases hwritten : made.writeText path code with
    | error cause => exact .inl ⟨_, rfl, FileTree.content?_makeParent hmade⟩
    | ok written => exact .inr ⟨rfl, FileTree.writes_makeParent hmade hwritten⟩

theorem run_of_error {e : CommandError} (h : c.outcome tree settings = .error e) :
    c.run tree settings = (tree, .error e) := by
  unfold run
  rw [h]

variable {o : Outcome}

theorem run_of_failure (h : c.outcome tree settings = .ok o) (hfail : o.success = false) :
    c.run tree settings = (tree, .ok o) := by
  unfold run
  rw [h]
  dsimp only
  rw [hfail]
  cases c.destination? <;> rfl

theorem run_of_output (h : c.outcome tree settings = .ok o) (hd : c.destination? = none) :
    c.run tree settings = (tree, .ok o) := by
  unfold run
  rw [h, hd]
  rfl

theorem run_of_path {path : Text} (h : c.outcome tree settings = .ok o)
    (hsuccess : o.success = true) (hd : c.destination? = some path) :
    c.run tree settings =
      ((write tree path o.code).1, (write tree path o.code).2.map fun _ => o) := by
  unfold run
  rw [h, hd]
  dsimp only
  rw [hsuccess]
  rfl

/-- After a conversion that succeeds, either its destination has the code, or that could not be
written and all files are as before. -/
theorem run_of_success (h : c.outcome tree settings = .ok o) (hsuccess : o.success = true) :
    (∃ e, (c.run tree settings).2 = .error e ∧
      ∀ place, (c.run tree settings).1.content? place = tree.content? place) ∨
    (c.run tree settings).2 = .ok o ∧ c.Delivers tree o.code (c.run tree settings).1 := by
  unfold Delivers
  cases hd : c.destination? with
  | none =>
    rw [run_of_output h hd]
    exact .inr ⟨rfl, rfl⟩
  | some path =>
    rw [run_of_path h hsuccess hd]
    obtain ⟨e, he, hsame⟩ | ⟨hok, hwrites⟩ := write_cases tree path o.code
    · exact .inl ⟨e, by rw [he]; rfl, hsame⟩
    · exact .inr ⟨by rw [hok]; rfl, hwrites⟩

end ConvertRequest

/-! ## 4. Exit codes -/

theorem Report.exitCode_ofOutcome (c : ConvertRequest) (format : OutputFormat) (o : Outcome) :
    (ofOutcome c format o).exitCode = if o.success then 0 else 1 := by
  unfold ofOutcome
  dsimp only
  split
  · rfl
  · split
    · rfl
    · split <;> rfl

namespace Request

variable {settingsPath : Text} {format : OutputFormat} {c : ConvertRequest} {tree : FileTree}
  {settings : Settings}

theorem run_convert_of_error {e : CommandError} (h : Settings.load tree settingsPath = .error e) :
    run ⟨settingsPath, format, .convert c⟩ tree = (tree, .ofError e) := by
  unfold run
  dsimp only
  rw [h]

theorem run_convert_of_ok (h : Settings.load tree settingsPath = .ok settings) :
    run ⟨settingsPath, format, .convert c⟩ tree =
      ((c.run tree settings).1,
        match (c.run tree settings).2 with
        | .ok o => .ofOutcome c format o
        | .error e => .ofError e) := by
  unfold run
  dsimp only
  rw [h]
  unfold perform
  dsimp only
  split <;> rename_i hrun <;> rw [hrun]

end Request

/-! ## 5. The ends of a run -/

namespace ConvertRequest

variable {c : ConvertRequest} {settingsPath : Text} {tree : FileTree} {settings settings' : Settings}
  {t t' : Text} {source source' : Framework} {style style' : Style}

/-- The outcome of the conversion that a request starts. -/
abbrev result (c : ConvertRequest) (settings : Settings) (t : Text) (source : Framework)
    (style : Style) : Outcome :=
  convert source (c.resolveTarget settings) style t

theorem Starts.outcome (h : c.Starts settingsPath tree settings t source style) :
    c.outcome tree settings = .ok (c.result settings t source style) :=
  outcome_eq_ok.2 ⟨t, source, style, h.readText, h.resolveSource, h.style, rfl⟩

theorem Starts.success_eq_false_iff (h : c.Starts settingsPath tree settings t source style) :
    (c.result settings t source style).success = false ↔ source = c.resolveTarget settings :=
  Parlance.success_eq_false_iff (Settings.validate_of_style h.style) t

/-- A request starts in one way only. -/
theorem Starts.unique (h : c.Starts settingsPath tree settings t source style)
    (h' : c.Starts settingsPath tree settings' t' source' style') :
    settings' = settings ∧ source' = source := by
  obtain rfl : settings' = settings := Except.ok.inj (h'.load.symm.trans h.load)
  obtain rfl : t' = t := Except.ok.inj (h'.readText.symm.trans h.readText)
  exact ⟨rfl, Except.ok.inj (h'.resolveSource.symm.trans h.resolveSource)⟩

end ConvertRequest

namespace Request

variable {settingsPath : Text} {format : OutputFormat} {c : ConvertRequest} {tree : FileTree}
  {settings : Settings} {t : Text} {source : Framework} {style : Style}

/-- A conversion that cannot start is an error, and the tree is left alone. -/
theorem run_convert_of_not_starts
    (h : ∀ settings t source style, ¬c.Starts settingsPath tree settings t source style) :
    ∃ e, run ⟨settingsPath, format, .convert c⟩ tree = (tree, .ofError e) := by
  cases hload : Settings.load tree settingsPath with
  | error e => exact ⟨e, run_convert_of_error hload⟩
  | ok settings =>
    rw [run_convert_of_ok hload]
    cases ho : c.outcome tree settings with
    | error e =>
      rw [ConvertRequest.run_of_error ho]
      exact ⟨e, rfl⟩
    | ok o =>
      obtain ⟨t, source, style, ht, hsource, hstyle, -⟩ := ConvertRequest.outcome_eq_ok.1 ho
      exact absurd ⟨hload, ht, hsource, hstyle⟩ (h settings t source style)

/-- A conversion that starts fails where it has one vocabulary on both sides; else the run delivers
the code, or the destination cannot be written and all files are as before. -/
theorem run_convert_of_starts (format : OutputFormat)
    (h : c.Starts settingsPath tree settings t source style) :
    let ended := run ⟨settingsPath, format, .convert c⟩ tree
    (source = c.resolveTarget settings ∧ ended.2.exitCode = 1 ∧ ended.1 = tree) ∨
    (source ≠ c.resolveTarget settings ∧
      (ended.2.exitCode = 2 ∧ (∀ place, ended.1.content? place = tree.content? place) ∨
        ended.2.exitCode = 0 ∧
          c.Delivers tree (c.result settings t source style).code ended.1)) := by
  intro ended
  have hended : ended = _ := run_convert_of_ok h.load
  by_cases hpair : source = c.resolveTarget settings
  · have hfail := h.success_eq_false_iff.2 hpair
    rw [ConvertRequest.run_of_failure h.outcome hfail] at hended
    refine .inl ⟨hpair, ?_, by rw [hended]⟩
    rw [hended, Report.exitCode_ofOutcome, hfail]
    rfl
  · have hsuccess : (c.result settings t source style).success = true := by
      rw [← Bool.not_eq_false, h.success_eq_false_iff]
      exact hpair
    refine .inr ⟨hpair, ?_⟩
    obtain ⟨e, he, hsame⟩ | ⟨hok, hdelivers⟩ := ConvertRequest.run_of_success h.outcome hsuccess
    · rw [he] at hended
      exact .inl ⟨by rw [hended]; rfl, fun place => by rw [hended]; exact hsame place⟩
    · rw [hok] at hended
      refine .inr ⟨?_, by rwa [hended]⟩
      rw [hended, Report.exitCode_ofOutcome, hsuccess]
      rfl

/-- A run ends in one of three ways. Either it ends with 2, all files are as before, and whatever the
conversion could start from has two vocabularies; or the conversion starts with one vocabulary on both
sides, and the run ends with 1 and leaves the tree; or it starts with two, and the run ends with 0 and
delivers the code. -/
theorem run_convert_cases (settingsPath : Text) (format : OutputFormat) (c : ConvertRequest)
    (tree : FileTree) :
    let ended := run ⟨settingsPath, format, .convert c⟩ tree
    (ended.2.exitCode = 2 ∧ (∀ place, ended.1.content? place = tree.content? place) ∧
      ∀ settings t source style, c.Starts settingsPath tree settings t source style →
        source ≠ c.resolveTarget settings) ∨
    (∃ settings t source style, c.Starts settingsPath tree settings t source style ∧
      (ended.2.exitCode = 1 ∧ source = c.resolveTarget settings ∧ ended.1 = tree ∨
        ended.2.exitCode = 0 ∧ source ≠ c.resolveTarget settings ∧
          c.Delivers tree (c.result settings t source style).code ended.1)) := by
  intro ended
  by_cases hstarts : ∃ settings t source style, c.Starts settingsPath tree settings t source style
  · obtain ⟨settings, t, source, style, h⟩ := hstarts
    obtain ⟨hpair, hexit, htree⟩ | ⟨hpair, ⟨hexit, hsame⟩ | ⟨hexit, hdelivers⟩⟩ :=
      run_convert_of_starts format h
    · exact .inr ⟨settings, t, source, style, h, .inl ⟨hexit, hpair, htree⟩⟩
    · refine .inl ⟨hexit, hsame, fun settings' t' source' style' h' => ?_⟩
      obtain ⟨rfl, rfl⟩ := h.unique h'
      exact hpair
    · exact .inr ⟨settings, t, source, style, h, .inr ⟨hexit, hpair, hdelivers⟩⟩
  · obtain ⟨e, he⟩ : ∃ e, ended = (tree, .ofError e) :=
      run_convert_of_not_starts fun settings t source style h =>
        hstarts ⟨settings, t, source, style, h⟩
    exact .inl ⟨by rw [he]; rfl, fun _ => by rw [he], fun settings t source style h =>
      absurd ⟨settings, t, source, style, h⟩ hstarts⟩

end Request

end Parlance
