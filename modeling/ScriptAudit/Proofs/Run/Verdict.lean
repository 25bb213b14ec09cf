import ScriptAudit.Run
import ScriptAudit.Proofs.Analysis.Findings

/-! # What the display options leave alone

The options for the display settle what a run prints and how. Its exit code and its complaint are
settled by the rest of the command line, the task, and by whether the results are printed as JSON,
which fails if the path of a script is no text. Main statements: `verdict_run` and
`agrees_run_iff`.
-/
namespace ScriptAudit

/-! Colors. -/

def Script.recolor (colors : Bool) (s : Script) : Script :=
  { s with options := s.options.withColors colors }

theorem Source.analyze_withColors (s : Source) (o : Options) (colors : Bool) :
    s.analyze (o.withColors colors) = s.analyze o := by
  rw [analyze_eq, analyze_eq]
  rfl

theorem Disk.check_withColors (d : Disk) (o : Options) (colors : Bool) (p : Path) :
    d.check (o.withColors colors) p = Script.recolor colors <$> d.check o p := by
  unfold check load
  cases d.read p with
  | error cause => rfl
  | ok found =>
    change (Script.ofSource _ (o.withColors colors)).check = _ <$> (Script.ofSource _ o).check
    unfold Script.check Script.ofSource
    dsimp only
    rw [Source.analyze_withColors]
    cases Source.analyze _ o <;> rfl

theorem isSome_mapM {α β : Type} (f : α → Option β) (xs : List α) :
    (xs.mapM f).isSome = xs.all fun x => (f x).isSome := by
  induction xs with
  | nil => rfl
  | cons x xs ih =>
    rw [List.mapM_cons, List.all_cons, ← ih]
    cases f x with
    | none => rfl
    | some y => cases xs.mapM f <;> rfl

namespace Script

def hasTextPath (s : Script) : Bool := (Utf8.decode? s.path.bytes).isSome

theorem isSome_toJson? (s : Script) : s.toJson?.isSome = s.hasTextPath := by
  unfold toJson? hasTextPath
  cases Utf8.decode? s.path.bytes <;> rfl

end Script

namespace Key

def isDisplay : Key → Bool
  | noColors | nameOnly | quiet | score | json | verbose => true
  | _ => false

end Key

namespace Answer

/-- What a run says apart from its output: the exit code, and the complaint if there is one. -/
def verdict (a : Answer) : Nat × Option String := (a.code, a.fatal)

/-- The same exit code, and a complaint in both answers or in none. -/
def Agrees (a a' : Answer) : Prop := a.code = a'.code ∧ a.fatal.isSome = a'.fatal.isSome

instance (a a' : Answer) : Decidable (a.Agrees a') := inferInstanceAs (Decidable (_ ∧ _))

theorem agrees_of_verdict_eq {a a' : Answer} (h : a.verdict = a'.verdict) : a.Agrees a' := by
  obtain ⟨hcode, hfatal⟩ := Prod.mk.inj h
  exact ⟨hcode, congrArg Option.isSome hfatal⟩

end Answer

namespace CommandLine

variable {c c' : CommandLine}

def printsJson (c : CommandLine) : Bool := c.has .json && !c.has .quiet

/-- The verdict when the given scripts have been checked. -/
def verdictOn (c : CommandLine) (asJson : Bool) (scripts : List Script) : Nat × Option String :=
  if asJson && !scripts.all Script.hasTextPath then
    (Answer.failed "cannot serialize results").verdict
  else ((scripts.foldl Summary.add .empty).exitCode (c.has .strict), none)

def verdict (c : CommandLine) (d : Disk) (asJson : Bool) : Nat × Option String :=
  match c.check d false with
  | .error fault => (Answer.failed fault.message).verdict
  | .ok scripts => c.verdictOn asJson scripts

theorem check_eq (c : CommandLine) (d : Disk) (colors : Bool) :
    c.check d colors = List.map (Script.recolor colors) <$> c.check d false := by
  unfold check
  cases c.collect d with
  | error fault => rfl
  | ok found =>
    refine Eq.trans ?_ (mapM_map_eq (d.check (c.analysisOptions false)) _ found)
    refine congrArg (found.mapM ·) (funext fun p => ?_)
    exact d.check_withColors (c.analysisOptions false) colors p

theorem verdict_print (c : CommandLine) (colors : Bool) (scripts : List Script) :
    (c.print colors scripts).verdict = c.verdictOn c.printsJson scripts := by
  unfold print verdictOn printsJson
  rw [← funext Script.isSome_toJson?, ← isSome_mapM]
  cases c.has .json <;> cases c.has .quiet <;> try rfl
  cases scripts.mapM Script.toJson? <;> rfl

theorem verdictOn_map_recolor (c : CommandLine) (asJson colors : Bool) (scripts : List Script) :
    c.verdictOn asJson (scripts.map (Script.recolor colors)) = c.verdictOn asJson scripts := by
  unfold verdictOn
  rw [List.all_map, List.foldl_map]
  rfl

/-- The display options count for the verdict of a run only by whether they have JSON printed. -/
theorem verdict_run (c : CommandLine) (d : Disk) (colorsAvailable : Bool) :
    (c.run d colorsAvailable).verdict = c.verdict d c.printsJson := by
  unfold run verdict
  dsimp only
  rw [c.check_eq d]
  cases c.check d false with
  | error fault => rfl
  | ok scripts => exact (c.verdict_print _ _).trans (c.verdictOn_map_recolor _ _ _)

/-- Two command lines that differ in nothing but the options for the display. -/
structure SameTask (c c' : CommandLine) : Prop where
  paths : c.paths = c'.paths
  options : ∀ k : Key, k.isDisplay = false → c.options.lookup k = c'.options.lookup k

theorem has_eq_isSome_lookup (c : CommandLine) (k : Key) :
    c.has k = (c.options.lookup k).isSome := by
  unfold has
  induction c.options with
  | nil => rfl
  | cons option options ih =>
    rw [List.any_cons, List.lookup_cons, ih]
    by_cases h : k = option.1
    · simp [h]
    · rw [beq_eq_false_iff_ne.mpr h, decide_eq_false (Ne.symm h), Bool.false_or]

namespace SameTask

theorem has_eq (h : c.SameTask c') {k : Key} (hk : k.isDisplay = false) : c.has k = c'.has k := by
  rw [has_eq_isSome_lookup, has_eq_isSome_lookup, h.options k hk]

theorem value_eq (h : c.SameTask c') {k : Key} (hk : k.isDisplay = false) :
    c.value k = c'.value k := by
  unfold value
  rw [h.options k hk]

theorem check_eq (h : c.SameTask c') (d : Disk) (colors : Bool) :
    c.check d colors = c'.check d colors := by
  unfold check collect analysisOptions ignoredFiles level
  rw [h.paths, h.has_eq (k := .recursive) rfl, h.value_eq (k := .ignoreFiles) rfl,
    h.value_eq (k := .ignoreMessages) rfl, h.value_eq (k := .level) rfl]

theorem verdict_eq (h : c.SameTask c') (d : Disk) (asJson : Bool) :
    c.verdict d asJson = c'.verdict d asJson := by
  unfold verdict verdictOn
  rw [h.check_eq, h.has_eq (k := .strict) rfl]

end SameTask

/-- A command line and the same one with one more option. -/
structure Adds (c : CommandLine) (k : Key) (c' : CommandLine) : Prop where
  paths : c'.paths = c.paths
  options : ∀ k' : Key, k' ≠ k → c'.options.lookup k' = c.options.lookup k'
  given : c'.has k = true

theorem adds_cons (c : CommandLine) (k : Key) (value : String) :
    c.Adds k ⟨(k, value) :: c.options, c.paths⟩ where
  paths := rfl
  options k' hk := by rw [List.lookup_cons, beq_eq_false_iff_ne.mpr hk]
  given := by simp [has]

namespace Adds

variable {k : Key}

theorem has_eq (h : c.Adds k c') {k' : Key} (hk : k' ≠ k) : c'.has k' = c.has k' := by
  rw [has_eq_isSome_lookup, has_eq_isSome_lookup, h.options k' hk]

theorem sameTask (h : c.Adds k c') (hk : k.isDisplay = true) : c'.SameTask c where
  paths := h.paths
  options k' hk' := h.options k' (by rintro rfl; rw [hk] at hk'; cases hk')

end Adds

/-- The path of each script that is checked is text. -/
def NamesAreText (c : CommandLine) (d : Disk) : Prop :=
  ∀ scripts, c.check d false = .ok scripts → scripts.all Script.hasTextPath = true

variable {d : Disk}

theorem verdict_of_namesAreText (h : c.NamesAreText d) (asJson : Bool) :
    c.verdict d asJson = c.verdict d false := by
  unfold verdict verdictOn
  cases hcheck : c.check d false with
  | error fault => rfl
  | ok scripts => simp [h scripts hcheck]

theorem verdict_of_not_namesAreText (h : ¬ c.NamesAreText d) :
    c.verdict d true = (Answer.failed "cannot serialize results").verdict ∧
      (c.verdict d false).2 = none := by
  simp only [NamesAreText, not_forall] at h
  obtain ⟨scripts, hcheck, hpath⟩ := h
  unfold verdict verdictOn
  simp [hcheck, hpath]

theorem isSome_verdict_of_not_namesAreText (h : ¬ c.NamesAreText d) (asJson : Bool) :
    (c.verdict d asJson).2.isSome = asJson := by
  obtain ⟨htrue, hfalse⟩ := verdict_of_not_namesAreText h
  cases asJson with
  | false => rw [hfalse]; rfl
  | true => rw [htrue]; rfl

/-- Two command lines for the same task have the same exit code, and one has a complaint if and
only if the other has, unless one prints JSON and the other does not, and the path of a script is
no text. Then the one that prints JSON fails and the other does not. -/
theorem agrees_run_iff (h : c.SameTask c') (d : Disk) (colorsAvailable : Bool) :
    ((c.run d colorsAvailable).Agrees (c'.run d colorsAvailable) ↔
      c.printsJson = c'.printsJson ∨ c.NamesAreText d) ∧
    (¬ c.NamesAreText d → c.printsJson = true → (c.run d colorsAvailable).verdict =
      (Answer.failed "cannot serialize results").verdict) ∧
    (¬ c.NamesAreText d → c'.printsJson = false → (c'.run d colorsAvailable).fatal = none) := by
  have hverdict := c.verdict_run d colorsAvailable
  have hverdict' := c'.verdict_run d colorsAvailable
  rw [← h.verdict_eq] at hverdict'
  refine ⟨⟨fun hagrees => ?_, fun hcases => Answer.agrees_of_verdict_eq ?_⟩, ?_, ?_⟩
  · by_contra hneither
    obtain ⟨hjson, hnames⟩ := not_or.mp hneither
    have hfatal : (c.verdict d c.printsJson).2.isSome = (c.verdict d c'.printsJson).2.isSome :=
      hverdict ▸ hverdict' ▸ hagrees.2
    rw [isSome_verdict_of_not_namesAreText hnames,
      isSome_verdict_of_not_namesAreText hnames] at hfatal
    exact hjson hfatal
  · rw [hverdict, hverdict']
    rcases hcases with hjson | hnames
    · rw [hjson]
    · rw [verdict_of_namesAreText hnames, verdict_of_namesAreText hnames c'.printsJson]
  · intro hnames hjson
    rw [hverdict, hjson]
    exact (verdict_of_not_namesAreText hnames).1
  · intro hnames hjson
    rw [hjson] at hverdict'
    exact (congrArg Prod.snd hverdict').trans (verdict_of_not_namesAreText hnames).2

/-- An empty script in a directory whose name is no text. -/
def namelessDirectory : Disk where
  tree := .ofList [([[255], Utf8.encode "a.py"], .file [])]
  home := []

/-- A command line on all scripts, empty ones not counted, with one more option. -/
def sparingEmpty (k : Key) : CommandLine :=
  ⟨[(.recursive, ""), (.ignoreMessages, "empty_file"), (k, "")], [.ofString "."]⟩

theorem sameTask_sparingEmpty {k k' : Key} (hk : k.isDisplay = true) (hk' : k'.isDisplay = true) :
    (sparingEmpty k).SameTask (sparingEmpty k') := by
  refine ⟨rfl, fun key hkey => ?_⟩
  have hne : (key == k) = false := beq_eq_false_iff_ne.mpr (by rintro rfl; simp [hk] at hkey)
  have hne' : (key == k') = false := beq_eq_false_iff_ne.mpr (by rintro rfl; simp [hk'] at hkey)
  simp only [sparingEmpty, List.lookup_cons, hne, hne']

theorem agrees_run_namelessDirectory :
    (sparingEmpty .nameOnly).SameTask (sparingEmpty .quiet) ∧
    ((sparingEmpty .nameOnly).run namelessDirectory false).Agrees
      ((sparingEmpty .quiet).run namelessDirectory false) :=
  have h : (sparingEmpty .nameOnly).SameTask (sparingEmpty .quiet) := sameTask_sparingEmpty rfl rfl
  ⟨h, (agrees_run_iff h namelessDirectory false).1.mpr (Or.inl rfl)⟩

/-- A run that prints JSON fails on a path that is no text, and only if it prints JSON. -/
theorem not_agrees_answer_of_sameTask : ¬ ∀ (arguments arguments' : List Argument)
    (c c' : CommandLine) (d : Disk) (colorsAvailable : Bool),
    parse arguments = .ok c → parse arguments' = .ok c' → c.SameTask c' →
    (answer arguments d colorsAvailable).Agrees (answer arguments' d colorsAvailable) := by
  intro hlaw
  refine absurd (hlaw (["-r", "-m", "empty_file", "-q", "."].map Utf8.encode)
    (["-r", "-m", "empty_file", "-j", "."].map Utf8.encode) (sparingEmpty .quiet)
    (sparingEmpty .json) namelessDirectory false ?_ ?_ (sameTask_sparingEmpty rfl rfl)) ?_ <;>
    decide +kernel

end CommandLine
end ScriptAudit
