import ScriptAudit.Proofs.Analysis.ControlCharacters
import ScriptAudit.Proofs.Message.JsonText
import ScriptAudit.Proofs.Run.NoColors
import ScriptAudit.Proofs.Run.Story
import ScriptAudit.Proofs.Summary.Colors

/-! # Runs with colors and without

Colors add nothing to what a run prints but control sequences, if there is no escape character in
the names and the contents of the files. Main statements: `Script.EscapeFree.shows_report`,
`CommandLine.shows_printText` and `CommandLine.colors_only_add_sequences`.
-/
namespace ScriptAudit
open Color

/-! What escape characters are kept out of. -/

/-- The bytes of a file. -/
def Entry.content : Entry → List UInt8
  | .file bytes => bytes
  | _ => []

/-- No name and no file holds an escape character. -/
structure FileTree.EscapeFree (t : FileTree) : Prop where
  names : ∀ e ∈ t.entries, ∀ name ∈ e.1, 27 ∉ name
  contents : ∀ e ∈ t.entries, 27 ∉ e.2.content

/-- What is shown of a script holds no escape character. -/
structure Script.EscapeFree (s : Script) : Prop where
  path : 27 ∉ s.path.bytes
  findings : ∀ f ∈ s.analysis.findings, escape ∉ f.text.toList

theorem Script.Reached.escapeFree {s : Script} (h : s.Reached) (hpath : 27 ∉ s.path.bytes)
    (htext : escape ∉ s.source.text.toList) : s.EscapeFree := by
  obtain ⟨fs, kept, hfs, hkept, hanalysis⟩ := h.exists_findings
  refine ⟨hpath, ?_⟩
  rw [hanalysis]
  exact fun f hf =>
    Source.not_mem_text_of_mem_findings (by decide) htext hfs (hkept.subset hf)

theorem Place.escape_not_mem_path {place : Place} (h : ∀ name ∈ place, 27 ∉ name) :
    27 ∉ place.path.bytes := by
  unfold path
  split
  · decide
  · intro hmem
    obtain ⟨name, hname, hmem⟩ := List.mem_flatMap.mp hmem
    rcases List.mem_cons.mp hmem with hslash | hmem
    · exact absurd hslash (by decide)
    · exact h name hname hmem

/-- A script from such a tree is shown without escape characters. -/
theorem Disk.escapeFree_of_check {d : Disk} (hd : d.tree.EscapeFree) {o : Options} {p : Path}
    {s : Script} (h : d.check o p = .ok s) : s.EscapeFree := by
  obtain ⟨place, bytes, _, hget, hsource⟩ := source_of_check h
  have hne : place ≠ [] := by
    rintro rfl
    cases hget
  have hmem := FileTree.mem_of_get?_eq_some hne hget
  refine (reached_of_check h).escapeFree ?_ ?_
  · rw [Script.path, hsource]
    exact Place.escape_not_mem_path (hd.names _ hmem)
  · rw [hsource]
    exact Utf8.not_mem_decodeLossy (by decide) (hd.contents _ hmem)

/-! Reports. -/

theorem Finding.shows_render {f : Finding} {path : Path} (hpath : 27 ∉ path.bytes)
    (htext : escape ∉ f.text.toList) : Shows (f.render path true) (f.render path false) := by
  have hplace : Shows path.display path.display := .self (Path.escape_not_mem_display hpath)
  have hline : Shows (toString f.line) (toString f.line) :=
    .printable (printable_toString_nat f.line)
  have hlevel : Shows (f.severity.color.bold f.severity.name) f.severity.name :=
    .bold _ (f.severity.printable_name.not_mem (by decide))
  have hrule : Shows f.rule.name f.rule.name := .printable f.rule.printable_name
  exact (((((((hplace.append (.self (by decide))).append hline).append (.self (by decide))).append
    hlevel).append (.self (by decide))).append hrule).append (.self (by decide))).append (.self htext)

theorem Result.escape_not_mem_fileName {r : Result} (h : 27 ∉ r.path.bytes) :
    escape ∉ r.fileName.toList := by
  unfold fileName
  cases hname : r.path.fileName? with
  | none => decide
  | some name =>
    exact Utf8.not_mem_decodeLossy (by decide) (mt (Path.mem_of_mem_fileName? hname) h)

namespace Script

variable {s : Script}

theorem report_recolor (s : Script) (colors nameOnly : Bool) : (s.recolor colors).report nameOnly =
    if s.analysis.findings.isEmpty then ""
    else if nameOnly then s.result.fileName
    else "\n".intercalate (s.analysis.findings.map (·.render s.path colors)) := rfl

theorem EscapeFree.shows_report (h : s.EscapeFree) (nameOnly : Bool) :
    Shows ((s.recolor true).report nameOnly) ((s.recolor false).report nameOnly) := by
  rw [report_recolor, report_recolor]
  split
  · exact .empty
  · split
    · exact .self (Result.escape_not_mem_fileName h.path)
    · exact .intercalate (by decide) fun f hf => Finding.shows_render h.path (h.findings f hf)

/-- Whether there is a report is the same with colors and without. -/
theorem isEmpty_report_recolor (s : Script) (nameOnly : Bool) :
    ((s.recolor true).report nameOnly).isEmpty = ((s.recolor false).report nameOnly).isEmpty := by
  rw [report_recolor, report_recolor]
  split
  · rfl
  · next hfindings =>
    split
    · rfl
    · have hwritten : ∀ colors, "\n".intercalate
          (s.analysis.findings.map (·.render s.path colors)) ≠ "" := by
        intro colors
        refine CommandLine.intercalate_ne_empty (by simpa using hfindings) ?_
        intro text htext
        obtain ⟨f, _, rfl⟩ := List.mem_map.mp htext
        simp [Finding.render]
      rw [Bool.eq_iff_iff, String.isEmpty_iff, String.isEmpty_iff]
      exact iff_of_false (hwritten true) (hwritten false)

end Script

/-- The first answer is the second one, but for its colors. -/
structure Answer.Colors (colored plain : Answer) : Prop where
  stdout : Shows colored.stdout plain.stdout
  code : colored.code = plain.code
  fatal : colored.fatal = plain.fatal

namespace CommandLine

variable {c c' : CommandLine} {d : Disk} {ss : List Script} {u : Summary}

theorem shows_lines {texts texts' : List String} (h : List.Forall₂ Shows texts texts') :
    Shows (lines texts) (lines texts') := by
  induction h with
  | nil => exact .empty
  | @cons text text' texts texts' htext _ ih =>
    have hline := htext.append (.self (by decide) : Shows "\n" "\n")
    simp only [lines, List.map_cons, String.join_cons]
    exact hline.append ih

theorem shows_reports (h : ∀ s ∈ ss, s.EscapeFree) (nameOnly : Bool) :
    Shows (lines (((ss.map (Script.recolor true)).map (·.report nameOnly)).filter (!·.isEmpty)))
      (lines (((ss.map (Script.recolor false)).map (·.report nameOnly)).filter (!·.isEmpty))) := by
  rw [List.map_map, List.map_map, List.filter_map, List.filter_map]
  have hkept : ss.filter ((!·.isEmpty) ∘ (·.report nameOnly) ∘ Script.recolor true) =
      ss.filter ((!·.isEmpty) ∘ (·.report nameOnly) ∘ Script.recolor false) :=
    List.filter_congr fun s _ => congrArg (!·) (s.isEmpty_report_recolor nameOnly)
  rw [hkept]
  apply shows_lines
  rw [List.forall₂_map_left_iff, List.forall₂_map_right_iff, List.forall₂_same]
  exact fun s hs => (h s (List.mem_filter.mp hs).1).shows_report nameOnly

theorem shows_printText (c : CommandLine) (h : ∀ s ∈ ss, s.EscapeFree)
    (hu : ∀ e ∈ u.scores, 27 ∉ e.1.bytes) (code : Nat) :
    Shows (c.printText true (ss.map (Script.recolor true)) u code)
      (c.printText false (ss.map (Script.recolor false)) u code) := by
  have hscores : ∀ {text text' : String}, Shows text text' →
      Shows (lines (if u.scores.isEmpty then [] else [text]))
        (lines (if u.scores.isEmpty then [] else [text'])) := by
    intro text text' htext
    split
    · exact shows_lines .nil
    · exact shows_lines (.cons htext .nil)
  have hcode : Shows s!"Exiting with code {code}" s!"Exiting with code {code}" :=
    .append (.self (by decide)) (.printable (printable_toString_nat code))
  unfold printText
  dsimp only
  split
  · exact .empty
  · split
    · exact hscores (ScoreList.shows_grouped hu)
    · split
      · exact shows_reports h _
      · simp only [lines_append]
        exact ((shows_reports h _).append (hscores (ScoreList.shows_listing hu))).append
          (shows_lines (.cons u.shows_statusLine (.cons hcode .nil)))

theorem mapM_map_recolor (ss : List Script) (colors : Bool) :
    (ss.map (Script.recolor colors)).mapM Script.toJson? = ss.mapM Script.toJson? := by
  induction ss with
  | nil => rfl
  | cons s ss ih =>
    rw [List.map_cons, List.mapM_cons, List.mapM_cons, ih]
    rfl

theorem foldl_map_recolor (ss : List Script) (colors : Bool) :
    (ss.map (Script.recolor colors)).foldl Summary.add .empty = ss.foldl Summary.add .empty := by
  rw [List.foldl_map]
  rfl

theorem shows_json (results : List Json) :
    Shows ((Json.list results).render 0 ++ "\n") ((Json.list results).render 0 ++ "\n") := by
  refine .append (.self fun hmem => ?_) (.self (by decide))
  exact absurd (Json.lined_render 0 _ _ hmem) (by decide)

theorem colors_print (c : CommandLine) (h : ∀ s ∈ ss, s.EscapeFree) :
    (c.print true (ss.map (Script.recolor true))).Colors
      (c.print false (ss.map (Script.recolor false))) := by
  have hscores : ∀ e ∈ (ss.foldl Summary.add .empty).scores, 27 ∉ e.1.bytes := by
    have hlist : (ss.foldl Summary.add .empty).scores = _ := Summary.scores_ofScripts ss
    rw [hlist]
    intro e he
    obtain ⟨s, hs, rfl⟩ := List.mem_map.mp he
    exact (h s hs).path
  unfold print
  simp only [mapM_map_recolor, foldl_map_recolor]
  split
  · exact ⟨shows_printText c h hscores _, rfl, rfl⟩
  · split
    · exact ⟨.empty, rfl, rfl⟩
    · split
      · exact ⟨shows_json _, rfl, rfl⟩
      · exact ⟨.empty, rfl, rfl⟩

/-- JSON and names have no colors. -/
theorem stdout_print_eq (ss : List Script)
    (hplain : c.has .json = true ∨ c.has .nameOnly = true ∧ c.has .score = false) :
    (c.print true (ss.map (Script.recolor true))).stdout =
      (c.print false (ss.map (Script.recolor false))).stdout := by
  unfold print
  simp only [mapM_map_recolor, foldl_map_recolor]
  rcases hplain with hjson | ⟨hname, hscore⟩
  · simp only [hjson, Bool.not_true, Bool.false_eq_true, if_false]
  · have hreports : (ss.map (Script.recolor true)).map (·.report true) =
        (ss.map (Script.recolor false)).map (·.report true) := by
      rw [List.map_map, List.map_map]
      refine List.map_congr_left fun s _ => ?_
      change (s.recolor true).report true = (s.recolor false).report true
      simp only [Script.report_recolor, if_true]
    have htext : ∀ u code, c.printText true (ss.map (Script.recolor true)) u code =
        c.printText false (ss.map (Script.recolor false)) u code := by
      intro u code
      simp only [printText, hname, hscore, hreports, Bool.false_eq_true, if_false, if_true]
    simp only [htext]

theorem print_eq (h : c.Adds .noColors c') : c'.print = c.print := by
  have hkeeps : ∀ k : Key, k ≠ .noColors → c'.has k = c.has k := fun _ => h.has_eq
  funext colors scripts
  unfold print printText
  rw [hkeeps .json (by decide), hkeeps .strict (by decide), hkeeps .quiet (by decide),
    hkeeps .score (by decide), hkeeps .nameOnly (by decide)]

/-- What colors make of a run. -/
structure OnlyColors (c : CommandLine) (colored plain : Answer) : Prop where
  stdout : strip colored.stdout = plain.stdout
  code : colored.code = plain.code
  fatal : colored.fatal = plain.fatal
  /-- JSON has no colors, nor have names if no scores are printed in their place. -/
  same : c.has .json = true ∨ c.has .nameOnly = true ∧ c.has .score = false →
    colored.stdout = plain.stdout

/-- The scripts can be checked with colors if they can be checked without. -/
theorem check_cases (c : CommandLine) (d : Disk) :
    (∃ fault, ∀ colors, c.check d colors = .error fault) ∨
      ∃ ss, c.check d false = .ok ss ∧
        ∀ colors, c.check d colors = .ok (ss.map (Script.recolor colors)) := by
  cases hcheck : c.check d false with
  | error fault => exact Or.inl ⟨fault, fun colors => by rw [c.check_eq, hcheck]; rfl⟩
  | ok ss => exact Or.inr ⟨ss, rfl, fun colors => by rw [c.check_eq, hcheck]; rfl⟩

theorem onlyColors_run (hd : d.tree.EscapeFree) (hcolors : c.has .noColors = false)
    (h : c.Adds .noColors c') : c.OnlyColors (c.run d true) (c'.run d true) := by
  have hcheck : ∀ colors, c'.check d colors = c.check d colors := (h.sameTask rfl).check_eq d
  unfold run
  simp only [hcolors, h.given, Bool.not_false, Bool.not_true, Bool.and_true, Bool.and_false,
    print_eq h, hcheck]
  rcases c.check_cases d with ⟨fault, herror⟩ | ⟨ss, hss, hok⟩
  · simp only [herror]
    exact ⟨Shows.empty.strip_eq, rfl, rfl, fun _ => rfl⟩
  · have hfree : ∀ s ∈ ss, s.EscapeFree := by
      intro s hs
      obtain ⟨q, hq⟩ := exists_check_of_mem hss hs
      exact Disk.escapeFree_of_check hd hq
    have hprint := colors_print c hfree
    simp only [hok]
    exact ⟨hprint.stdout.strip_eq, hprint.code, hprint.fatal, stdout_print_eq ss⟩

/-- Colors add nothing but control sequences to what a run prints, nor to a report, a list of scores
or a status line. -/
theorem colors_only_add_sequences :
    (∀ (arguments : List Argument) (c : CommandLine) (d : Disk), parse arguments = .ok c →
      c.has .noColors = false → d.tree.EscapeFree →
      (∃ c', parse (Utf8.encode "-c" :: arguments) = .ok c' ∧ c.Adds .noColors c') ∧
      ∀ arguments' c', parse arguments' = .ok c' → c.Adds .noColors c' →
        c.OnlyColors (answer arguments d true) (answer arguments' d true)) ∧
    (∀ s : Script, s.EscapeFree → ∀ nameOnly,
      strip ((s.recolor true).report nameOnly) = (s.recolor false).report nameOnly) ∧
    (∀ s : Script, s.Reached → 27 ∉ s.path.bytes → escape ∉ s.source.text.toList →
      s.EscapeFree) ∧
    (∀ scores : ScoreList, (∀ e ∈ scores, 27 ∉ e.1.bytes) →
      strip (scores.listing true) = scores.listing false ∧
      strip (scores.grouped true) = scores.grouped false) ∧
    ∀ u : Summary, strip (u.statusLine true) = u.statusLine false := by
  refine ⟨?run, ?report, ?reached, ?scores, ?status⟩
  case run =>
    intro arguments c d hparse hcolors hd
    refine ⟨parse_noColors hparse hcolors, fun arguments' c' hparse' hwith => ?_⟩
    simp only [answer, hparse, hparse']
    exact onlyColors_run hd hcolors hwith
  case report => exact fun s hs nameOnly => (hs.shows_report nameOnly).strip_eq
  case reached => exact fun s hs => hs.escapeFree
  case scores =>
    exact fun scores h =>
      ⟨(ScoreList.shows_listing h).strip_eq, (ScoreList.shows_grouped h).strip_eq⟩
  case status => exact fun u => u.shows_statusLine.strip_eq

theorem escapeFree_twoScripts : twoScripts.tree.EscapeFree :=
  ⟨by decide +kernel, by decide +kernel⟩

theorem colors_only_add_sequences_twoScripts :
    let c : CommandLine := ⟨[], ["d", "a.py"].map .ofString⟩
    let c' : CommandLine := ⟨[(.noColors, "")], ["d", "a.py"].map .ofString⟩
    let arguments := ["d", "a.py"].map Utf8.encode
    let arguments' := ["d", "-c", "a.py"].map Utf8.encode
    parse arguments = .ok c ∧ parse arguments' = .ok c' ∧
    c.OnlyColors (answer arguments twoScripts true) (answer arguments' twoScripts true) ∧
    (answer arguments twoScripts true).stdout ≠ (answer arguments' twoScripts true).stdout := by
  intro c c' arguments arguments'
  have hparse : parse arguments = .ok c := by decide +kernel
  have hparse' : parse arguments' = .ok c' := by decide +kernel
  have honly := (colors_only_add_sequences.1 _ c twoScripts hparse rfl escapeFree_twoScripts).2 _ c'
    hparse' (c.adds_cons .noColors "")
  have hrun : answer arguments twoScripts true = c.print true _ :=
    answer_eq_print hparse (check_twoScripts c (by decide +kernel) true)
  have hrun' : answer arguments' twoScripts true = c'.print false _ :=
    answer_eq_print hparse' (check_twoScripts c' (by decide +kernel) false)
  refine ⟨hparse, hparse', honly, ?_⟩
  rw [hrun, hrun']
  decide +kernel

/-- With names only, the scores that are printed if they are asked for are in color. -/
theorem not_stdout_eq_of_nameOnly : ¬ ∀ (arguments : List Argument) (c : CommandLine) (d : Disk),
    parse arguments = .ok c → c.has .noColors = false → d.tree.EscapeFree →
    c.has .json = true ∨ c.has .nameOnly = true →
    (answer arguments d true).stdout = (answer (Utf8.encode "-c" :: arguments) d true).stdout := by
  intro hlaw
  let c : CommandLine := ⟨[(.nameOnly, ""), (.score, "")], [.ofString "a.py"]⟩
  let c' : CommandLine := ⟨(.noColors, "") :: c.options, c.paths⟩
  have hparse : parse (["-n", "-S", "a.py"].map Utf8.encode) = .ok c := by decide +kernel
  have hparse' : parse (["-c", "-n", "-S", "a.py"].map Utf8.encode) = .ok c' := by decide +kernel
  have hrun : answer (["-n", "-S", "a.py"].map Utf8.encode) twoScripts true = c.print true _ :=
    answer_eq_print hparse (check_indentedAlone c (by decide +kernel) true)
  have hrun' : answer (["-c", "-n", "-S", "a.py"].map Utf8.encode) twoScripts true =
      c'.print false _ :=
    answer_eq_print hparse' (check_indentedAlone c' (by decide +kernel) false)
  have hequal := hlaw _ c twoScripts hparse rfl escapeFree_twoScripts (Or.inr rfl)
  rw [hrun] at hequal
  exact absurd (hequal.trans (congrArg Answer.stdout hrun')) (by decide +kernel)

end CommandLine
end ScriptAudit
