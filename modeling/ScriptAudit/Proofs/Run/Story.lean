import ScriptAudit.Proofs.Message.Newline
import ScriptAudit.Proofs.Run.Results

/-! # One story in text and in JSON

Whether a run prints text or JSON, it speaks of the same results. The text can be put together from
the results that are serialized: the findings, the scores, the totals and the exit code. Main
statements: `lines_reports`, `ofScripts_eq_totals` and `retells_run`.
-/
namespace ScriptAudit

namespace Result

def hasFindings (r : Result) : Bool := !r.analysis.findings.isEmpty

/-- The findings as a report without colors has them. -/
def entries (r : Result) : List String := r.analysis.findings.map (·.written r.path)

def scoreLine (r : Result) : String := s!"{r.path.display}: score = {r.analysis.score} / 100"

def fileName (r : Result) : String := (r.path.fileName?.map Utf8.decodeLossy).getD ""

/-- The totals of the results. -/
def totals (results : List Result) : Summary where
  scripts := results.length
  withIssues := results.countP hasFindings
  counts := (results.map (·.analysis.counts)).foldl Tally.merge .zero
  scores := results.map fun r => (r.path, r.analysis.score)

/-- All that is to be said about results without colors. -/
def story (results : List Result) (code : Nat) : String :=
  CommandLine.lines (results.flatMap entries ++ results.map scoreLine ++
    [(totals results).statusLine false, s!"Exiting with code {code}"])

/-- The number of findings of a severity as the results have it. -/
def counted (results : List Result) (v : Severity) : Nat :=
  (results.map fun r => r.analysis.counts.get v).sum

end Result

namespace Summary

/-- The status line for given numbers. -/
def statusText (scripts withIssues errors warnings info : Nat) : String :=
  if scripts = 0 then "No scripts analyzed"
  else
    let verdict :=
      if errors + warnings + info = 0 then "Perfect"
      else if errors + warnings = 0 then "Almost good"
      else if errors = 0 then "Not so good"
      else "FAILED"
    s!"{verdict}: {scripts} scripts analyzed, {withIssues} with issues: " ++
      s!"{errors} errors, {warnings} warnings, {info} info"

theorem statusLine_eq_statusText (u : Summary) :
    u.statusLine false = statusText u.scripts u.withIssues u.counts.error u.counts.warning
      u.counts.info := by
  unfold statusLine statusText status statusOf Tally.total Tally.issues
  split
  · rfl
  · split
    · rfl
    · split
      · rfl
      · split <;> rfl

/-- A summary holds no more of the scripts than their results do. -/
theorem ofScripts_eq_totals (ts : List Script) :
    ofScripts ts = Result.totals (ts.map Script.result) := by
  have hcounts : (ofScripts ts).counts = (Result.totals (ts.map Script.result)).counts := by
    rw [Result.totals, List.map_map]
    exact counts_foldl_add ts empty
  have hissues : (ofScripts ts).withIssues = (Result.totals (ts.map Script.result)).withIssues := by
    rw [Result.totals, List.countP_map]
    exact withIssues_ofScripts ts
  have hscores : (ofScripts ts).scores = (Result.totals (ts.map Script.result)).scores := by
    change _ = (ts.map Script.result).map _
    rw [scores_ofScripts, List.map_map]
    rfl
  have hscripts : (ofScripts ts).scripts = (Result.totals (ts.map Script.result)).scripts := by
    rw [Result.totals, List.length_map]
    exact scripts_ofScripts ts
  generalize ofScripts ts = u at *
  cases u
  simp only at hcounts hissues hscores hscripts
  rw [hcounts, hissues, hscores, hscripts]

end Summary

theorem Score.format_false (score : Int) : Score.format score false = s!"{score} / 100" := by
  have hbest : " / " ++ toString maxScore = " / 100" := by decide
  have htext : s!"{score} / {maxScore}" = s!"{score} / 100" := by
    change toString score ++ " / " ++ toString maxScore = toString score ++ " / 100"
    rw [String.append_assoc, hbest]
  unfold Score.format
  dsimp only
  split <;> exact htext

namespace CommandLine

theorem lines_listing (results : List Result) :
    lines (if (Result.totals results).scores.isEmpty then []
      else [(Result.totals results).scores.listing false]) = lines (results.map Result.scoreLine) := by
  have hline (r : Result) : s!"{r.path.display}: score = {Score.format r.analysis.score false}" =
      r.scoreLine := by
    rw [Score.format_false]
    exact (String.append_assoc).symm
  have hlisting : (Result.totals results).scores.listing false =
      "\n".intercalate (results.map Result.scoreLine) := by
    rw [← funext hline, ScoreList.listing, Result.totals, List.map_map]
    rfl
  cases results with
  | nil => rfl
  | cons r results =>
    have hne : (r :: results).map Result.scoreLine ≠ [] := List.cons_ne_nil _ _
    rw [hlisting, ← intercalate_append_newline hne]
    simp [Result.totals, lines]

theorem lines_filter_cons (text : String) (texts : List String) :
    lines ((text :: texts).filter (!·.isEmpty)) =
      lines ([text].filter (!·.isEmpty)) ++ lines (texts.filter (!·.isEmpty)) := by
  rw [← lines_append, ← List.filter_append, List.singleton_append]

theorem intercalate_ne_empty {texts : List String} (hne : texts ≠ [])
    (h : ∀ text ∈ texts, text ≠ "") : "\n".intercalate texts ≠ "" := by
  obtain ⟨text, texts, rfl⟩ := List.exists_cons_of_ne_nil hne
  have htext := h text List.mem_cons_self
  cases texts with
  | nil => simpa using htext
  | cons next texts => simp [String.intercalate_cons_cons]

/-- A report without colors has the findings on its lines, and is left out if there are none. -/
theorem lines_report {s : Script} (hcolors : s.options.colors = false) :
    lines ([s.report false].filter (!·.isEmpty)) = lines s.result.entries := by
  cases hfindings : s.analysis.findings with
  | nil => simp [Script.report, Result.entries, Script.result, hfindings]
  | cons f fs =>
    have hreport : s.report false = "\n".intercalate s.result.entries := by
      simp [Script.report, Result.entries, Script.result, hfindings, hcolors, Finding.render_false]
    have hne : s.result.entries ≠ [] := by simp [Result.entries, Script.result, hfindings]
    have htext : ∀ text ∈ s.result.entries, text ≠ "" := by
      intro text hmem
      obtain ⟨g, _, rfl⟩ := List.mem_map.mp hmem
      simp [Finding.written]
    have hempty := intercalate_ne_empty hne htext
    rw [hreport, ← intercalate_append_newline hne]
    simp [hempty, lines]

theorem lines_reports {scripts : List Script} (hcolors : ∀ s ∈ scripts, s.options.colors = false) :
    lines ((scripts.map (·.report false)).filter (!·.isEmpty)) =
      lines ((scripts.map Script.result).flatMap Result.entries) := by
  induction scripts with
  | nil => rfl
  | cons s scripts ih =>
    obtain ⟨hs, hscripts⟩ := List.forall_mem_cons.mp hcolors
    rw [List.map_cons, List.map_cons, List.flatMap_cons, lines_append, ← ih hscripts,
      lines_filter_cons, lines_report hs]

/-- A report by name is the name of the file, and is left out if nothing was found. -/
theorem filter_names {scripts : List Script} (hnames : ∀ s ∈ scripts, s.result.fileName ≠ "") :
    (scripts.map (·.report true)).filter (!·.isEmpty) =
      ((scripts.map Script.result).filter Result.hasFindings).map Result.fileName := by
  induction scripts with
  | nil => rfl
  | cons s scripts ih =>
    obtain ⟨hs, hscripts⟩ := List.forall_mem_cons.mp hnames
    have hreport : s.report true = if s.result.hasFindings then s.result.fileName else "" := by
      unfold Script.report Result.hasFindings
      cases hempty : s.analysis.findings.isEmpty <;> simp [Script.result, hempty, Result.fileName]
    rw [List.map_cons, List.map_cons, List.filter_cons, List.filter_cons, ih hscripts, hreport]
    cases s.result.hasFindings <;> simp [hs]

end CommandLine

/-- A script that is checked where it was found goes by the name of a file. -/
theorem Disk.WellFormed.fileName_ne_empty {d : Disk} (hd : d.WellFormed) {o : Options} {p : Path}
    {s : Script} (h : d.check o p = .ok s) : s.result.fileName ≠ "" := by
  obtain ⟨place, bytes, _, hget, hsource⟩ := source_of_check h
  have hpath : s.result.path = place.path := congrArg Source.path hsource
  obtain ⟨above, name, rfl⟩ : ∃ above name, place = above ++ [name] := by
    have hne : place ≠ [] := by
      rintro rfl
      cases hget
    exact ⟨_, _, (List.dropLast_concat_getLast hne).symm⟩
  have hname : Path.ValidName name := hd.tree.validName hget (by simp)
  have hne : name ≠ [] := by
    rintro rfl
    cases hname.ofPiece?
  rw [Result.fileName, hpath, Place.fileName?_path hname]
  exact Utf8.decodeLossy_ne_empty hne

namespace CommandLine

variable {c c' : CommandLine} {d : Disk} {colorsAvailable : Bool}

theorem colors_of_check {colors : Bool} {scripts : List Script}
    (h : c.check d colors = .ok scripts) : ∀ s ∈ scripts, s.options.colors = colors := by
  rw [c.check_eq] at h
  obtain ⟨plain, _, rfl⟩ := map_eq_ok_iff.mp h
  intro s hs
  obtain ⟨t, _, rfl⟩ := List.mem_map.mp hs
  rfl

/-- A command line and the same one with the option for JSON. -/
structure WithJson (c c' : CommandLine) : Prop where
  paths : c'.paths = c.paths
  options : ∀ k : Key, k ≠ .json → c'.options.lookup k = c.options.lookup k
  json : c'.has .json = true

theorem withJson_concat (c : CommandLine) :
    c.WithJson ⟨c.options ++ [(.json, "")], c.paths⟩ where
  paths := rfl
  options k hk := by
    rw [List.lookup_append, List.lookup_cons, beq_eq_false_iff_ne.mpr hk, List.lookup_nil,
      Option.or_none]
  json := by simp [has]

namespace WithJson

theorem adds (h : c.WithJson c') : c.Adds .json c' := ⟨h.paths, h.options, h.json⟩

theorem has_eq (h : c.WithJson c') {k : Key} (hk : k ≠ .json) : c'.has k = c.has k :=
  h.adds.has_eq hk

theorem sameTask (h : c.WithJson c') : c'.SameTask c := h.adds.sameTask rfl

theorem scripts_eq (h : c.WithJson c') (d : Disk) (colorsAvailable : Bool) :
    c'.scripts d colorsAvailable = c.scripts d colorsAvailable := by
  unfold CommandLine.scripts inColor
  rw [h.has_eq (by decide), h.sameTask.check_eq]

end WithJson

/-- What a run prints as text is what there is to say about the results that are serialized. -/
structure Retells (c c' : CommandLine) (d : Disk) (colorsAvailable : Bool) : Prop where
  json : (c'.run d colorsAvailable).stdout = Result.jsonText (c'.results d colorsAvailable)
  text : c.has .nameOnly = false → (c.run d colorsAvailable).stdout =
    Result.story (c'.results d colorsAvailable) (c.run d colorsAvailable).code
  names : c.has .nameOnly = true → (c.run d colorsAvailable).stdout =
    lines (((c'.results d colorsAvailable).filter Result.hasFindings).map Result.fileName)
  code : (c.run d colorsAvailable).code =
    (Result.totals (c'.results d colorsAvailable)).exitCode (c.has .strict)
  exact : (Result.totals (c'.results d colorsAvailable)).statusLine false =
      Summary.statusText (c'.results d colorsAvailable).length
        ((c'.results d colorsAvailable).countP Result.hasFindings)
        (Result.counted (c'.results d colorsAvailable) .error)
        (Result.counted (c'.results d colorsAvailable) .warning)
        (Result.counted (c'.results d colorsAvailable) .info) ∧
    (c.run d colorsAvailable).code = min 255 (Result.counted (c'.results d colorsAvailable) .error +
      if c.has .strict then Result.counted (c'.results d colorsAvailable) .warning else 0)
  /-- For scripts in memory no addition leaves the words. -/
  inWords : Summary.InMemory (c'.scripts d colorsAvailable) →
    (Result.totals (c'.results d colorsAvailable)).InWords

theorem stdout_story (h : (c.run d colorsAvailable).fatal = none) (hjson : c.has .json = false)
    (hquiet : c.has .quiet = false) (hscore : c.has .score = false)
    (hcolors : c.has .noColors = true) (hname : c.has .nameOnly = false) :
    (c.run d colorsAvailable).stdout =
      Result.story (c.results d colorsAvailable) (c.run d colorsAvailable).code := by
  have hplain : c.inColor colorsAvailable = false := by simp [inColor, hcolors]
  have hcheck := check_eq_ok_scripts h
  rw [hplain] at hcheck
  rw [stdout_text h hjson, summary, Summary.ofScripts_eq_totals, hplain]
  simp only [printText, hquiet, hscore, hname, Bool.false_eq_true, if_false]
  rw [lines_append, lines_append, lines_reports (colors_of_check hcheck), lines_listing,
    ← lines_append, ← lines_append]
  rfl

theorem stdout_names (hd : d.WellFormed) (h : (c.run d colorsAvailable).fatal = none)
    (hjson : c.has .json = false) (hquiet : c.has .quiet = false) (hscore : c.has .score = false)
    (hname : c.has .nameOnly = true) : (c.run d colorsAvailable).stdout =
      lines (((c.results d colorsAvailable).filter Result.hasFindings).map Result.fileName) := by
  have hnames : ∀ s ∈ c.scripts d colorsAvailable, s.result.fileName ≠ "" := by
    intro s hs
    obtain ⟨q, hq⟩ := exists_check_of_mem (check_eq_ok_scripts h) hs
    exact hd.fileName_ne_empty hq
  rw [stdout_text h hjson]
  simp only [printText, hquiet, hscore, hname, Bool.false_eq_true, if_false, if_true]
  rw [filter_names hnames]
  rfl

theorem summary_eq_totals (c : CommandLine) (d : Disk) (colorsAvailable : Bool) :
    c.summary d colorsAvailable = Result.totals (c.results d colorsAvailable) :=
  Summary.ofScripts_eq_totals _

theorem get_counts_totals (c : CommandLine) (d : Disk) (colorsAvailable : Bool) (v : Severity) :
    (Result.totals (c.results d colorsAvailable)).counts.get v =
      Result.counted (c.results d colorsAvailable) v := by
  have hreached : ∀ s ∈ c.scripts d colorsAvailable, s.Reached := reached_of_mem_scripts
  rw [← summary_eq_totals, summary, Summary.get_counts hreached, ← Summary.sum_counts_eq hreached,
    results, Result.counted, List.map_map]
  rfl

/-- A run without colors and a run that prints JSON on the same paths tell the same: the text is
made of the results that are serialized. -/
theorem retells_run (hd : d.WellFormed) (hwith : c.WithJson c') (hjson : c.has .json = false)
    (hquiet : c.has .quiet = false) (hscore : c.has .score = false)
    (hcolors : c.has .noColors = true) (h : (c.run d colorsAvailable).fatal = none)
    (h' : (c'.run d colorsAvailable).fatal = none) : c.Retells c' d colorsAvailable := by
  have hscripts := hwith.scripts_eq d colorsAvailable
  have hresults : c'.results d colorsAvailable = c.results d colorsAvailable :=
    congrArg (List.map Script.result) hscripts
  have hcode := code_eq h
  rw [summary_eq_totals] at hcode
  constructor
  case json =>
    refine stdout_json h' ?_
    rw [printsJson, hwith.json, hwith.has_eq (by decide), hquiet]
    rfl
  case text =>
    rw [hresults]
    exact stdout_story h hjson hquiet hscore hcolors
  case names =>
    rw [hresults]
    exact stdout_names hd h hjson hquiet hscore
  case code =>
    rw [hresults]
    exact hcode
  case exact =>
    have herror := c.get_counts_totals d colorsAvailable .error
    have hwarning := c.get_counts_totals d colorsAvailable .warning
    have hinfo := c.get_counts_totals d colorsAvailable .info
    simp only [Tally.get] at herror hwarning hinfo
    rw [hresults]
    refine ⟨?_, ?_⟩
    · rw [Summary.statusLine_eq_statusText, herror, hwarning, hinfo]
      rfl
    · rw [hcode, Summary.exitCode_eq, herror, hwarning]
  case inWords =>
    rw [hresults, hscripts, ← summary_eq_totals]
    exact inWords_summary

theorem retells_run_twoScripts :
    let c : CommandLine := ⟨[(.noColors, "")], ["d", "a.py"].map .ofString⟩
    let c' : CommandLine := ⟨[(.noColors, ""), (.json, "")], ["d", "a.py"].map .ofString⟩
    twoScripts.WellFormed ∧ c.WithJson c' ∧ c.has .json = false ∧ c.has .quiet = false ∧
    c.has .score = false ∧ c.has .noColors = true ∧ (c.run twoScripts true).fatal = none ∧
    (c'.run twoScripts true).fatal = none ∧ c.Retells c' twoScripts true ∧
    (c.run twoScripts true).stdout = lines
      ["/d/b.py:1: error [empty_file]: the script is empty",
        "/a.py:1: error [missing_email]: the author e-mail is missing",
        "/a.py:2: warning [sys_exit]: sys.exit() causes WeeChat to exit itself",
        "/a.py:2: warning [mixed_tabs_spaces]: mixed tabs and spaces are used for indentation",
        "/a.py:1: info [missing_spdx_copyright]: the SPDX copyright tag " ++
          "\"SPDX-FileCopyrightText\" is missing",
        "/a.py:1: info [missing_spdx_license]: the SPDX license tag " ++
          "\"SPDX-License-Identifier\" is missing",
        "/d/b.py: score = 0 / 100", "/a.py: score = 68 / 100",
        "FAILED: 2 scripts analyzed, 2 with issues: 2 errors, 2 warnings, 2 info",
        "Exiting with code 2"] := by
  intro c c'
  have hwith : c.WithJson c' := withJson_concat c
  have hcheck := check_twoScripts c (by decide +kernel) false
  have hcheck' := check_twoScripts c' (by decide +kernel) false
  have h : (c.run twoScripts true).fatal = none := fatal_eq_none_of_check rfl hcheck
  have h' : (c'.run twoScripts true).fatal = none :=
    fatal_eq_none_iff.mpr ⟨_, hcheck', fun _ => by decide +kernel⟩
  have hrun : c.run twoScripts true = c.print false _ := run_eq_print hcheck
  exact ⟨wellFormed_twoScripts, hwith, rfl, rfl, rfl, rfl, h, h',
    retells_run wellFormed_twoScripts hwith rfl rfl rfl rfl h h',
    (congrArg Answer.stdout hrun).trans (by decide +kernel)⟩

end CommandLine
end ScriptAudit
