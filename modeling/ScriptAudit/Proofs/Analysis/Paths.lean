import ScriptAudit.Proofs.Analysis.ByRule
import ScriptAudit.Proofs.Rules.Forms
import ScriptAudit.Proofs.Text.Bytes

/-! # The same text under two paths

Of the path of a script only one thing matters for what is found: whether its extension is that of
Python, to whose scripts two of the rules are confined. Main statement: `Script.check_paths`.
-/
namespace ScriptAudit

/-- Whether the last name of the path has the extension `py`. -/
def Path.IsPython (p : Path) : Prop := p.extension? = some (Utf8.encode "py")

instance (p : Path) : Decidable p.IsPython := inferInstanceAs (Decidable (_ = _))

/-- The rules that are about Python scripts only. -/
def RuleName.pythonOnly (name : RuleName) : Bool := name = .python2Bin || name = .sysExit

theorem Path.textExtension?_eq_iff {p : Path} : p.textExtension? = some "py" ↔ p.IsPython := by
  unfold textExtension? IsPython
  rw [Option.bind_eq_some_iff]
  constructor
  · rintro ⟨bytes, hbytes, hdecode⟩
    rw [hbytes, Utf8.eq_encode_of_decode? (by decide) hdecode]
  · intro h
    exact ⟨_, h, by decide⟩

namespace Rule

variable {r : Rule} {p q : Path} {text : String}

theorem extensions_of_mem_table :
    ∀ r ∈ table, r.extensions = if r.name.pythonOnly then some ["py"] else none := by decide

theorem appliesTo_iff (hr : r ∈ table) (s : Source) :
    r.appliesTo s = true ↔ (r.name.pythonOnly = true → s.path.IsPython) := by
  unfold appliesTo
  rw [extensions_of_mem_table r hr, ← Path.textExtension?_eq_iff]
  cases r.name.pythonOnly with
  | false => simp
  | true =>
    simp only [if_true, Option.all_some, true_implies]
    cases s.path.textExtension? <;> simp

/-- Under another path a rule has the same findings, or none if it is then passed over. -/
theorem found_eq_filter (hr : r ∈ table) (h : q.IsPython → p.IsPython) :
    r.found ⟨q, text⟩ =
      (r.found ⟨p, text⟩).filter fun f => f.rule.pythonOnly = true → q.IsPython := by
  have hrule : ∀ f ∈ r.found ⟨p, text⟩, f.rule = r.name := fun f hf => rule_of_mem_found hr hf
  by_cases hq : r.name.pythonOnly = true → q.IsPython
  · have happlies : r.appliesTo ⟨q, text⟩ = true := (appliesTo_iff hr _).mpr hq
    have happlies' : r.appliesTo ⟨p, text⟩ = true :=
      (appliesTo_iff hr _).mpr fun hname => h (hq hname)
    have hdetect : r.detect ⟨q, text⟩ = r.detect ⟨p, text⟩ := detect_congr hr rfl
    have hfound : r.found ⟨q, text⟩ = r.found ⟨p, text⟩ := by
      unfold found findings
      rw [happlies, happlies', hdetect]
    have hkept : ∀ f ∈ r.found ⟨p, text⟩, decide (f.rule.pythonOnly = true → q.IsPython) = true :=
      fun f hf => decide_eq_true (hrule f hf ▸ hq)
    rw [hfound, List.filter_eq_self.mpr hkept]
  · have happlies : r.appliesTo ⟨q, text⟩ = false :=
      Bool.eq_false_iff.mpr (mt (appliesTo_iff hr _).mp hq)
    rw [found_of_not_appliesTo happlies, eq_comm, List.filter_eq_nil_iff]
    intro f hf
    rwa [decide_eq_true_iff, hrule f hf]

end Rule

namespace Source

variable {p q : Path} {text : String}

theorem found_eq_filter (h : q.IsPython → p.IsPython) :
    found ⟨q, text⟩ =
      (found ⟨p, text⟩).filter fun f => f.rule.pythonOnly = true → q.IsPython := by
  by_cases hempty : text = ""
  · rw [found_of_empty hempty, found_of_empty hempty]
    rfl
  · rw [found_of_ne_empty hempty, found_of_ne_empty hempty, List.filter_flatMap]
    exact List.flatMap_congr fun r hr => Rule.found_eq_filter hr h

theorem found_congr (h : p.IsPython ↔ q.IsPython) : found ⟨q, text⟩ = found ⟨p, text⟩ :=
  calc found ⟨q, text⟩
    _ = (found ⟨p, text⟩).filter fun f => f.rule.pythonOnly = true → q.IsPython :=
      found_eq_filter h.mpr
    _ = (found ⟨p, text⟩).filter fun f => f.rule.pythonOnly = true → p.IsPython := by simp only [h]
    _ = found ⟨p, text⟩ := (found_eq_filter id).symm

theorem found_of_not_isPython (p : Path) (hq : ¬ q.IsPython) :
    found ⟨q, text⟩ =
      (found ⟨p, text⟩).filter fun f => f.rule ≠ .python2Bin ∧ f.rule ≠ .sysExit := by
  rw [found_eq_filter (p := p) fun h => absurd h hq]
  refine List.filter_congr fun f _ => ?_
  simp [hq, RuleName.pythonOnly]

end Source

/-- What a check finds in a text under one path is what it finds under any other if both or neither
have the extension of Python. Under a path without this extension exactly the findings of two rules
are missing, and what is left is counted and scored anew. -/
theorem Script.check_paths (text : String) (o : Options) (p q : Path) :
    ∃ t u : Script, (ofSource ⟨p, text⟩ o).check = .ok t ∧ (ofSource ⟨q, text⟩ o).check = .ok u ∧
      ((p.IsPython ↔ q.IsPython) → u.analysis = t.analysis) ∧
      (¬ q.IsPython →
        u.analysis.findings =
          t.analysis.findings.filter (fun f => f.rule ≠ .python2Bin ∧ f.rule ≠ .sysExit) ∧
        (∀ v, u.analysis.counts.get v = u.analysis.findings.countP (·.severity = v)) ∧
        u.analysis.score = max 0 (100 - (weight u.analysis.findings : Int))) := by
  refine ⟨_, _, check_eq_found _, check_eq_found _, ?_, ?_⟩
  · intro h
    dsimp only [ofSource]
    rw [Source.found_congr h]
  · intro hq
    refine ⟨?_, Analysis.counts_ofFindings _, Analysis.score_ofFindings _⟩
    dsimp only [ofSource, Analysis.ofFindings]
    rw [Source.found_of_not_isPython p hq, List.filter_filter, List.filter_filter]
    exact List.filter_congr fun f _ => Bool.and_comm _ _

end ScriptAudit
