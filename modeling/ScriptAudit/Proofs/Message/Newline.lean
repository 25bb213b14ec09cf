import ScriptAudit.Analysis.Finding
import ScriptAudit.Proofs.Message.Filling
import ScriptAudit.Proofs.Message.Printable
import ScriptAudit.Proofs.Text.Utf8

/-! # Line feeds in rendered findings

The path, the number of the line, the names and the templates are all free of line feeds, so a
rendered finding is a single line exactly when the values in its message are. Main statements:
`Template.mem_fill_iff` and `Finding.newline_mem_written_iff`.
-/
namespace ScriptAudit

/-- A character that a template lacks gets into a text through the values only. -/
theorem Template.mem_fill_iff {c : Char} {template : String} (hc : c ∉ template.toList) {f : Filling}
    {text : String} (h : fill template f = .ok text) :
    c ∈ text.toList ↔
      ∃ name ∈ names template, ∃ value, f.value? name = some value ∧ c ∈ value.toList := by
  simp only [mem_names_iff]
  exact (fill_eq_ok_iff.mp h).mem_iff hc

theorem RuleName.newline_not_mem_template (r : RuleName) : '\n' ∉ r.entry.template.toList :=
  r.printable_template.not_mem (by decide)

namespace Finding

/-- A finding as a report without colors should have it. -/
def written (f : Finding) (path : Path) : String :=
  s!"{path.display}:{f.line}: {f.severity.name} [{f.rule.name}]: {f.text}"

theorem render_false (f : Finding) (path : Path) : f.render path false = f.written path := rfl

theorem newline_mem_written_iff {path : Path} (h : 10 ∉ path.bytes) (f : Finding) :
    '\n' ∈ (f.written path).toList ↔ '\n' ∈ f.text.toList := by
  have hpath : '\n' ∉ path.display.toList := Utf8.not_mem_decodeLossy (by decide) h
  have hline := (printable_toString_nat f.line).not_mem (c := '\n') (by decide)
  have hseverity := f.severity.printable_name.not_mem (c := '\n') (by decide)
  have hrule := f.rule.printable_name.not_mem (c := '\n') (by decide)
  have hstring : ∀ t : String, toString t = t := fun _ => rfl
  have hcolon : '\n' ∉ ":".toList := by decide
  have hgap : '\n' ∉ ": ".toList := by decide
  have hopen : '\n' ∉ " [".toList := by decide
  have hclose : '\n' ∉ "]: ".toList := by decide
  simp only [written, hstring, String.toList_append, List.mem_append, hpath, hline, hseverity, hrule,
    hcolon, hgap, hopen, hclose, false_or]

end Finding
end ScriptAudit
