import ScriptAudit.Proofs.Analysis.Findings
import ScriptAudit.Proofs.Message.Newline
import ScriptAudit.Proofs.Rules.Fillings

/-! # Control characters in findings

The rules put nothing into their messages but what they have found in the text of the script, and
the catalog has no control characters. So a control character that is not in the text is in no
finding either. Main statement: `Source.not_mem_text_of_mem_findings`.
-/
namespace ScriptAudit
open Rules

namespace Pattern

variable {p : Pattern} {text : String} {lines : LineIndex} {maxLines : Nat} {m : Match} {c : Char}

theorem mem_of_mem_slice {s : Cursor} (hs : s ∈ Cursor.places text.toList) {i j : Nat}
    (h : c ∈ (s.slice i j).toList) : c ∈ text.toList := by
  rw [Cursor.slice, String.toList_ofList] at h
  rw [Cursor.places_eq_map_range] at hs
  obtain ⟨k, _, rfl⟩ := List.mem_map.mp hs
  exact List.mem_of_mem_drop (List.mem_of_mem_drop (List.mem_of_mem_take h))

/-- The text of a match is taken from the text that is searched. -/
theorem mem_of_mem_text (h : m ∈ p.search text lines maxLines) (hc : c ∈ m.text.toList) :
    c ∈ text.toList := by
  obtain ⟨_, s, hs, o, _, rfl⟩ := exists_run_of_mem_search h
  exact mem_of_mem_slice hs hc

theorem mem_of_mem_group (h : m ∈ p.search text lines maxLines) {n : Nat} {value : String}
    (hgroup : m.group n = some value) (hc : c ∈ value.toList) : c ∈ text.toList := by
  obtain ⟨_, s, hs, o, _, rfl⟩ := exists_run_of_mem_search h
  cases n with
  | zero => cases hgroup
  | succ n =>
    have hmem := List.mem_of_getElem? (Option.join_eq_some_iff.mp hgroup)
    obtain ⟨k, _, hk⟩ := List.mem_map.mp hmem
    obtain ⟨⟨i, j⟩, _, rfl⟩ := Option.map_eq_some_iff.mp hk
    exact mem_of_mem_slice hs hc

end Pattern

namespace Finding

variable {rule : RuleName} {line : Nat} {filling : Filling} {f : Finding} {c : Char}

/-- The catalog has no control characters, so those of a finding come from its filling. -/
theorem mem_text_iff (hc : c.toNat < 32) (h : ofRule rule line filling = .ok f) :
    c ∈ f.text.toList ↔ ∃ name ∈ Template.names rule.entry.template, ∃ value,
      filling.value? name = some value ∧ c ∈ value.toList := by
  obtain ⟨text, htext, rfl⟩ := ofRule_eq_ok_iff.mp h
  exact Template.mem_fill_iff (rule.printable_template.not_mem hc) htext

end Finding

theorem Rules.mem_of_mem_messageName {p : Pattern} {text : String} {lines : LineIndex}
    {maxLines : Nat} {m : Match} (h : m ∈ p.search text lines maxLines) {c : Char}
    (hc : c ∈ (messageName m).toList) : c ∈ text.toList := by
  unfold messageName at hc
  cases hgroup : m.group 1 with
  | none => simp [hgroup] at hc
  | some name =>
    rw [hgroup] at hc
    exact Pattern.mem_of_mem_group h hgroup hc

namespace Source

theorem not_mem_text_of_mem_findings {s : Source} {c : Char} (hc : c.toNat < 32)
    (hs : c ∉ s.text.toList) {fs : List Finding} (h : s.findings = .ok fs) {f : Finding}
    (hf : f ∈ fs) : c ∉ f.text.toList := by
  cases hempty : s.text.isEmpty with
  | true =>
    rw [findings_of_isEmpty hempty] at h
    obtain ⟨g, hg, rfl⟩ := map_eq_ok_iff.mp h
    obtain rfl := List.mem_singleton.mp hf
    rw [Finding.mem_text_iff hc hg]
    rintro ⟨_, _, _, hvalue, _⟩
    cases hvalue
  | false =>
    obtain ⟨r, hr, _, hits, hhits, hit, hhit, hof⟩ := (mem_findings_iff hempty h).mp hf
    rw [Finding.mem_text_iff hc hof]
    rintro ⟨name, _, value, hvalue, hmem⟩
    rcases Rule.exists_match_of_value? hr hhits hhit hvalue with ⟨p, _, m, hm, rfl⟩ | ⟨p, m, hm, rfl⟩
    · exact hs (mem_of_mem_messageName hm hmem)
    · exact hs (Pattern.mem_of_mem_text hm hmem)

end Source
end ScriptAudit
