import ScriptAudit.Proofs.Summary.Totals

/-! # What a summary can count

The scripts that are summed up are in memory all at once, each with its text. So many findings as
a word cannot count would have to be on texts that do not fit there. Main statements:
`inWords_ofScripts`, and `exitCode_ofScripts`, by which the exit code is a number of findings.
-/
namespace ScriptAudit

/-- There are at most three findings to every two bytes of a text, and five on a text without
any. -/
theorem Script.Reached.length_findings_le {t : Script} (h : t.Reached) :
    t.analysis.findings.length ≤ 2 * (t.source.text.utf8ByteSize + 8) := by
  obtain ⟨fs, kept, hfs, hkept, hanalysis⟩ := h.exists_findings
  have hfindings : t.analysis.findings = kept := congrArg Analysis.findings hanalysis
  have hchars : t.source.chars.length ≤ t.source.text.utf8ByteSize :=
    length_toList_le_utf8ByteSize t.source.text
  have hle := hkept.length_le.trans (Source.length_findings_le hfs)
  rw [hfindings]
  omega

namespace Summary

variable {ts us : List Script}

/-- The scripts fit into memory together: each of them takes up the bytes of its text, and beside
them eight bytes at the least. -/
def InMemory (ts : List Script) : Prop :=
  (ts.map fun t => t.source.text.utf8ByteSize + 8).sum < 2 ^ 63

theorem severityCount_append (ts us : List Script) (v : Severity) :
    severityCount (ts ++ us) v = severityCount ts v + severityCount us v := by
  simp [severityCount]

theorem findingCount_le (h : ∀ t ∈ ts, t.Reached) :
    findingCount ts ≤ 2 * (ts.map fun t => t.source.text.utf8ByteSize + 8).sum := by
  induction ts with
  | nil => exact Nat.zero_le _
  | cons t ts ih =>
    obtain ⟨ht, hts⟩ := List.forall_mem_cons.mp h
    have hhead := ht.length_findings_le
    have htail := ih hts
    unfold findingCount at htail ⊢
    simp only [List.map_cons, List.sum_cons]
    omega

/-- Findings on scripts in memory can be counted in a word. -/
theorem findingCount_lt (h : ∀ t ∈ ts, t.Reached) (hmem : InMemory ts) :
    findingCount ts < 2 ^ 64 := by
  have hle := findingCount_le h
  unfold InMemory at hmem
  omega

theorem inWords_ofScripts (h : ∀ t ∈ ts, t.Reached) (hmem : InMemory ts) : (ofScripts ts).InWords :=
  inWords (by rw [total_counts h]; exact findingCount_lt h hmem)

/-- The number of findings that count for the exit code. -/
def issueCount (ts : List Script) (strict : Bool) : Nat :=
  severityCount ts .error + if strict then severityCount ts .warning else 0

theorem issueCount_append (ts us : List Script) (strict : Bool) :
    issueCount (ts ++ us) strict = issueCount ts strict + issueCount us strict := by
  unfold issueCount
  rw [severityCount_append, severityCount_append]
  split <;> omega

theorem exitCode_eq (u : Summary) (strict : Bool) : u.exitCode strict =
    min 255 (u.counts.error + if strict then u.counts.warning else 0) := by
  cases strict with
  | false => exact Nat.min_comm _ _
  | true => exact Nat.min_comm _ _

/-- The exit code is the number of findings that count for it, up to its highest value. -/
theorem exitCode_ofScripts (h : ∀ t ∈ ts, t.Reached) (strict : Bool) :
    (ofScripts ts).exitCode strict = min 255 (issueCount ts strict) := by
  have herror : (ofScripts ts).counts.error = severityCount ts .error := get_counts h .error
  have hwarning : (ofScripts ts).counts.warning = severityCount ts .warning :=
    get_counts h .warning
  rw [exitCode_eq, herror, hwarning, issueCount]

end Summary
end ScriptAudit
