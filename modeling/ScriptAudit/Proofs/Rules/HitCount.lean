import Mathlib.Data.String.Basic
import ScriptAudit.Proofs.Analysis.Findings
import ScriptAudit.Proofs.Rules.Forms

/-! # How many findings a text can have

Rules that speak once about the whole text have one hit at most. The others have at most one for
each match of a pattern, and the matches share the characters of the text. Main statement:
`length_findings_lt`, by which the findings on a text that fits into memory can be counted in 64-bit
words.
-/
namespace ScriptAudit

theorem Source.length_firstLineUnless_le (holds : Bool) : (firstLineUnless holds).length ≤ 1 := by
  unfold firstLineUnless
  split <;> simp

namespace Rule

/-- An upper bound for the number of hits on a source. -/
def mostHits (s : Source) (r : Rule) : Nat := if r.name.speaksOnce then 1 else s.chars.length / 8

theorem length_hits_le {r : Rule} (hr : r ∈ table) {s : Source} {hits : List Hit}
    (h : r.detect s = .ok hits) : hits.length ≤ r.mostHits s := by
  unfold mostHits
  cases form_of_mem_table hr with
  | once test hname hdetect =>
    obtain rfl := Except.ok.inj ((hdetect s).symm.trans h)
    rw [if_pos hname]
    exact Source.length_firstLineUnless_le _
  | perMatch p maxLines silent hit _ hname hleast hdetect =>
    have hmatches : 8 * (s.search p maxLines).length ≤ s.chars.length :=
      Pattern.mul_length_search_le hleast s.text _ maxLines
    obtain rfl := Except.ok.inj ((hdetect s).symm.trans h)
    rw [if_neg (Bool.eq_false_iff.mp hname)]
    split
    · exact Nat.zero_le _
    · rw [List.length_map]
      omega
  | indentation hname hdetect =>
    rw [hdetect] at h
    obtain rfl := Except.ok.inj h
    rw [hname, List.length_map]
    exact Option.length_toList_le

theorem length_findings_le {r : Rule} (hr : r ∈ table) {s : Source} {fs : List Finding}
    (h : r.findings s = .ok fs) : fs.length ≤ r.mostHits s := by
  unfold findings at h
  split at h
  · obtain rfl := Except.ok.inj h
    exact Nat.zero_le _
  · split at h
    · cases h
    · cases hd : r.detect s with
      | error cause => simp [hd] at h
      | ok hits =>
        simp only [hd] at h
        rw [← (mapM_eq_ok_iff.mp h).length_eq]
        exact length_hits_le hr hd

theorem sum_mostHits (s : Source) :
    (table.map (mostHits s)).sum = 12 * (s.chars.length / 8) + 5 := by
  simp only [table, mostHits, RuleName.speaksOnce, List.map_cons, List.map_nil, List.sum_cons,
    List.sum_nil, if_true, Bool.false_eq_true, if_false]
  omega

end Rule

theorem length_flatten_le {ε α β : Type} {f : α → Except ε (List β)} {most : α → Nat} {xs : List α}
    {yss : List (List β)} (h : xs.mapM f = .ok yss)
    (hmost : ∀ x ∈ xs, ∀ ys, f x = .ok ys → ys.length ≤ most x) :
    yss.flatten.length ≤ (xs.map most).sum := by
  replace h := mapM_eq_ok_iff.mp h
  induction h with
  | nil => exact Nat.le_refl _
  | cons hx _ ih =>
    have hhead := hmost _ List.mem_cons_self _ hx
    have htail := ih fun x hx => hmost x (List.mem_cons_of_mem _ hx)
    rw [List.flatten_cons, List.length_append, List.map_cons, List.sum_cons]
    omega

theorem length_toList_le_utf8ByteSize (text : String) : text.toList.length ≤ text.utf8ByteSize := by
  rw [← String.utf8Len_toList]
  induction text.toList with
  | nil => exact Nat.le_refl _
  | cons c cs ih =>
    have hc := c.utf8Size_pos
    rw [List.length_cons, String.utf8Len_cons]
    omega

namespace Source

theorem length_findings_le {s : Source} {fs : List Finding} (h : s.findings = .ok fs) :
    fs.length ≤ 12 * (s.chars.length / 8) + 5 := by
  cases hempty : s.text.isEmpty with
  | true =>
    rw [findings_of_isEmpty hempty] at h
    obtain ⟨f, _, rfl⟩ := map_eq_ok_iff.mp h
    rw [List.length_singleton]
    omega
  | false =>
    rw [findings_of_not_isEmpty hempty] at h
    obtain ⟨fss, hfss, rfl⟩ := map_eq_ok_iff.mp h
    rw [← Rule.sum_mostHits]
    exact length_flatten_le hfss fun r hr fs hfs => Rule.length_findings_le hr hfs

/-- No text of fewer than 2 ^ 63 bytes, and so no text in memory, has as many findings as there
are 64-bit words. -/
theorem length_findings_lt {s : Source} (hsize : s.text.utf8ByteSize < 2 ^ 63) {fs : List Finding}
    (h : s.findings = .ok fs) : fs.length < 2 ^ 64 := by
  have hle := length_findings_le h
  have hchars : s.chars.length ≤ s.text.utf8ByteSize := length_toList_le_utf8ByteSize s.text
  omega

end Source
end ScriptAudit
