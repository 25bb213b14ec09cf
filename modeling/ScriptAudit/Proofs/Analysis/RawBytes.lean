import ScriptAudit.Discovery
import ScriptAudit.Proofs.Analysis.Arrangement
import ScriptAudit.Proofs.Analysis.Paths
import ScriptAudit.Proofs.Pattern.Literal

/-! # Scripts whose bytes are no text

A file is checked as the text that its bytes are decoded to, in which a replacement character stands
for what is no text. What is found can nevertheless be read off the bytes, line numbers included.
Main statement: `Disk.check_standard`.
-/
namespace ScriptAudit
open Rules

/-- The lines of the findings of a rule. -/
def linesOf (rule : RuleName) (fs : List Finding) : List Nat :=
  (fs.filter (·.rule = rule)).map (·.line)

theorem linesOf_ne_nil_iff {rule : RuleName} {fs : List Finding} :
    linesOf rule fs ≠ [] ↔ ∃ f ∈ fs, f.rule = rule := by
  rw [linesOf, ne_eq, List.map_eq_nil_iff, List.filter_eq_nil_iff]
  simp

/-- The lines on which a word occurs in a file, one for each occurrence. -/
def Bytes.linesWith (word : String) (bytes : List UInt8) : List Nat :=
  (occurrences (Utf8.encode word) bytes).map (lineOf bytes)

/-- Findings that say of the bytes of a file what they say of its text. -/
structure TrueToBytes (path : Path) (bytes : List UInt8) (fs : List Finding) : Prop where
  sysExit : path.IsPython → linesOf .sysExit fs = Bytes.linesWith "sys.exit" bytes
  missingInfolistFree : linesOf .missingInfolistFree fs =
    if Utf8.encode "infolist_free" <:+: bytes then [] else Bytes.linesWith "infolist_get" bytes
  unneededShebang : (∃ f ∈ fs, f.rule = .unneededShebang) ↔ Utf8.encode "#!" <+: bytes
  missingSpdxCopyright : (∃ f ∈ fs, f.rule = .missingSpdxCopyright) ↔
    ¬ Utf8.encode "SPDX-FileCopyrightText:" <:+: bytes
  missingSpdxLicense : (∃ f ∈ fs, f.rule = .missingSpdxLicense) ↔
    ¬ Utf8.encode "SPDX-License-Identifier:" <:+: bytes

theorem Rule.of_find? {name : RuleName} {r : Rule} (h : find? name = some r) :
    r ∈ table ∧ r.name = name :=
  ⟨List.mem_of_find?_eq_some h, by simpa using List.find?_some h⟩

namespace Source

variable {s : Source} {name : RuleName} {r : Rule}

theorem linesOf_found (hne : s.text ≠ "") (hr : Rule.find? name = some r)
    (happlies : r.appliesTo s = true) {hits : List Hit} (hhits : r.detect s = .ok hits) :
    linesOf name s.found = hits.map (·.line) := by
  obtain ⟨hmem, rfl⟩ := Rule.of_find? hr
  rw [linesOf, filter_found hne hmem, Rule.map_line_found hmem happlies hhits]

/-- A rule that speaks once has a finding unless the text is as it should be. -/
theorem exists_found_iff (hne : s.text ≠ "") (hr : Rule.find? name = some r)
    (happlies : r.appliesTo s = true) {holds : Bool}
    (hhits : r.detect s = .ok (firstLineUnless holds)) :
    (∃ f ∈ s.found, f.rule = name) ↔ ¬ holds = true := by
  rw [← linesOf_ne_nil_iff, linesOf_found hne hr happlies hhits]
  cases holds <;> simp [firstLineUnless]

theorem exists_emptyFile_iff : (∃ f ∈ s.found, f.rule = .emptyFile) ↔ s.text = "" := by
  constructor
  · rintro ⟨f, hf, hrule⟩
    by_contra hne
    obtain ⟨r, hr, hf⟩ := (mem_found_iff hne).mp hf
    have hname : ∀ r ∈ Rule.table, r.name ≠ .emptyFile := by decide
    exact hname r hr ((Rule.rule_of_mem_found hr hf).symm.trans hrule)
  · intro h
    rw [found_of_empty h]
    exact ⟨_, List.mem_singleton_self _, rfl⟩

theorem filter_found_standard (s : Source) :
    s.found.filter (fun f => Options.standard.keeps f.rule f.severity) = s.found :=
  List.filter_eq_self.mpr fun f _ => Options.keeps_everything true f

theorem map_line_hits (s : Source) (p : Pattern) (maxLines : Nat) :
    (s.hits p maxLines).map (·.line) = (s.search p maxLines).map (·.line) := by
  rw [hits, List.map_map]
  rfl

end Source

namespace Utf8

variable {word : String} (hascii : IsAscii word) (hword : word.toList ≠ []) {s : Source}
  {bytes : List UInt8}

include hascii hword

/-- A word is found on the lines that it has among the bytes. -/
theorem lines_search_decoded (hline : '\n' ∉ word.toList) (hself : Text.Unbordered word.toList)
    (hbytes : Transcribes bytes s.chars) :
    (s.search (Pattern.literal word) 1).map (·.line) = Bytes.linesWith word bytes := by
  rw [Source.lines_search_literal hline hself, Bytes.linesWith]
  exact ((spells_encode hascii hword).map_lineOf_occurrences hbytes).symm

theorem mentions_iff (hbytes : Transcribes bytes s.chars) :
    s.mentions word = true ↔ encode word <:+: bytes := by
  rw [(spells_encode hascii hword).infix_iff hbytes]
  exact Text.occursIn_iff

end Utf8

theorem Source.trueToBytes_found {s : Source} {bytes : List UInt8}
    (hbytes : Utf8.Transcribes bytes s.chars) (hne : s.text ≠ "") :
    TrueToBytes s.path bytes s.found where
  sysExit hpython := by
    have hr : Rule.find? .sysExit = some ⟨.sysExit, .warning, some ["py"], sysExit⟩ := rfl
    have happlies := (Rule.appliesTo_iff (Rule.of_find? hr).1 s).mpr fun _ => hpython
    rw [linesOf_found hne hr happlies rfl, map_line_hits]
    exact Utf8.lines_search_decoded (by decide) (by decide) (by decide) (by decide) hbytes
  missingInfolistFree := by
    have hr : Rule.find? .missingInfolistFree =
      some ⟨.missingInfolistFree, .error, none, missingInfolistFree⟩ := rfl
    have hfree : s.mentions "infolist_free" = true ↔ Utf8.encode "infolist_free" <:+: bytes :=
      Utf8.mentions_iff (by decide) (by decide) hbytes
    rw [linesOf_found hne hr rfl (congrFun missingInfolistFree_eq s)]
    by_cases h : Utf8.encode "infolist_free" <:+: bytes
    · rw [if_pos h, if_pos (hfree.mpr h)]
      rfl
    · rw [if_neg h, if_neg (mt hfree.mp h), map_line_hits]
      exact Utf8.lines_search_decoded (by decide) (by decide) (by decide) (by decide) hbytes
  unneededShebang := by
    have hr : Rule.find? .unneededShebang =
      some ⟨.unneededShebang, .info, none, unneededShebang⟩ := rfl
    rw [exists_found_iff hne hr rfl rfl, Bool.not_eq_true', Bool.not_eq_false,
      List.isPrefixOf_iff_prefix]
    exact ((Utf8.spells_encode (by decide) (by decide)).prefix_iff hbytes).symm
  missingSpdxCopyright := by
    have hr : Rule.find? .missingSpdxCopyright =
      some ⟨.missingSpdxCopyright, .info, none, missingSpdxCopyright⟩ := rfl
    rw [exists_found_iff hne hr rfl rfl, Utf8.mentions_iff (by decide) (by decide) hbytes]
  missingSpdxLicense := by
    have hr : Rule.find? .missingSpdxLicense =
      some ⟨.missingSpdxLicense, .info, none, missingSpdxLicense⟩ := rfl
    rw [exists_found_iff hne hr rfl rfl, Utf8.mentions_iff (by decide) (by decide) hbytes]

namespace Disk

variable {d : Disk} {p : Path} {place : Place} {bytes : List UInt8}

/-- With the standard options all findings on a file are kept. -/
theorem check_standard_eq (h : d.read p = .ok (place, bytes)) :
    d.check .standard p = .ok ⟨⟨place.path, Utf8.decodeLossy bytes⟩, .standard,
      .ofFindings (Source.found ⟨place.path, Utf8.decodeLossy bytes⟩)⟩ := by
  have hload : d.load .standard p =
      .ok (.ofSource ⟨place.path, Utf8.decodeLossy bytes⟩ .standard) := by rw [load, h]
  refine bind_eq_ok_iff.mpr ⟨_, hload, ?_⟩
  rw [Script.check_eq_found]
  dsimp only [Script.ofSource]
  rw [Source.filter_found_standard]

/-- A file is checked with the standard options by its bytes. It is empty if it has none. Otherwise
the calls that end a Python script, and those for which something has to be freed, are found where
they stand among the bytes; the first line and the tags are judged by the bytes that a file starts
with and that occur in it. No finding is on a line that the bytes do not have. -/
theorem check_standard (h : d.read p = .ok (place, bytes)) :
    ∃ t, d.check .standard p = .ok t ∧ t.path = place.path ∧
      ((∃ f ∈ t.analysis.findings, f.rule = .emptyFile) ↔ bytes = []) ∧
      (bytes ≠ [] → TrueToBytes place.path bytes t.analysis.findings) ∧
      ∀ f ∈ t.analysis.findings, f.line ≤ bytes.count Bytes.feed + 1 := by
  have hbytes := Utf8.transcribes_decodeLossy bytes
  refine ⟨_, check_standard_eq h, rfl, ?_, ?_, ?_⟩
  · exact Source.exists_emptyFile_iff.trans Utf8.decodeLossy_eq_empty_iff
  · intro hne
    exact Source.trueToBytes_found (s := ⟨place.path, Utf8.decodeLossy bytes⟩) hbytes
      (Utf8.decodeLossy_ne_empty hne)
  · intro f hf
    rw [hbytes.count_feed]
    exact ((Source.arranged_found _).bounds f hf).2

/-- A sequence of bytes that breaks off ahead of a call, on the second line. -/
def brokenBytes : List UInt8 :=
  Utf8.encode "#\n" ++ [0xE2, 0x82] ++ Utf8.encode "sys.exit" ++ [0xE9]

def scriptOfBrokenBytes : Disk := ⟨.ofList [(["a.py"].map Utf8.encode, .file brokenBytes)], []⟩

theorem check_standard_brokenBytes :
    scriptOfBrokenBytes.read (.ofString "a.py") = .ok (["a.py"].map Utf8.encode, brokenBytes) ∧
    brokenBytes ≠ [] ∧ ∃ t, scriptOfBrokenBytes.check .standard (.ofString "a.py") = .ok t ∧
      linesOf .sysExit t.analysis.findings = [2] ∧ ∀ f ∈ t.analysis.findings, f.line ≤ 2 := by
  have hread : scriptOfBrokenBytes.read (.ofString "a.py") =
      .ok (["a.py"].map Utf8.encode, brokenBytes) := by
    decide +kernel
  have hne : brokenBytes ≠ [] := by decide
  obtain ⟨t, ht, _, _, htrue, hlines⟩ := check_standard hread
  refine ⟨hread, hne, t, ht, ?_, hlines⟩
  rw [(htrue hne).sysExit (by decide +kernel)]
  decide +kernel

end Disk
end ScriptAudit
