import ScriptAudit.Proofs.Pattern.Placement
import ScriptAudit.Proofs.Rules.Deprecated
import ScriptAudit.Proofs.Rules.LineEnds
import ScriptAudit.Proofs.Rules.Positions

/-! # Rules that look at one line at a time

A rule whose pattern reads no line feed finds in a text what it finds on the single lines, each
taken as a text of its own. Main statements: `Source.search_lines` and `detect_lines`.
-/
namespace ScriptAudit
open Pattern

/-- The match, found on a line of this number. -/
def Match.onLine (n : Nat) (m : Match) : Match := { m with line := n }

/-- The hit, on a line of this number. -/
def Hit.onLine (n : Nat) (h : Hit) : Hit := { h with line := n }

namespace Source

/-- The lines as scripts of their own, with their numbers. -/
def numberedLines (s : Source) : List (Source × Nat) :=
  ((Text.split '\n' s.chars).map fun line => ⟨s.path, String.ofList line⟩).zipIdx 1

variable {s line rest : Source} {p : Pattern}

/-- A script that consists of a line and of what follows it. -/
structure Splits (s line rest : Source) : Prop where
  path_line : line.path = s.path
  path_rest : rest.path = s.path
  chars_eq : s.chars = line.chars ++ '\n' :: rest.chars
  newline_not_mem : '\n' ∉ line.chars

theorem numberedLines_of_not_mem (h : '\n' ∉ s.chars) : s.numberedLines = [(s, 1)] := by
  rw [numberedLines, Text.split_of_not_mem h]
  simp [chars]

theorem Splits.numberedLines_eq (h : s.Splits line rest) :
    s.numberedLines = (line, 1) :: rest.numberedLines.map fun x => (x.1, x.2 + 1) := by
  have hline : (⟨s.path, String.ofList line.chars⟩ : Source) = line := by
    rw [← h.path_line, chars, String.ofList_toList]
  rw [numberedLines, h.chars_eq, Text.split_append_separator,
    Text.split_of_not_mem h.newline_not_mem, List.singleton_append, List.map_cons,
    List.zipIdx_cons, hline, List.zipIdx_succ, numberedLines, h.path_rest]

/-- Every script is a single line, or a line with a script behind it. -/
@[elab_as_elim]
theorem lineInduction {motive : Source → Prop} (last : ∀ s, '\n' ∉ s.chars → motive s)
    (newline : ∀ s line rest : Source, s.Splits line rest → motive rest → motive s)
    (s : Source) : motive s := by
  obtain ⟨path, text⟩ := s
  rw [← String.ofList_toList (s := text)]
  induction text.toList using Text.pieceInduction '\n' with
  | last cs hcs => exact last _ (by rwa [chars, String.toList_ofList])
  | append cs ds hcs ih =>
    refine newline _ ⟨path, String.ofList cs⟩ ⟨path, String.ofList ds⟩ ⟨rfl, rfl, ?_, ?_⟩ ih
    · simp [chars]
    · rwa [chars, String.toList_ofList]

/-- All matches in a single line are on it. -/
theorem line_of_mem_search (h : '\n' ∉ s.chars) {maxLines : Nat} {m : Match}
    (hm : m ∈ s.search p maxLines) : m.line = 1 := by
  have horder := s.inOrder_search p maxLines
  have hpos := horder.pos m.line (List.mem_map_of_mem hm)
  have hle := horder.le m.line (List.mem_map_of_mem hm)
  rw [List.count_eq_zero_of_not_mem h] at hle
  omega

theorem map_onLine_search (h : '\n' ∉ s.chars) (maxLines : Nat) :
    (s.search p maxLines).map (Match.onLine 1) = s.search p maxLines := by
  refine (List.map_congr_left fun m hm => ?_).trans (List.map_id _)
  rw [Match.onLine, ← line_of_mem_search h hm]
  rfl

/-- A search finds what it finds on the single lines, one after the other. -/
theorem search_lines (hp : p.isLocal = true) (hfeed : p.admits '\n' = false)
    (hgroups : p.groupCount = 0) (s : Source) (maxLines : Nat) :
    s.search p maxLines =
      s.numberedLines.flatMap fun x => (x.1.search p maxLines).map (Match.onLine x.2) := by
  induction s using lineInduction with
  | last s hs =>
    rw [numberedLines_of_not_mem hs, List.flatMap_singleton, map_onLine_search hs]
  | newline s line rest h ih =>
    have hsearch : s.search p maxLines = line.search p maxLines ++
        (rest.search p maxLines).map (Match.below 1) :=
      search_append_newline hp hfeed hgroups h.newline_not_mem h.chars_eq maxLines
    rw [hsearch, h.numberedLines_eq, List.flatMap_cons, map_onLine_search h.newline_not_mem, ih,
      List.map_flatMap, List.flatMap_map]
    simp only [List.map_map]
    rfl

/-- What holds of a script if it holds of its first line or of the rest holds if it holds of some
line. -/
theorem eq_any_numberedLines (test : Source → Bool)
    (h : ∀ {s line rest : Source}, s.Splits line rest → test s = (test line || test rest))
    (s : Source) : test s = s.numberedLines.any fun x => test x.1 := by
  induction s using lineInduction with
  | last s hs =>
    rw [numberedLines_of_not_mem hs]
    simp
  | newline s line rest hsplits ih =>
    rw [h hsplits, hsplits.numberedLines_eq, List.any_cons, List.any_map, ih]
    rfl

theorem isFoundIn_lines (hp : p.isLocal = true) (hfeed : p.admits '\n' = false) (s : Source) :
    p.isFoundIn s.text = s.numberedLines.any fun x => p.isFoundIn x.1.text := by
  refine eq_any_numberedLines (fun s => p.isFoundIn s.text) (fun {s line rest} h => ?_) s
  have htext : s.text.toList = line.text.toList ++ '\n' :: rest.text.toList := h.chars_eq
  rw [isFoundIn_eq, htext, taken_append_newline hp hfeed, isFoundIn_eq, isFoundIn_eq]
  cases p.taken line.text.toList <;> simp

theorem mentions_lines {needle : String} (hfeed : '\n' ∉ needle.toList) (s : Source) :
    s.mentions needle = s.numberedLines.any fun x => x.1.mentions needle := by
  refine eq_any_numberedLines (fun s => s.mentions needle) (fun {s line rest} h => ?_) s
  rw [mentions, h.chars_eq, Text.occursIn_append_cons hfeed]
  rfl

end Source

namespace Rules

/-- The rule has the hits that it has on the single lines, one after the other. -/
def ByLines (d : Detector) : Prop :=
  ∃ hits : Source → List Hit, (∀ s, d s = .ok (hits s)) ∧
    ∀ s, hits s = s.numberedLines.flatMap fun x => (hits x.1).map (Hit.onLine x.2)

/-- The rule has a hit on the first line, unless it has none on some single line. -/
def BySomeLine (d : Detector) : Prop :=
  ∀ s, (d s = .ok [] ∨ d s = .ok [Hit.at 1]) ∧
    (d s = .ok [] ↔ ∃ x ∈ s.numberedLines, d x.1 = .ok [])

variable {p : Pattern} {test : Source → Bool}

theorem byLines_search {hit : Match → Hit} (hp : p.isLocal = true) (hfeed : p.admits '\n' = false)
    (hgroups : p.groupCount = 0) (hhit : ∀ m n, hit (m.onLine n) = (hit m).onLine n)
    (maxLines : Nat) : ByLines fun s => .ok ((s.search p maxLines).map hit) := by
  refine ⟨fun s => (s.search p maxLines).map hit, fun _ => rfl, fun s => ?_⟩
  dsimp only
  rw [s.search_lines hp hfeed hgroups, List.map_flatMap]
  simp only [List.map_map]
  exact List.flatMap_congr fun x _ => List.map_congr_left fun m _ => hhit m x.2

/-- What is looked for is in the script if it is on one of the lines. -/
theorem bySomeLine_firstLineUnless (h : ∀ s, test s = s.numberedLines.any fun x => test x.1) :
    BySomeLine fun s => .ok (Source.firstLineUnless (test s)) := by
  have hiff (s : Source) : (.ok (Source.firstLineUnless (test s)) : Except RuleFault (List Hit)) =
      .ok [] ↔ test s = true := by
    cases htest : test s <;> simp [Source.firstLineUnless]
  intro s
  constructor
  · dsimp only
    cases test s
    · exact Or.inr rfl
    · exact Or.inl rfl
  · simp only [hiff]
    rw [h, List.any_eq_true]

theorem admits_emailPattern : emailPattern.admits '\n' = false := by
  simp [emailPattern, addressWord, sign, spaces, anyCase, alphanumeric, literalAnyCase, char,
    Pattern.star, Pattern.optional, seqAll, admits, CharSet.contains, CharSet.contains_ofList,
    contains_closeCase_newline]

theorem admits_sitePattern : sitePattern.admits '\n' = false := by
  simp [sitePattern, anyCase, literalAnyCase, Pattern.optional, seqAll, admits, CharSet.contains,
    CharSet.contains_ofList, contains_closeCase_newline]

/-- A search for one of the names of the interface that a rule reports or compares with. -/
inductive NameSearch where
  | infolistGet
  | former (f : HookCompletion)
  | new (f : HookCompletion)

def NameSearch.pattern : NameSearch → Pattern
  | infolistGet => Rules.infolistGet
  | former f => literal f.formerName
  | new f => wordStart f.name

theorem NameSearch.isLocal_pattern (q : NameSearch) : q.pattern.isLocal = true := by
  cases q with
  | infolistGet => rfl
  | former f | new f => cases f <;> rfl

theorem NameSearch.admits_pattern (q : NameSearch) : q.pattern.admits '\n' = false := by
  cases q with
  | infolistGet => rfl
  | former f | new f => cases f <;> rfl

theorem NameSearch.groupCount_pattern (q : NameSearch) : q.pattern.groupCount = 0 := by
  cases q with
  | infolistGet => rfl
  | former f | new f => cases f <;> rfl

/-- The rules that look for a link or a name, an address or a tag, look at one line at a time. -/
theorem detect_lines :
    (ByLines sysExit ∧ ByLines urlWeechat) ∧
    (BySomeLine missingEmail ∧ BySomeLine missingSpdxCopyright ∧ BySomeLine missingSpdxLicense) ∧
    ∀ (q : NameSearch) (s : Source), s.search q.pattern 1 =
      s.numberedLines.flatMap fun x => (x.1.search q.pattern 1).map (Match.onLine x.2) := by
  refine ⟨⟨?_, ?_⟩, ⟨?_, ?_, ?_⟩, ?_⟩
  · exact byLines_search rfl (by decide) rfl (fun _ _ => rfl) 1
  · exact byLines_search (by decide) admits_sitePattern (by decide) (fun _ _ => rfl) 1
  · exact bySomeLine_firstLineUnless (Source.isFoundIn_lines (by decide) admits_emailPattern)
  · exact bySomeLine_firstLineUnless (Source.mentions_lines (by decide))
  · exact bySomeLine_firstLineUnless (Source.mentions_lines (by decide))
  · exact fun q s => s.search_lines q.isLocal_pattern q.admits_pattern q.groupCount_pattern 1

end Rules

end ScriptAudit
