import ScriptAudit.Proofs.Message.ControlSequences
import ScriptAudit.Proofs.Text.Utf8
import ScriptAudit.Summary.Basic

/-! # Colors in scores and totals

The scores and the status line with colors show those without. Main statements:
`ScoreList.shows_listing`, `ScoreList.shows_grouped` and `Summary.shows_statusLine`.
-/
namespace ScriptAudit
open Color

theorem Path.escape_not_mem_display {p : Path} (h : 27 ∉ p.bytes) : escape ∉ p.display.toList :=
  Utf8.not_mem_decodeLossy (by decide) h

theorem Score.shows_format (score : Int) : Shows (format score true) (format score false) := by
  have htext : Printable s!"{score} / {maxScore}" :=
    printable_append.mpr ⟨printable_append.mpr ⟨printable_toString_int score,
      printable_ofList (by decide)⟩, printable_toString_int maxScore⟩
  unfold format
  cases color? score with
  | none => exact .printable htext
  | some c => exact .bold c (htext.not_mem (by decide))

namespace ScoreList

variable {scores : ScoreList}

theorem shows_listing (h : ∀ e ∈ scores, 27 ∉ e.1.bytes) :
    Shows (scores.listing true) (scores.listing false) := by
  refine .intercalate (by decide) ?_
  rintro ⟨path, score⟩ he
  have hpath : Shows path.display path.display := .self (Path.escape_not_mem_display (h _ he))
  exact (hpath.append (.self (by decide))).append (Score.shows_format score)

theorem shows_block (h : ∀ e ∈ scores, 27 ∉ e.1.bytes) (score : Int) :
    Shows (scores.block true score) (scores.block false score) := by
  have hcount := Shows.printable (printable_toString_nat (scores.withScore score).length)
  have hpaths : ∀ p ∈ scores.withScore score, Shows ("\n  " ++ p.display) ("\n  " ++ p.display) := by
    intro p hp
    rw [withScore, List.mem_mergeSort] at hp
    obtain ⟨e, he, rfl⟩ := List.mem_map.mp hp
    exact (Shows.self (by decide)).append
      (.self (Path.escape_not_mem_display (h e (List.mem_filter.mp he).1)))
  exact (((hcount.append (.self (by decide))).append (Score.shows_format score)).append
    (.self (by decide))).append (.join hpaths)

theorem shows_grouped (h : ∀ e ∈ scores, 27 ∉ e.1.bytes) :
    Shows (scores.grouped true) (scores.grouped false) :=
  .intercalate (by decide) fun score _ => shows_block h score

end ScoreList

namespace Summary

theorem printable_status (counts : Tally) : Printable (status counts).1 := by
  unfold status statusOf
  repeat' split
  all_goals
    apply printable_ofList
    decide

theorem shows_lineOf (u : Summary) {status : String × Color} (h : escape ∉ status.1.toList) :
    Shows (u.lineOf true status) (u.lineOf false status) := by
  have hcount (n : Nat) := Shows.printable (printable_toString_nat n)
  refine Shows.append (.append ?scripts (.self (by decide))) (.append ?counts (.self (by decide)))
  case scripts =>
    exact ((((Shows.bold status.2 h).append (.self (by decide))).append
      (hcount u.scripts)).append (.self (by decide))).append (hcount u.withIssues)
  case counts =>
    exact ((((hcount u.counts.error).append (.self (by decide))).append
      (hcount u.counts.warning)).append (.self (by decide))).append (hcount u.counts.info)

theorem shows_statusLine (u : Summary) : Shows (u.statusLine true) (u.statusLine false) := by
  unfold statusLine
  split
  · exact .printable (printable_ofList (by decide))
  · exact u.shows_lineOf ((printable_status u.counts).not_mem (c := escape) (by decide))

end Summary
end ScriptAudit
