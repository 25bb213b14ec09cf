import ScriptAudit.Proofs.Pattern.Coverage
import ScriptAudit.Proofs.Text.Runs

/-! # The characters that a reading passes

A pattern reads only characters of its sets. Main statements: `covers_of_reads`, by which a
reading goes from one index of the text to a later one over such characters, and
`occursAt_of_reads_literal`.
-/
namespace ScriptAudit

theorem Cursor.slice_ofIndex {text : List Char} {i first : Nat} (h : i ≤ first) (stop : Nat) :
    (ofIndex text i).slice first stop = String.ofList (Text.slice text first stop) := by
  rw [slice, rest_ofIndex, index_ofIndex, List.drop_drop, Nat.add_sub_cancel' h, Text.slice]

namespace Pattern

/-- Whether some set of the pattern has the character. -/
def admits : Pattern → Char → Bool
  | empty, _ | check _, _ => false
  | set s, c => s.contains c
  | seq p q, c | alt p q, c => p.admits c || q.admits c
  | plus _ p, c | group _ p, c => p.admits c

/-- A reading from one index of a text stops at an index, and goes over characters of the test. -/
def Passes (text : List Char) (test : Char → Bool) (reads : Cursor → Cursor → List Mark → Prop) :
    Prop :=
  ∀ i t ms, reads (.ofIndex text i) t ms → ∃ j, t = .ofIndex text j ∧ Text.Covers text test i j

theorem passes_rounds {text : List Char} {test : Char → Bool}
    {body : Cursor → Cursor → List Mark → Prop} (hbody : Passes text test body) :
    Passes text test (Rounds body) := by
  intro i t ms h
  generalize hs : Cursor.ofIndex text i = s at h
  induction h generalizing i with
  | done s => exact ⟨i, hs.symm, .refl text test i⟩
  | more hb _ _ ih =>
    subst hs
    obtain ⟨j, rfl, hcovers⟩ := hbody _ _ _ hb
    obtain ⟨k, hk, hcovers'⟩ := ih j rfl
    exact ⟨k, hk, hcovers.trans hcovers'⟩

theorem reads_set {cs : CharSet} {text : List Char} {i : Nat} {t : Cursor} {ms : List Mark}
    (h : (set cs).Reads (.ofIndex text i) t ms) :
    t = .ofIndex text (i + 1) ∧ ∃ c, text[i]? = some c ∧ cs.contains c = true := by
  obtain ⟨c, rest, hrest, hc, rfl, _⟩ := h
  have hdrop : text.drop i = c :: rest := hrest
  have hget : text[i]? = some c := by rw [← List.head?_drop, hdrop]; rfl
  exact ⟨Cursor.advance_ofIndex hdrop, c, hget, hc⟩

theorem covers_of_reads (text : List Char) (p : Pattern) : Passes text p.admits p.Reads := by
  induction p with
  | empty =>
    rintro i t ms ⟨rfl, _⟩
    exact ⟨i, rfl, .refl text _ i⟩
  | set s =>
    intro i t ms h
    obtain ⟨ht, c, hget, hc⟩ := reads_set h
    exact ⟨i + 1, ht, .single hget hc⟩
  | check a =>
    rintro i t ms ⟨_, rfl, _⟩
    exact ⟨i, rfl, .refl text _ i⟩
  | seq p q hp hq =>
    rintro i t ms ⟨u, ns, os, hread, hread', _⟩
    obtain ⟨j, rfl, hcovers⟩ := hp _ _ _ hread
    obtain ⟨k, rfl, hcovers'⟩ := hq _ _ _ hread'
    exact ⟨k, rfl, (hcovers.mono fun c h => by simp [admits, h]).trans
      (hcovers'.mono fun c h => by simp [admits, h])⟩
  | alt p q hp hq =>
    rintro i t ms (hread | hread)
    · obtain ⟨j, ht, hcovers⟩ := hp _ _ _ hread
      exact ⟨j, ht, hcovers.mono fun c h => by simp [admits, h]⟩
    · obtain ⟨j, ht, hcovers⟩ := hq _ _ _ hread
      exact ⟨j, ht, hcovers.mono fun c h => by simp [admits, h]⟩
  | plus _ p hp =>
    rintro i t ms ⟨u, ns, os, hread, hrounds, _, _⟩
    obtain ⟨j, rfl, hcovers⟩ := hp _ _ _ hread
    obtain ⟨k, ht, hcovers'⟩ := passes_rounds hp _ _ _ hrounds
    exact ⟨k, ht, hcovers.trans hcovers'⟩
  | group n p hp =>
    rintro i t ms ⟨ns, hread, _⟩
    exact hp _ _ _ hread

theorem reads_char {c : Char} {text : List Char} {i : Nat} {t : Cursor} {ms : List Mark}
    (h : (char c).Reads (.ofIndex text i) t ms) :
    text[i]? = some c ∧ t = .ofIndex text (i + 1) := by
  obtain ⟨ht, d, hget, hd⟩ := reads_set h
  obtain rfl : d = c := eq_of_beq hd
  exact ⟨hget, ht⟩

theorem occursAt_of_reads_seqAll_char {word text : List Char} {i : Nat} {t : Cursor}
    {ms : List Mark} (h : (seqAll (word.map char)).Reads (.ofIndex text i) t ms) :
    Text.occursAt word text i = true ∧ t = .ofIndex text (i + word.length) := by
  induction word generalizing i ms with
  | nil =>
    obtain ⟨rfl, _⟩ := h
    exact ⟨by simp [Text.occursAt], rfl⟩
  | cons c word ih =>
    cases word with
    | nil =>
      obtain ⟨hget, ht⟩ := reads_char h
      exact ⟨Text.occursAt_cons.mpr ⟨hget, by simp [Text.occursAt]⟩, ht⟩
    | cons d word =>
      obtain ⟨u, ns, os, hread, hread', _⟩ := h
      obtain ⟨hget, rfl⟩ := reads_char hread
      obtain ⟨hoccurs, ht⟩ := ih hread'
      refine ⟨Text.occursAt_cons.mpr ⟨hget, hoccurs⟩, ?_⟩
      rw [ht, List.length_cons (a := c), Nat.add_right_comm, ← Nat.add_assoc]

theorem occursAt_of_reads_literal {word : String} {text : List Char} {i : Nat} {t : Cursor}
    {ms : List Mark} (h : (literal word).Reads (.ofIndex text i) t ms) :
    Text.occursAt word.toList text i = true ∧ t = .ofIndex text (i + word.toList.length) :=
  occursAt_of_reads_seqAll_char h

theorem exists_reads_of_occursAs {p : Pattern} {text : List Char} {m : Occurrence}
    (h : p.OccursAs text m) : ∃ ms, p.Reads (.ofIndex text m.first) (.ofIndex text m.stop) ms := by
  obtain ⟨t, ms, r, hread, hr, hm⟩ := run_sound p _ _ _ h.2
  obtain ⟨j, rfl, _⟩ := covers_of_reads text p _ _ _ hread
  cases hr
  have hstop : m.stop = j := by rw [Occurrence.stop, hm]; rfl
  exact ⟨ms, hstop ▸ hread⟩

end Pattern
end ScriptAudit
