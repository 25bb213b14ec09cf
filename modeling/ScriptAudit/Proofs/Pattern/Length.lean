import ScriptAudit.Proofs.Pattern.Characters

/-! # How many matches a text can hold

Every reading of a pattern is at least as long as the pattern requires, and the matches of a
search do not overlap. Main statement: `mul_length_search_le`, by which the matches together are
no longer than the text.
-/
namespace ScriptAudit

namespace Pattern

/-- The least number of characters that the pattern can read. -/
def leastLength : Pattern → Nat
  | empty | check _ => 0
  | set _ => 1
  | seq p q => p.leastLength + q.leastLength
  | alt p q => min p.leastLength q.leastLength
  | plus _ p | group _ p => p.leastLength

theorem index_le_of_rounds {body : Cursor → Cursor → List Mark → Prop} {s t : Cursor}
    {ms : List Mark} (h : Rounds body s t ms) : s.index ≤ t.index := by
  induction h with
  | done s => exact Nat.le_refl _
  | more _ hlt _ ih => exact Nat.le_trans (Nat.le_of_lt hlt) ih

theorem add_leastLength_le_of_reads {p : Pattern} {s t : Cursor} {ms : List Mark}
    (h : p.Reads s t ms) : s.index + p.leastLength ≤ t.index := by
  induction p generalizing s t ms with
  | empty =>
    obtain ⟨rfl, _⟩ := h
    exact Nat.le_refl _
  | set cs =>
    obtain ⟨c, rest, _, _, rfl, _⟩ := h
    exact Nat.le_refl _
  | check a =>
    obtain ⟨_, rfl, _⟩ := h
    exact Nat.le_refl _
  | seq p q hp hq =>
    obtain ⟨u, _, _, hread, hread', _⟩ := h
    have hle := hp hread
    have hle' := hq hread'
    simp only [leastLength]
    omega
  | alt p q hp hq =>
    simp only [leastLength]
    rcases h with h | h
    · have hle := hp h
      omega
    · have hle := hq h
      omega
  | plus _ p hp =>
    obtain ⟨u, _, _, hread, hrounds, _, _⟩ := h
    have hle := hp hread
    have hle' := index_le_of_rounds hrounds
    simp only [leastLength]
    omega
  | group n p hp =>
    obtain ⟨_, hread, _⟩ := h
    exact hp hread

variable {p : Pattern} {text : List Char} {m : Occurrence}

theorem add_leastLength_le_of_occursAs (h : p.OccursAs text m) :
    m.first + p.leastLength ≤ m.stop := by
  obtain ⟨_, hread⟩ := exists_reads_of_occursAs h
  exact add_leastLength_le_of_reads hread

theorem stop_le_of_occursAs (h : p.OccursAs text m) : m.stop ≤ text.length := by
  obtain ⟨_, hread⟩ := exists_reads_of_occursAs h
  obtain ⟨j, hj, hcovers⟩ := covers_of_reads text p _ _ _ hread
  have hstop : m.stop = j := congrArg Cursor.index hj
  rcases Nat.lt_or_eq_of_le hcovers.le with hlt | heq
  · obtain ⟨c, hc, _⟩ := hcovers.passes (j - 1) (by omega) (by omega)
    have hlast := (List.getElem?_eq_some_iff.mp hc).1
    omega
  · have hfirst := h.1
    omega

/-- Occurrences that do not overlap fit into the text one behind the other. -/
theorem add_mul_length_le {k n start : Nat} {ms : List Occurrence} (hle : start ≤ n)
    (hpair : ms.Pairwise fun m m' => m.stop ≤ m'.first) (hstart : ∀ m ∈ ms, start ≤ m.first)
    (hlong : ∀ m ∈ ms, m.first + k ≤ m.stop) (hstop : ∀ m ∈ ms, m.stop ≤ n) :
    start + k * ms.length ≤ n := by
  induction ms generalizing start with
  | nil => simpa using hle
  | cons m ms ih =>
    obtain ⟨hhead, htail⟩ := List.pairwise_cons.mp hpair
    have hrest := ih (hstop m List.mem_cons_self) htail hhead
      (fun m' hm' => hlong m' (List.mem_cons_of_mem _ hm'))
      (fun m' hm' => hstop m' (List.mem_cons_of_mem _ hm'))
    have hfirst := hstart m List.mem_cons_self
    have hstep := hlong m List.mem_cons_self
    rw [List.length_cons, Nat.mul_succ]
    omega

theorem mul_length_search_le {k : Nat} (hk : k ≤ p.leastLength) (text : String)
    (lines : LineIndex) (maxLines : Nat) :
    k * (p.search text lines maxLines).length ≤ text.toList.length := by
  have hoccurs := fun m (hm : m ∈ p.taken text.toList) => occursAs_of_mem_taken hm
  have htaken : 0 + k * (p.taken text.toList).length ≤ text.toList.length := by
    refine add_mul_length_le (Nat.zero_le _) (pairwise_taken p text.toList)
      (fun m _ => Nat.zero_le _) ?_ fun m hm => stop_le_of_occursAs (hoccurs m hm)
    intro m hm
    have hlong := add_leastLength_le_of_occursAs (hoccurs m hm)
    omega
  have hkept : (p.search text lines maxLines).length ≤ (p.taken text.toList).length := by
    rw [search_eq, List.length_map]
    exact List.length_filter_le _ _
  have hmul := Nat.mul_le_mul_left k hkept
  omega

end Pattern
end ScriptAudit
