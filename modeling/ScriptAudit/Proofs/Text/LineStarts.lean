import ScriptAudit.Proofs.Text.Bytes

/-! # Line starts among the bytes of a text

The byte of a line feed is no part of any other character. So a line starts behind each of these
bytes, whatever the text, and every offset can be looked up, also one inside a character or beyond
the end of the text. Main statement: `indexesLines_ofText`.
-/
namespace ScriptAudit

namespace Utf8

theorem le_byte_of_mem_encodeChar {c : Char} (hc : 0x80 ≤ c.toNat) :
    ∀ b ∈ String.utf8EncodeChar c, 0x80 ≤ b.toNat := by
  have hhigh : ¬c.val.toNat ≤ 127 := Nat.not_le.mpr hc
  unfold String.utf8EncodeChar
  simp only [hhigh, if_false]
  repeat' split
  all_goals
    simp only [List.forall_mem_cons, List.not_mem_nil, false_implies, implies_true, and_true,
      UInt8.toNat_ofNat']
    omega

/-- A line feed is encoded as its own byte, and no other character has this byte. -/
theorem feed_not_mem_encodeChar {c : Char} (hc : c ≠ '\n') :
    Bytes.feed ∉ String.utf8EncodeChar c := by
  intro hmem
  by_cases hlow : c.toNat < 0x80
  · rw [encodeChar_of_lt hlow, List.mem_singleton] at hmem
    have hbyte := congrArg UInt8.toNat hmem
    rw [UInt8.toNat_ofNat_of_lt' (Nat.lt_trans hlow (by decide))] at hbyte
    exact hc (Char.toNat_inj.mp hbyte.symm)
  · exact ne_feed (le_byte_of_mem_encodeChar (Nat.not_lt.mp hlow) _ hmem) rfl

end Utf8

namespace Bytes

/-- The line starts found in bytes, the first of which is at the given offset. -/
def startsFrom (offset : Nat) : List UInt8 → List Nat
  | [] => []
  | b :: bytes => (if b == feed then [offset + 1] else []) ++ startsFrom (offset + 1) bytes

theorem startsFrom_append (offset : Nat) (bytes more : List UInt8) :
    startsFrom offset (bytes ++ more) =
      startsFrom offset bytes ++ startsFrom (offset + bytes.length) more := by
  induction bytes generalizing offset with
  | nil => rfl
  | cons b bytes ih =>
    rw [List.cons_append, startsFrom, startsFrom, ih, List.append_assoc, List.length_cons,
      Nat.add_right_comm, Nat.add_assoc]

theorem startsFrom_of_not_mem {bytes : List UInt8} (h : feed ∉ bytes) (offset : Nat) :
    startsFrom offset bytes = [] := by
  induction bytes generalizing offset with
  | nil => rfl
  | cons b bytes ih =>
    obtain ⟨hb, hbytes⟩ := not_or.mp (mt List.mem_cons.mpr h)
    have hne : (b == feed) = false := beq_false_of_ne (Ne.symm hb)
    rw [startsFrom, hne, ih hbytes]
    rfl

theorem mem_startsFrom_iff {bytes : List UInt8} {offset start : Nat} :
    start ∈ startsFrom offset bytes ↔
      ∃ i, bytes[i]? = some feed ∧ start = offset + i + 1 := by
  induction bytes generalizing offset with
  | nil => simp [startsFrom]
  | cons b bytes ih =>
    rw [← Nat.or_exists_add_one, startsFrom, List.mem_append, ih]
    simp only [List.getElem?_cons_zero, List.getElem?_cons_succ, Option.some_inj]
    apply or_congr
    · cases hb : b == feed <;> simp_all
    · simp only [Nat.add_right_comm offset, Nat.add_assoc]

theorem countP_startsFrom (bytes : List UInt8) (offset n : Nat) :
    (startsFrom offset bytes).countP (· ≤ offset + n) = (bytes.take n).count feed := by
  induction bytes generalizing offset n with
  | nil => simp [startsFrom]
  | cons b bytes ih =>
    cases n with
    | zero =>
      rw [List.take_zero, List.count_nil, List.countP_eq_zero]
      intro start hstart hle
      obtain ⟨i, _, rfl⟩ := mem_startsFrom_iff.mp hstart
      have hle : offset + i + 1 ≤ offset + 0 := of_decide_eq_true hle
      omega
    | succ n =>
      have hn := ih (offset + 1) n
      rw [Nat.add_right_comm, Nat.add_assoc] at hn
      rw [startsFrom, List.countP_append, hn, List.take_succ_cons, List.count_cons]
      cases b == feed <;> simp [Nat.add_comm]

end Bytes

namespace LineIndex

/-- Whether a text is gone through by characters or by bytes, the same line starts are found. -/
theorem startsFrom_eq (offset : Nat) (cs : List Char) :
    startsFrom offset cs = Bytes.startsFrom offset (cs.flatMap String.utf8EncodeChar) := by
  induction cs generalizing offset with
  | nil => rfl
  | cons c cs ih =>
    rw [List.flatMap_cons, Bytes.startsFrom_append, String.length_utf8EncodeChar, ← ih, startsFrom]
    by_cases hc : c = '\n'
    · subst hc
      rfl
    · rw [Bytes.startsFrom_of_not_mem (Utf8.feed_not_mem_encodeChar hc), beq_false_of_ne hc]
      rfl

/-- The index has the start of the text and what stands behind each line feed, and a line is looked
up by counting the line feeds before an offset. -/
structure IndexesLines (index : LineIndex) (bytes : List UInt8) : Prop where
  first : index.starts[0]? = some 0
  increasing : index.starts.toList.Pairwise (· < ·)
  mem_iff : ∀ start, start ∈ index.starts ↔
    start = 0 ∨ ∃ i, bytes[i]? = some Bytes.feed ∧ start = i + 1
  lineAt_eq : ∀ offset, index.lineAt offset = 1 + (bytes.take offset).count Bytes.feed
  lineAt_le : ∀ offset later, offset ≤ later → index.lineAt offset ≤ index.lineAt later
  lineAt_pos : ∀ offset, 0 < index.lineAt offset

theorem indexesLines_ofText (text : String) :
    (ofText text).IndexesLines (Utf8.encode text) := by
  have hline (offset : Nat) : (ofText text).lineAt offset =
      1 + ((Utf8.encode text).take offset).count Bytes.feed := by
    have hcount := Bytes.countP_startsFrom (Utf8.encode text) 0 offset
    rw [Nat.zero_add] at hcount
    rw [lineAt_eq_countP (pairwise_starts text), starts_ofText, startsFrom_eq, ← Utf8.encode,
      List.countP_cons, hcount, Nat.add_comm]
    rfl
  exact {
    first := by
      rw [← Array.getElem?_toList, starts_ofText]
      rfl
    increasing := pairwise_starts text
    mem_iff := fun start => by
      rw [← Array.mem_toList_iff, starts_ofText, startsFrom_eq, ← Utf8.encode, List.mem_cons,
        Bytes.mem_startsFrom_iff]
      simp only [Nat.zero_add]
    lineAt_eq := hline
    lineAt_le := fun offset later hle => by
      rw [hline, hline]
      exact Nat.add_le_add_left ((List.take_prefix_take_left hle).sublist.count_le _) 1
    lineAt_pos := fun offset => by
      rw [hline, Nat.add_comm]
      exact Nat.succ_pos _ }

end LineIndex
end ScriptAudit
