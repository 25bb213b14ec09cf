import Mathlib.Data.List.Infix
import ScriptAudit.Proofs.Text.LineNumber
import ScriptAudit.Proofs.Text.Occurrences
import ScriptAudit.Proofs.Text.Utf8

/-! # Words among the bytes of a file

Whether a word of characters below 0x80 occurs in a file, and on which lines it does, is the same
for the bytes of the file and for the text that they are decoded to, even where the bytes are no
text. Main statements: `Transcribes.prefix_iff`, `infix_iff` and `map_lineOf_occurrences`.
-/
namespace ScriptAudit

namespace Bytes

/-- The byte of a line feed. -/
def feed : UInt8 := 10

/-- All places at which a word occurs among bytes, from left to right. -/
def occurrences (word bytes : List UInt8) : List Nat :=
  (List.range (bytes.length + 1)).filter fun i => word.isPrefixOf (bytes.drop i)

/-- The number of the line on which the byte at index `i` lies. -/
def lineOf (bytes : List UInt8) (i : Nat) : Nat := (bytes.take i).count feed + 1

end Bytes

/-- The lines on which a word occurs, from left to right, when the first line has the number
`line`. -/
def wordLines {α : Type} [BEq α] (feed : α) (word : List α) : Nat → List α → List Nat
  | line, [] => if word.isEmpty then [line] else []
  | line, x :: xs => (if word.isPrefixOf (x :: xs) then [line] else []) ++
    wordLines feed word (if x == feed then line + 1 else line) xs

theorem map_filter_range {α : Type} [BEq α] (feed : α) (word xs : List α) (line : Nat) :
    ((List.range (xs.length + 1)).filter fun i => word.isPrefixOf (xs.drop i)).map
      (fun i => (xs.take i).count feed + line) = wordLines feed word line xs := by
  induction xs generalizing line with
  | nil => cases word <;> simp [wordLines]
  | cons x xs ih =>
    rw [wordLines, ← ih, List.length_cons, List.range_succ_eq_map, List.filter_cons,
      List.filter_map, List.drop_zero]
    have hlines : (fun i => ((x :: xs).take i).count feed + line) ∘ Nat.succ =
        fun i => (xs.take i).count feed + if x == feed then line + 1 else line := by
      funext i
      simp only [Function.comp_apply, Nat.succ_eq_add_one, List.take_succ_cons, List.count_cons]
      split <;> omega
    split <;> simp [hlines, Function.comp_def]

namespace Utf8

/-- Text without any character from 0x80 on. -/
def IsAscii (word : String) : Prop := ∀ c ∈ word.toList, c.toNat < 0x80

instance (word : String) : Decidable (IsAscii word) :=
  List.decidableBAll (fun c : Char => c.toNat < 0x80) word.toList

theorem encodeChar_of_lt {c : Char} (h : c.toNat < 0x80) :
    String.utf8EncodeChar c = [UInt8.ofNat c.toNat] :=
  if_pos (show c.val.toNat ≤ 127 from Nat.le_of_lt_succ h)

theorem transcribes_encodeChar {c : Char} (h : c.toNat < 0x80) :
    Transcribes (String.utf8EncodeChar c) [c] := by
  have hbyte : (UInt8.ofNat c.toNat).toNat = c.toNat :=
    UInt8.toNat_ofNat_of_lt' (Nat.lt_trans h (by decide))
  have hchar : Char.ofNat (UInt8.ofNat c.toNat).toNat = c := by rw [hbyte, Char.ofNat_toNat]
  have hlow : Transcribes [UInt8.ofNat c.toNat] [Char.ofNat (UInt8.ofNat c.toNat).toNat] :=
    .low (by rwa [hbyte]) .nil
  rwa [hchar, ← encodeChar_of_lt h] at hlow

theorem transcribes_encode {word : String} (h : IsAscii word) :
    Transcribes (encode word) word.toList := by
  unfold encode IsAscii at *
  generalize word.toList = cs at *
  induction cs with
  | nil => exact .nil
  | cons c cs ih =>
    obtain ⟨hc, hcs⟩ := List.forall_mem_cons.mp h
    exact (transcribes_encodeChar hc).append (ih hcs)

/-- The bytes and the characters of a word, all of them below 0x80. -/
structure Spells (ws : List UInt8) (w : List Char) : Prop where
  transcribes : Transcribes ws w
  isAscii : ∀ c ∈ w, c.toNat < 0x80
  ne_nil : w ≠ []

theorem spells_encode {word : String} (h : IsAscii word) (hne : word.toList ≠ []) :
    Spells (encode word) word.toList :=
  ⟨transcribes_encode h, h, hne⟩

theorem ofNat_byte_inj {b b' : UInt8} (hb : b.toNat < 0x80) (hb' : b'.toNat < 0x80) :
    Char.ofNat b.toNat = Char.ofNat b'.toNat ↔ b = b' := by
  constructor
  · intro h
    have hnat := congrArg Char.toNat h
    rw [toNat_ofNat_byte hb, toNat_ofNat_byte hb'] at hnat
    exact UInt8.toNat_inj.mp hnat
  · rintro rfl
    rfl

theorem beq_feed_eq {b : UInt8} (hb : b.toNat < 0x80) :
    (b == Bytes.feed) = (Char.ofNat b.toNat == '\n') := by
  have hnewline : '\n' = Char.ofNat Bytes.feed.toNat := rfl
  rw [Bool.eq_iff_iff, beq_iff_eq, beq_iff_eq, hnewline, ofNat_byte_inj hb (by decide)]

theorem ne_feed {b : UInt8} (hb : 0x80 ≤ b.toNat) : b ≠ Bytes.feed := by
  rintro rfl
  exact absurd hb (by decide)

theorem ne_newline {c : Char} (hc : 0x80 ≤ c.toNat) : c ≠ '\n' := by
  rintro rfl
  exact absurd hc (by decide)

variable {ws bytes piece : List UInt8} {w cs : List Char}

theorem Transcribes.prefix_iff (hw : Transcribes ws w) (hascii : ∀ c ∈ w, c.toNat < 0x80)
    (h : Transcribes bytes cs) : ws <+: bytes ↔ w <+: cs := by
  induction hw generalizing bytes cs with
  | nil => exact iff_of_true List.nil_prefix List.nil_prefix
  | @low byte ws w hbyte _ ih =>
    obtain ⟨hlow, hascii⟩ := List.forall_mem_cons.mp hascii
    cases h with
    | nil => simp
    | low hbyte' h =>
      rw [List.cons_prefix_cons, List.cons_prefix_cons, ih hascii h, ofNat_byte_inj hbyte hbyte']
    | high hne hpiece hc _ =>
      obtain ⟨b, piece, rfl⟩ := List.exists_cons_of_ne_nil hne
      have hb := hpiece b List.mem_cons_self
      rw [List.cons_append, List.cons_prefix_cons, List.cons_prefix_cons]
      refine iff_of_false ?_ ?_
      · rintro ⟨rfl, _⟩
        omega
      · rintro ⟨rfl, _⟩
        omega
  | high _ _ hc _ _ =>
    have hlow := hascii _ List.mem_cons_self
    omega

namespace Spells

theorem prefix_iff (hw : Spells ws w) (h : Transcribes bytes cs) : ws <+: bytes ↔ w <+: cs :=
  hw.transcribes.prefix_iff hw.isAscii h

theorem isPrefixOf_eq (hw : Spells ws w) (h : Transcribes bytes cs) :
    ws.isPrefixOf bytes = w.isPrefixOf cs := by
  rw [Bool.eq_iff_iff, List.isPrefixOf_iff_prefix, List.isPrefixOf_iff_prefix, hw.prefix_iff h]

/-- No word starts at a byte or at a character from 0x80 on. -/
theorem not_prefix_byte (hw : Spells ws w) {b : UInt8} (hb : 0x80 ≤ b.toNat) :
    ¬ ws <+: b :: bytes := by
  obtain ⟨htranscribes, hascii, hne⟩ := hw
  cases htranscribes with
  | nil => exact absurd rfl hne
  | low hbyte _ =>
    rw [List.cons_prefix_cons]
    rintro ⟨rfl, _⟩
    omega
  | high _ _ hc _ =>
    have hlow := hascii _ List.mem_cons_self
    omega

theorem not_prefix_char (hw : Spells ws w) {c : Char} (hc : 0x80 ≤ c.toNat) : ¬ w <+: c :: cs := by
  obtain ⟨d, w, rfl⟩ := List.exists_cons_of_ne_nil hw.ne_nil
  rw [List.cons_prefix_cons]
  rintro ⟨rfl, _⟩
  have hlow := hw.isAscii d List.mem_cons_self
  omega

theorem infix_append_iff (hw : Spells ws w) (hpiece : ∀ b ∈ piece, 0x80 ≤ b.toNat) :
    ws <:+: piece ++ bytes ↔ ws <:+: bytes := by
  induction piece with
  | nil => exact Iff.rfl
  | cons b piece ih =>
    obtain ⟨hb, hpiece⟩ := List.forall_mem_cons.mp hpiece
    rw [List.cons_append, List.infix_cons_iff, ih hpiece]
    exact or_iff_right (hw.not_prefix_byte hb)

/-- A word occurs among the bytes when it occurs in the text. -/
theorem infix_iff (hw : Spells ws w) (h : Transcribes bytes cs) : ws <:+: bytes ↔ w <:+: cs := by
  induction h with
  | nil => rw [List.infix_nil, List.infix_nil, hw.transcribes.eq_nil_iff]
  | low hbyte h ih =>
    rw [List.infix_cons_iff, List.infix_cons_iff, hw.prefix_iff (.low hbyte h), ih]
  | high _ hpiece hc _ ih =>
    rw [hw.infix_append_iff hpiece, List.infix_cons_iff, ih]
    exact (or_iff_right (hw.not_prefix_char hc)).symm

theorem wordLines_append (hw : Spells ws w) (hpiece : ∀ b ∈ piece, 0x80 ≤ b.toNat) (line : Nat) :
    wordLines Bytes.feed ws line (piece ++ bytes) = wordLines Bytes.feed ws line bytes := by
  induction piece with
  | nil => rfl
  | cons b piece ih =>
    obtain ⟨hb, hpiece⟩ := List.forall_mem_cons.mp hpiece
    have hnot : ws.isPrefixOf (b :: (piece ++ bytes)) = false :=
      Bool.eq_false_iff.mpr (mt List.isPrefixOf_iff_prefix.mp (hw.not_prefix_byte hb))
    simp only [List.cons_append, wordLines, hnot, beq_false_of_ne (ne_feed hb),
      Bool.false_eq_true, if_false, List.nil_append, ih hpiece]

/-- A word is on the same lines among the bytes and in the text. -/
theorem wordLines_eq (hw : Spells ws w) (h : Transcribes bytes cs) (line : Nat) :
    wordLines Bytes.feed ws line bytes = wordLines '\n' w line cs := by
  induction h generalizing line with
  | nil =>
    have hws : ws ≠ [] := mt hw.transcribes.eq_nil_iff.mpr hw.ne_nil
    simp only [wordLines, List.isEmpty_eq_false_iff.mpr hws,
      List.isEmpty_eq_false_iff.mpr hw.ne_nil]
  | low hbyte h ih =>
    simp only [wordLines, hw.isPrefixOf_eq (.low hbyte h), beq_feed_eq hbyte, ih]
  | @high _ _ c cs _ hpiece hc _ ih =>
    have hnot : w.isPrefixOf (c :: cs) = false :=
      Bool.eq_false_iff.mpr (mt List.isPrefixOf_iff_prefix.mp (hw.not_prefix_char hc))
    simp only [hw.wordLines_append hpiece, wordLines, hnot, beq_false_of_ne (ne_newline hc),
      Bool.false_eq_true, if_false, List.nil_append, ih]

/-- Occurrence by occurrence, a word is on the same lines among the bytes and in the text. -/
theorem map_lineOf_occurrences (hw : Spells ws w) (h : Transcribes bytes cs) :
    (Bytes.occurrences ws bytes).map (Bytes.lineOf bytes) =
      (Text.occurrences w cs).map (Text.lineOf cs) :=
  calc (Bytes.occurrences ws bytes).map (Bytes.lineOf bytes)
    _ = wordLines Bytes.feed ws 1 bytes := map_filter_range Bytes.feed ws bytes 1
    _ = wordLines '\n' w 1 cs := hw.wordLines_eq h 1
    _ = (Text.occurrences w cs).map (Text.lineOf cs) := (map_filter_range '\n' w cs 1).symm

end Spells

/-- There are as many line feeds among the bytes as in the text. -/
theorem Transcribes.count_feed (h : Transcribes bytes cs) :
    bytes.count Bytes.feed = cs.count '\n' := by
  induction h with
  | nil => rfl
  | low hbyte _ ih => rw [List.count_cons, List.count_cons, ih, beq_feed_eq hbyte]
  | high _ hpiece hc _ ih =>
    have hnone : Bytes.feed ∉ _ := fun hmem => ne_feed (hpiece _ hmem) rfl
    rw [List.count_append, List.count_eq_zero_of_not_mem hnone, Nat.zero_add, ih,
      List.count_cons_of_ne (ne_newline hc)]

/-- Only the bytes of its characters are decoded to a text below 0x80. -/
theorem eq_encode_of_decode? {word : String} (hword : IsAscii word)
    (h : decode? bytes = some word) : bytes = encode word := by
  have hbytes := transcribes_decodeLossy bytes
  rw [decodeLossy_eq_of_decode? h] at hbytes
  have hword' := transcribes_encode hword
  have hstarts : encode word <+: bytes := (hword'.prefix_iff hword hbytes).mpr List.prefix_rfl
  have hends : bytes <+: encode word := (hbytes.prefix_iff hword hword').mpr List.prefix_rfl
  exact hends.eq_of_length_le hstarts.length_le

end Utf8
end ScriptAudit
