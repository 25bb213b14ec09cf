import ScriptAudit.Text.Utf8

/-! # Decoded text

A byte below 0x80 is a character of its own wherever it stands, also behind a character that breaks
off, and no other bytes are decoded to such a character or to nothing. Main statements:
`transcribes_decodeLossy`, and `decodeLossy_eq_of_decode?`, by which text is decoded without any
loss.
-/
namespace ScriptAudit.Utf8

/-- The text has each byte below 0x80 as a character, and one character from 0x80 on for each of the
pieces into which the bytes between them are cut. -/
inductive Transcribes : List UInt8 → List Char → Prop where
  | nil : Transcribes [] []
  | low {byte : UInt8} {bytes : List UInt8} {cs : List Char} (hbyte : byte.toNat < 0x80)
      (h : Transcribes bytes cs) : Transcribes (byte :: bytes) (Char.ofNat byte.toNat :: cs)
  | high {piece bytes : List UInt8} {c : Char} {cs : List Char} (hne : piece ≠ [])
      (hpiece : ∀ b ∈ piece, 0x80 ≤ b.toNat) (hc : 0x80 ≤ c.toNat) (h : Transcribes bytes cs) :
      Transcribes (piece ++ bytes) (c :: cs)

theorem toNat_ofNat {n : Nat} (h : n.isValidChar) : (Char.ofNat n).toNat = n := by
  have hvalid : Char.ofNat n = Char.ofNatAux n h := dif_pos h
  rw [hvalid]
  rfl

theorem toNat_ofNat_byte {byte : UInt8} (h : byte.toNat < 0x80) :
    (Char.ofNat byte.toNat).toNat = byte.toNat :=
  toNat_ofNat (Or.inl (by omega))

namespace Transcribes

variable {bytes bytes' piece : List UInt8} {cs cs' : List Char} {c : Char}

theorem append (h : Transcribes bytes cs) (h' : Transcribes bytes' cs') :
    Transcribes (bytes ++ bytes') (cs ++ cs') := by
  induction h with
  | nil => exact h'
  | low hbyte _ ih => exact .low hbyte ih
  | high hne hpiece hc _ ih =>
    rw [List.append_assoc]
    exact .high hne hpiece hc ih

theorem append_byte (h : Transcribes bytes cs) {byte : UInt8} (hbyte : byte.toNat < 0x80) :
    Transcribes (bytes ++ [byte]) (cs ++ [Char.ofNat byte.toNat]) :=
  h.append (.low hbyte .nil)

theorem append_piece (h : Transcribes bytes cs) (hne : piece ≠ [])
    (hpiece : ∀ b ∈ piece, 0x80 ≤ b.toNat) (hc : 0x80 ≤ c.toNat) :
    Transcribes (bytes ++ piece) (cs ++ [c]) := by
  have hlast : Transcribes (piece ++ []) [c] := .high hne hpiece hc .nil
  rw [List.append_nil] at hlast
  exact h.append hlast

theorem eq_nil_iff (h : Transcribes bytes cs) : cs = [] ↔ bytes = [] := by
  cases h with
  | nil => simp
  | low => simp
  | high hne => simp [hne]

/-- The characters below 0x80 are bytes. -/
theorem exists_mem (h : Transcribes bytes cs) (hc : c ∈ cs) (hlow : c.toNat < 0x80) :
    ∃ byte ∈ bytes, byte.toNat = c.toNat := by
  induction h with
  | nil => cases hc
  | low hbyte _ ih =>
    rcases List.mem_cons.mp hc with rfl | hc
    · exact ⟨_, List.mem_cons_self, (toNat_ofNat_byte hbyte).symm⟩
    · obtain ⟨byte, hmem, heq⟩ := ih hc
      exact ⟨byte, List.mem_cons_of_mem _ hmem, heq⟩
  | high _ _ hhigh _ ih =>
    rcases List.mem_cons.mp hc with rfl | hc
    · omega
    · obtain ⟨byte, hmem, heq⟩ := ih hc
      exact ⟨byte, List.mem_append_right _ hmem, heq⟩

end Transcribes

/-- Whatever bytes in their ranges follow, they end a character, and one from 0x80 on. -/
def EndsHigh : Nat → Nat → Nat → Nat → Prop
  | 0, _, _, _ => False
  | owed + 1, low, high, bits => 0x80 ≤ low ∧ ∀ b, low ≤ b → b ≤ high →
    if owed = 0 then 0x80 ≤ 64 * bits + (b - 0x80) ∧ (64 * bits + (b - 0x80)).isValidChar
    else EndsHigh owed 0x80 0xBF (64 * bits + (b - 0x80))

namespace Pending

/-- A started character will be one from 0x80 on if it is ended. -/
def Sound (p : Pending) : Prop := EndsHigh p.owed p.low p.high p.bits

/-- What the range of the next byte leaves out keeps the code point from being too low, too high or
a surrogate. -/
theorem sound_ofLead? {b : Nat} {p : Pending} (h : ofLead? b = some p) : p.Sound := by
  unfold ofLead? at h
  repeat' split at h
  all_goals cases h
  all_goals
    simp [Sound, EndsHigh, Nat.isValidChar]
    omega

end Pending

/-- The text of units, the last one of which comes first. -/
def textOf (units : List (Option Char)) : List Char := units.reverse.map (·.getD '\uFFFD')

theorem textOf_cons (u : Option Char) (units : List (Option Char)) :
    textOf (u :: units) = textOf units ++ [u.getD '\uFFFD'] := by
  simp [textOf]

namespace Decoder

variable {d : Decoder} {bytes : List UInt8} {units : List (Option Char)}

/-- The decoder has gone through the bytes: the units are a transcript of all of them but those of
the character that has been started. -/
def HasRead (d : Decoder) (bytes : List UInt8) : Prop :=
  ∃ done begun, bytes = done ++ begun ∧ Transcribes done (textOf d.units) ∧
    match d.pending with
    | none => begun = []
    | some p => begun ≠ [] ∧ (∀ b ∈ begun, 0x80 ≤ b.toNat) ∧ p.Sound

theorem hasRead_of_transcribes (h : Transcribes bytes (textOf units)) :
    HasRead ⟨none, units⟩ bytes :=
  ⟨bytes, [], (List.append_nil bytes).symm, h, rfl⟩

theorem hasRead_lead (h : Transcribes bytes (textOf units)) (byte : UInt8) :
    (lead units byte.toNat).HasRead (bytes ++ [byte]) := by
  have hhigh (hbyte : ¬ byte.toNat < 0x80) : ∀ b ∈ [byte], 0x80 ≤ b.toNat :=
    List.forall_mem_singleton.mpr (Nat.le_of_not_lt hbyte)
  unfold lead
  split
  · next hbyte =>
    refine hasRead_of_transcribes ?_
    rw [textOf_cons]
    exact h.append_byte hbyte
  · next hbyte =>
    split
    · next p hp =>
      exact ⟨bytes, [byte], rfl, h, List.cons_ne_nil _ _, hhigh hbyte, Pending.sound_ofLead? hp⟩
    · refine hasRead_of_transcribes ?_
      rw [textOf_cons]
      exact h.append_piece (List.cons_ne_nil _ _) (hhigh hbyte) (by decide)

/-- A byte ends the character that has been started, continues it, or breaks it off and starts
anew. -/
theorem step_cases {p : Pending} (hp : d.pending = some p) (hsound : p.Sound) (byte : UInt8) :
    (0x80 ≤ byte.toNat ∧ ∃ c : Char, 0x80 ≤ c.toNat ∧ d.step byte = ⟨none, some c :: d.units⟩) ∨
    (0x80 ≤ byte.toNat ∧ ∃ q : Pending, q.Sound ∧ d.step byte = ⟨some q, d.units⟩) ∨
    d.step byte = lead (none :: d.units) byte.toNat := by
  obtain ⟨owed, low, high, bits⟩ := p
  cases owed with
  | zero => exact hsound.elim
  | succ owed =>
    obtain ⟨hlow, hends⟩ := hsound
    by_cases hrange : low ≤ byte.toNat ∧ byte.toNat ≤ high
    · have hbyte : 0x80 ≤ byte.toNat := Nat.le_trans hlow hrange.1
      have hnext := hends byte.toNat hrange.1 hrange.2
      by_cases howed : owed = 0
      · rw [if_pos howed] at hnext
        refine Or.inl ⟨hbyte, Char.ofNat (64 * bits + (byte.toNat - 0x80)), ?_, ?_⟩
        · rw [toNat_ofNat hnext.2]
          exact hnext.1
        · simp [step, hp, hrange, howed]
      · rw [if_neg howed] at hnext
        refine Or.inr (Or.inl ⟨hbyte, ⟨owed, 0x80, 0xBF, _⟩, hnext, ?_⟩)
        simp [step, hp, hrange, howed]
    · refine Or.inr (Or.inr ?_)
      simp only [step, hp, if_neg hrange]

theorem hasRead_step (h : d.HasRead bytes) (byte : UInt8) :
    (d.step byte).HasRead (bytes ++ [byte]) := by
  obtain ⟨done, begun, rfl, hdone, hpending⟩ := h
  cases hp : d.pending with
  | none =>
    simp only [hp] at hpending
    simp only [step, hp, hpending, List.append_nil]
    exact hasRead_lead hdone byte
  | some p =>
    simp only [hp] at hpending
    obtain ⟨hne, hbegun, hsound⟩ := hpending
    have hcons : begun ++ [byte] ≠ [] := by simp
    have hpiece (hbyte : 0x80 ≤ byte.toNat) : ∀ b ∈ begun ++ [byte], 0x80 ≤ b.toNat :=
      List.forall_mem_append.mpr ⟨hbegun, List.forall_mem_singleton.mpr hbyte⟩
    rcases step_cases hp hsound byte with ⟨hbyte, c, hc, hs⟩ | ⟨hbyte, q, hq, hs⟩ | hs
    · rw [hs, List.append_assoc]
      refine hasRead_of_transcribes ?_
      rw [textOf_cons]
      exact hdone.append_piece hcons (hpiece hbyte) hc
    · rw [hs, List.append_assoc]
      exact ⟨done, _, rfl, hdone, hcons, hpiece hbyte, hq⟩
    · rw [hs]
      refine hasRead_lead ?_ byte
      rw [textOf_cons]
      exact hdone.append_piece hne hbegun (by decide)

theorem hasRead_foldl (h : d.HasRead bytes) (more : List UInt8) :
    (more.foldl step d).HasRead (bytes ++ more) := by
  induction more generalizing d bytes with
  | nil =>
    rw [List.append_nil]
    exact h
  | cons byte more ih =>
    have hmore := ih (hasRead_step h byte)
    rw [List.append_assoc] at hmore
    exact hmore

theorem HasRead.transcribes_finish (h : d.HasRead bytes) :
    Transcribes bytes (d.finish.map (·.getD '\uFFFD')) := by
  obtain ⟨done, begun, rfl, hdone, hpending⟩ := h
  unfold finish
  cases hp : d.pending with
  | none =>
    simp only [hp] at hpending
    subst hpending
    rw [List.append_nil]
    exact hdone
  | some p =>
    simp only [hp] at hpending
    obtain ⟨hne, hbegun, _⟩ := hpending
    change Transcribes _ (textOf (none :: d.units))
    rw [textOf_cons]
    exact hdone.append_piece hne hbegun (by decide)

end Decoder

theorem transcribes_decodeLossy (bytes : List UInt8) :
    Transcribes bytes (decodeLossy bytes).toList := by
  have hread : (bytes.foldl Decoder.step ⟨none, []⟩).HasRead ([] ++ bytes) :=
    Decoder.hasRead_foldl (Decoder.hasRead_of_transcribes .nil) bytes
  rw [decodeLossy, String.toList_ofList]
  exact hread.transcribes_finish

theorem decodeLossy_eq_empty_iff {bytes : List UInt8} : decodeLossy bytes = "" ↔ bytes = [] := by
  rw [← String.toList_eq_nil_iff]
  exact (transcribes_decodeLossy bytes).eq_nil_iff

theorem decodeLossy_ne_empty {bytes : List UInt8} (h : bytes ≠ []) : decodeLossy bytes ≠ "" :=
  mt decodeLossy_eq_empty_iff.mp h

theorem exists_mem_of_mem_decodeLossy {bytes : List UInt8} {c : Char} (hlow : c.toNat < 0x80)
    (h : c ∈ (decodeLossy bytes).toList) : ∃ byte ∈ bytes, byte.toNat = c.toNat :=
  (transcribes_decodeLossy bytes).exists_mem h hlow

/-- An ASCII character of the text has its byte among the bytes. -/
theorem not_mem_decodeLossy {bytes : List UInt8} {b : UInt8} (hlow : b.toNat < 0x80)
    (h : b ∉ bytes) : Char.ofNat b.toNat ∉ (decodeLossy bytes).toList := by
  have hvalue := toNat_ofNat_byte hlow
  intro hmem
  obtain ⟨byte, hbyte, heq⟩ := exists_mem_of_mem_decodeLossy (hvalue.symm ▸ hlow) hmem
  obtain rfl : byte = b := UInt8.toNat_inj.mp (heq.trans hvalue)
  exact h hbyte

/-- What is there in each place is what is there with any stand-in. -/
theorem map_getD_of_mapM_id {α : Type} {us : List (Option α)} {xs : List α}
    (h : us.mapM id = some xs) (standIn : α) : us.map (·.getD standIn) = xs := by
  induction us generalizing xs with
  | nil => exact Option.some.inj h
  | cons u us ih =>
    rw [List.mapM_cons] at h
    obtain ⟨x, hx, h⟩ := Option.bind_eq_some_iff.mp h
    obtain ⟨rest, hrest, h⟩ := Option.bind_eq_some_iff.mp h
    cases Option.some.inj h
    rw [List.map_cons, ih hrest, show u = some x from hx]
    rfl

/-- Bytes that are text are decoded to this text by either decoder. -/
theorem decodeLossy_eq_of_decode? {bytes : List UInt8} {text : String}
    (h : decode? bytes = some text) : decodeLossy bytes = text := by
  obtain ⟨cs, hcs, rfl⟩ := Option.map_eq_some_iff.mp h
  rw [decodeLossy, map_getD_of_mapM_id hcs]

end ScriptAudit.Utf8
