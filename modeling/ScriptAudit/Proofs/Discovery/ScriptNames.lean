import ScriptAudit.Discovery
import ScriptAudit.Proofs.Text.Bytes

/-! # Names of scripts

A script is known by its name: it does not start with a dot and has one of eight extensions behind
its last dot. Names are bytes, and a name that is no text is passed over whatever its extension.
Main statements: `extensionOf?_eq_some_iff`, and `isScript_agrees`, by which the paths that are
accepted are those that name scripts exactly as far as the names are text.
-/
namespace ScriptAudit.Path

/-- A name that does not start with a dot and has one of the extensions of scripts behind its last
dot. -/
def IsScriptName (name : FileName) : Prop :=
  name.head? ≠ some dot ∧ ∃ ext ∈ scriptExtensions, ∃ stem, name = stem ++ dot :: Utf8.encode ext

/-- A path that ends with the name of a script. -/
def NamesScript (p : Path) : Prop := ∃ name, p.fileName? = some name ∧ IsScriptName name

/-- Whether the bytes of a name are text. -/
def IsTextName (name : FileName) : Prop := ∃ text, Utf8.decode? name = some text

variable {name stem ext : List UInt8} {text : String} {p : Path}

/-! The extension of a name. -/

theorem span_reverse_append (h : dot ∉ ext) (bytes : List UInt8) :
    (ext.reverse ++ bytes).span (· != dot) =
      (ext.reverse ++ bytes.takeWhile (· != dot), bytes.dropWhile (· != dot)) := by
  have hpass : ∀ b ∈ ext.reverse, (b != dot) = true := by
    intro b hb
    rw [bne_iff_ne]
    rintro rfl
    exact h (List.mem_reverse.mp hb)
  rw [List.span_eq_takeWhile_dropWhile, List.takeWhile_append_of_pos hpass,
    List.dropWhile_append_of_pos hpass]

theorem span_reverse (h : dot ∉ ext) (stem : List UInt8) :
    (stem ++ dot :: ext).reverse.span (· != dot) = (ext.reverse, dot :: stem.reverse) := by
  have hreverse : (stem ++ dot :: ext).reverse = ext.reverse ++ dot :: stem.reverse := by simp
  rw [hreverse, span_reverse_append h]
  simp

theorem extensionOf?_append (h : dot ∉ ext) (hstem : stem ≠ []) :
    extensionOf? (stem ++ dot :: ext) = some ext := by
  obtain ⟨b, bs, hreverse⟩ := List.exists_cons_of_ne_nil (List.reverse_ne_nil_iff.mpr hstem)
  unfold extensionOf?
  rw [span_reverse h, hreverse]
  simp

theorem extensionOf?_hidden (h : dot ∉ ext) : extensionOf? (dot :: ext) = none := by
  have hspan := span_reverse h []
  rw [List.nil_append] at hspan
  unfold extensionOf?
  rw [hspan]
  rfl

theorem extensionOf?_of_not_mem (h : dot ∉ name) : extensionOf? name = none := by
  have hspan := span_reverse_append h []
  rw [List.append_nil] at hspan
  unfold extensionOf?
  rw [hspan]
  rfl

/-- The extension is what stands behind the last dot, unless this is the first character. -/
theorem extensionOf?_eq_some_iff : extensionOf? name = some ext ↔
    dot ∉ ext ∧ ∃ stem, stem ≠ [] ∧ name = stem ++ dot :: ext := by
  constructor
  · intro h
    by_cases hdot : dot ∈ name
    · obtain ⟨back, front, hname, hback⟩ := List.eq_append_cons_of_mem (List.mem_reverse.mpr hdot)
      have hback' : dot ∉ back.reverse := mt List.mem_reverse.mp hback
      obtain rfl : name = front.reverse ++ dot :: back.reverse := by
        rw [← List.reverse_reverse name, hname]
        simp
      by_cases hfront : front.reverse = []
      · rw [hfront, List.nil_append, extensionOf?_hidden hback'] at h
        cases h
      · rw [extensionOf?_append hback' hfront] at h
        obtain rfl := Option.some.inj h
        exact ⟨hback', _, hfront, rfl⟩
    · rw [extensionOf?_of_not_mem hdot] at h
      cases h
  · rintro ⟨hdot, stem, hstem, rfl⟩
    exact extensionOf?_append hdot hstem

/-! What is accepted. -/

theorem head?_ne_dot_iff (h : Utf8.decode? name = some text) :
    (!".".toList.isPrefixOf text.toList) = true ↔ name.head? ≠ some dot := by
  have hname := Utf8.transcribes_decodeLossy name
  rw [Utf8.decodeLossy_eq_of_decode? h] at hname
  have hdot : Utf8.Spells [dot] ".".toList := 
    Utf8.spells_encode (show Utf8.IsAscii "." by decide) (by decide)
  rw [Bool.not_eq_true', Bool.eq_false_iff, ne_eq, List.isPrefixOf_iff_prefix,
    ← hdot.prefix_iff hname, not_iff_not]
  cases name with
  | nil => simp
  | cons b name => simp [eq_comm]

/-- Either conversion of a name to text lets through what is text. -/
theorem any_decode?_iff : (Utf8.decode? name).any (!".".toList.isPrefixOf ·.toList) = true ↔
    IsTextName name ∧ name.head? ≠ some dot := by
  unfold IsTextName
  cases h : Utf8.decode? name with
  | none => simp
  | some text => simpa using head?_ne_dot_iff h

theorem decode?_encode_of_mem :
    ∀ ext ∈ scriptExtensions, Utf8.IsAscii ext ∧ Utf8.decode? (Utf8.encode ext) = some ext ∧
      dot ∉ Utf8.encode ext := by decide

theorem any_extensionOf?_iff :
    ((extensionOf? name).bind Utf8.decode?).any scriptExtensions.contains = true ↔
      ∃ ext ∈ scriptExtensions, ∃ stem, stem ≠ [] ∧ name = stem ++ dot :: Utf8.encode ext := by
  simp only [Option.any_eq_true, Option.bind_eq_some_iff, List.contains_iff_mem]
  constructor
  · rintro ⟨ext, ⟨bytes, hbytes, hdecode⟩, hext⟩
    rw [Utf8.eq_encode_of_decode? (decode?_encode_of_mem ext hext).1 hdecode] at hbytes
    exact ⟨ext, hext, (extensionOf?_eq_some_iff.mp hbytes).2⟩
  · rintro ⟨ext, hext, stem, hstem, rfl⟩
    obtain ⟨_, hdecode, hdot⟩ := decode?_encode_of_mem ext hext
    exact ⟨ext, ⟨_, extensionOf?_append hdot hstem, hdecode⟩, hext⟩

theorem isScript_of_fileName? (h : p.fileName? = some name) :
    p.isScript = true ↔ IsScriptName name ∧ IsTextName name := by
  unfold isScript textFileName? textExtension? extension?
  rw [h, Option.bind_some, Option.bind_some, Bool.and_eq_true, any_decode?_iff,
    any_extensionOf?_iff]
  constructor
  · rintro ⟨⟨htext, hhead⟩, ext, hext, stem, _, hname⟩
    exact ⟨⟨hhead, ext, hext, stem, hname⟩, htext⟩
  · rintro ⟨⟨hhead, ext, hext, stem, rfl⟩, htext⟩
    refine ⟨⟨htext, hhead⟩, ext, hext, stem, ?_, rfl⟩
    rintro rfl
    exact hhead rfl

/-- A path is accepted when its last component is the name of a script and text. So what is accepted
is what names a script, unless the name is no text. -/
theorem isScript_agrees (p : Path) :
    (p.isScript = true ↔ ∃ name, p.fileName? = some name ∧ IsScriptName name ∧ IsTextName name) ∧
    ((p.isScript = true ↔ p.NamesScript) ↔
      ∀ name, p.fileName? = some name → IsScriptName name → IsTextName name) := by
  unfold NamesScript
  cases h : p.fileName? with
  | none =>
    have hfalse : p.isScript = false := by
      unfold isScript textFileName?
      rw [h]
      rfl
    simp [hfalse]
  | some name =>
    rw [isScript_of_fileName? h]
    simp only [Option.some.injEq, exists_eq_left', forall_eq', true_and]
    tauto

/-- A name in another encoding is passed over, although it is the name of a script. -/
theorem not_isScript_of_latinName :
    NamesScript ⟨[0x63, 0x61, 0x66, 0xE9, 0x2E, 0x70, 0x79]⟩ ∧
      isScript ⟨[0x63, 0x61, 0x66, 0xE9, 0x2E, 0x70, 0x79]⟩ = false :=
  ⟨⟨[0x63, 0x61, 0x66, 0xE9, 0x2E, 0x70, 0x79], by decide, by decide, "py", by decide,
    [0x63, 0x61, 0x66, 0xE9], by decide⟩, by decide⟩

end ScriptAudit.Path
