import ScriptAudit.Json
import ScriptAudit.Proofs.Message.Printable

/-! # Control characters in JSON text

In JSON text all control characters are escaped, and the only one that stands between the values is
the line feed. Main statement: `Json.lined_render`.
-/
namespace ScriptAudit

/-- Printable lines. -/
def Lined (text : String) : Prop := ∀ c ∈ text.toList, 32 ≤ c.toNat ∨ c = '\n'

theorem Printable.lined {text : String} (h : Printable text) : Lined text :=
  fun c hc => Or.inl (h c hc)

theorem lined_append {text text' : String} :
    Lined (text ++ text') ↔ Lined text ∧ Lined text' := by
  unfold Lined
  rw [String.toList_append]
  exact List.forall_mem_append

theorem Lined.intercalate {separator : String} (hseparator : Lined separator)
    {texts : List String} (h : ∀ text ∈ texts, Lined text) :
    Lined (separator.intercalate texts) := by
  induction texts with
  | nil =>
    have hempty : Printable "" := printable_ofList rfl
    exact hempty.lined
  | cons text texts ih =>
    obtain ⟨htext, htexts⟩ := List.forall_mem_cons.mp h
    cases texts with
    | nil => simpa using htext
    | cons next texts =>
      rw [String.intercalate_cons_cons]
      exact lined_append.mpr ⟨lined_append.mpr ⟨htext, hseparator⟩, ih htexts⟩

namespace Json

theorem printable_hexDigit : ∀ n < 16, 32 ≤ (hexDigit n).toNat := by decide

theorem printable_escapeChar (c : Char) : (escapeChar c).all (32 ≤ ·.toNat) = true := by
  unfold escapeChar
  split
  · decide
  · decide
  · decide
  · decide
  · decide
  · decide
  · decide
  · split
    · next hcontrol =>
      simp only [List.all_cons, List.all_nil, Bool.and_true, Bool.and_eq_true, decide_eq_true_eq]
      refine ⟨by decide, by decide, by decide, by decide, ?_, ?_⟩
      · exact printable_hexDigit _ (by omega)
      · exact printable_hexDigit _ (by omega)
    · next hprintable =>
      rw [List.all_cons, List.all_nil, Bool.and_true]
      exact decide_eq_true (Nat.not_lt.mp hprintable)

theorem printable_quoted (s : String) : Printable (quoted s) := by
  have hquote : Printable "\"" := printable_ofList (by decide)
  refine printable_append.mpr ⟨printable_append.mpr ⟨hquote, ?_⟩, hquote⟩
  unfold Printable
  rw [String.toList_ofList]
  intro x hx
  obtain ⟨c, _, hx⟩ := List.mem_flatMap.mp hx
  exact of_decide_eq_true (List.all_eq_true.mp (printable_escapeChar c) x hx)

theorem lined_newline (level : Nat) : Lined (newline level) := by
  refine lined_append.mpr ⟨?_, ?_⟩
  · exact fun c hc => Or.inr (List.mem_singleton.mp hc)
  · intro c hc
    rw [String.toList_ofList] at hc
    rw [List.eq_of_mem_replicate hc]
    exact Or.inl (by decide)

theorem lined_enclosed {left right : String} (hleft : Printable left) (hright : Printable right)
    (level : Nat) {items : List String} (h : ∀ item ∈ items, Lined item) :
    Lined (enclosed left right level items) := by
  have hcomma : Lined ("," ++ newline (level + 1)) :=
    lined_append.mpr ⟨(printable_ofList (by decide)).lined, lined_newline _⟩
  unfold enclosed
  split
  · exact (printable_append.mpr ⟨hleft, hright⟩).lined
  · simp only [lined_append]
    exact ⟨⟨⟨⟨hleft.lined, lined_newline _⟩, .intercalate hcomma h⟩, lined_newline _⟩,
      hright.lined⟩

mutual

theorem lined_render (level : Nat) : (j : Json) → Lined (j.render level)
  | .text value => by
    rw [render]
    exact (printable_quoted value).lined
  | .number value => by
    rw [render]
    exact (printable_toString_int value).lined
  | .list items => by
    rw [render]
    exact lined_enclosed (printable_ofList (by decide)) (printable_ofList (by decide)) level
      (lined_renderItems (level + 1) items)
  | .record fields => by
    rw [render]
    exact lined_enclosed (printable_ofList (by decide)) (printable_ofList (by decide)) level
      (lined_renderFields (level + 1) fields)

theorem lined_renderItems (level : Nat) : (items : List Json) →
    ∀ text ∈ renderItems level items, Lined text
  | [] => by
    rw [renderItems]
    exact fun _ h => absurd h List.not_mem_nil
  | item :: items => by
    rw [renderItems]
    exact List.forall_mem_cons.mpr ⟨lined_render level item, lined_renderItems level items⟩

theorem lined_renderFields (level : Nat) : (fields : List (String × Json)) →
    ∀ text ∈ renderFields level fields, Lined text
  | [] => by
    rw [renderFields]
    exact fun _ h => absurd h List.not_mem_nil
  | (key, value) :: fields => by
    have hcolon : Printable ": " := printable_ofList (by decide)
    rw [renderFields]
    refine List.forall_mem_cons.mpr ⟨?_, lined_renderFields level fields⟩
    exact lined_append.mpr ⟨(printable_append.mpr ⟨printable_quoted key, hcolon⟩).lined,
      lined_render level value⟩

end

end Json
end ScriptAudit
