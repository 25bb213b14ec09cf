import ScriptAudit.Message.Catalog

/-! # Printable texts

The names, the templates and the numbers that are put into messages are printable: they hold no
control characters. Main statements: `Printable.not_mem` and `RuleName.printable_template`.
-/
namespace ScriptAudit

/-- A text without control characters. -/
def Printable (text : String) : Prop := ∀ c ∈ text.toList, 32 ≤ c.toNat

theorem Printable.not_mem {text : String} (h : Printable text) {c : Char} (hc : c.toNat < 32) :
    c ∉ text.toList := fun hmem => absurd (h c hmem) (Nat.not_le.mpr hc)

theorem printable_append {text text' : String} :
    Printable (text ++ text') ↔ Printable text ∧ Printable text' := by
  unfold Printable
  rw [String.toList_append]
  exact List.forall_mem_append

/-- A text that is written down is judged by the list of its characters. -/
theorem printable_ofList {cs : List Char} (h : cs.all (32 ≤ ·.toNat) = true) :
    Printable (String.ofList cs) := by
  unfold Printable
  rw [String.toList_ofList]
  exact fun c hc => of_decide_eq_true (List.all_eq_true.mp h c hc)

theorem Severity.printable_name (s : Severity) : Printable s.name := by
  cases s <;> apply printable_ofList <;> decide

theorem RuleName.printable_name (r : RuleName) : Printable r.name := by
  cases r <;> apply printable_ofList <;> decide

theorem RuleName.printable_template (r : RuleName) : Printable r.entry.template := by
  cases r
  all_goals
    simp only [entry, renamedTemplate, deprecatedTemplate, printable_append]
    repeat' apply And.intro
  all_goals
    apply printable_ofList
    decide

theorem printable_toString_nat (n : Nat) : Printable (toString n) := by
  intro c hc
  rw [Nat.toString_eq_repr, Nat.toList_repr] at hc
  have hdigit := Nat.isDigit_of_mem_toDigits (by decide) (by decide) hc
  simp only [Char.isDigit, Bool.and_eq_true, decide_eq_true_eq] at hdigit
  exact Nat.le_trans (by decide) (UInt32.le_iff_toNat_le.mp hdigit.1)

theorem printable_toString_int (n : Int) : Printable (toString n) := by
  cases n with
  | ofNat n => exact printable_toString_nat n
  | negSucc n => exact printable_append.mpr ⟨printable_ofList (by decide), printable_toString_nat _⟩

end ScriptAudit
