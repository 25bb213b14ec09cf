import ScriptAudit.Fault
import ScriptAudit.Proofs.Message.Filling

/-! # Messages are templates with their placeholders replaced

What is put into a message takes the place of the placeholders of its template as it is, and a message
for which it has no value fails. As the values for the placeholders of a template are all the same, a
message with placeholders tells what was put in. Main statement: `RuleName.format_replaces`.
-/
namespace ScriptAudit
open Text

namespace Filling
variable {f g : Filling} {name value : String}

theorem value?_inj {name' value' : String} (h : f.value? name = some value)
    (h' : f.value? name' = some value') : value = value' := by
  rcases value?_eq_some_iff.mp h with ⟨rfl, _⟩ | ⟨rfl, _⟩
  · rcases value?_eq_some_iff.mp h' with ⟨heq, _⟩ | ⟨heq, _⟩
    · exact Filling.message.inj heq
    · cases heq
  · rcases value?_eq_some_iff.mp h' with ⟨heq, _⟩ | ⟨heq, _⟩
    · cases heq
    · exact Filling.link.inj heq

theorem eq_of_value? (hf : f.value? name = some value) (hg : g.value? name = some value) :
    f = g := by
  rcases value?_eq_some_iff.mp hf with ⟨rfl, rfl⟩ | ⟨rfl, rfl⟩
  · rcases value?_eq_some_iff.mp hg with ⟨rfl, _⟩ | ⟨_, hname⟩
    · rfl
    · exact absurd hname (by decide)
  · rcases value?_eq_some_iff.mp hg with ⟨_, hname⟩ | ⟨rfl, _⟩
    · exact absurd hname (by decide)
    · rfl

theorem noLonger_value? {value' : String} (hf : f.value? name = some value)
    (hg : g.value? name = some value') (hle : value.toList.length ≤ value'.toList.length) :
    Replaced.NoLonger f.value? g.value? := by
  intro n v v' hv hv'
  rwa [value?_inj hv hf, value?_inj hv' hg]

end Filling

namespace RuleName
variable {r : RuleName} {f g : Filling} {fault : Fault} {name text : String}

theorem format_eq_ok_iff :
    r.format f = .ok text ↔ Replaced f.value? r.entry.template.toList text.toList := by
  rw [← Template.fill_eq_ok_iff]
  unfold format
  cases Template.fill r.entry.template f with
  | error name => exact iff_of_false nofun nofun
  | ok text' => simp

theorem format_eq_error_iff : r.format f = .error fault ↔ ∃ name,
    FirstMissing f.value? r.entry.template.toList name ∧ fault = .missingValue r name := by
  simp only [← Template.fill_eq_error_iff]
  unfold format
  cases Template.fill r.entry.template f with
  | ok text => exact iff_of_false nofun nofun
  | error name => simp [eq_comm]

theorem exists_format_eq_error_iff : (∃ fault, r.format f = .error fault) ↔
    ∃ name, Holds name r.entry.template.toList ∧ f.value? name = none := by
  constructor
  · rintro ⟨fault, h⟩
    obtain ⟨name, hfirst, _⟩ := format_eq_error_iff.mp h
    exact ⟨name, hfirst.holds, hfirst.missing⟩
  · rintro ⟨name, hholds, hmissing⟩
    cases hformat : r.format f with
    | ok text => exact absurd hmissing ((format_eq_ok_iff.mp hformat).supply_ne_none hholds)
    | error fault => exact ⟨fault, rfl⟩

theorem format_of_bare (h : Bare r.entry.template.toList) (f : Filling) :
    r.format f = .ok r.entry.template :=
  format_eq_ok_iff.mpr (.done h)

theorem eq_of_format_eq (hholds : Holds name r.entry.template.toList)
    (hf : r.format f = .ok text) (hg : r.format g = .ok text) : f = g := by
  replace hf := format_eq_ok_iff.mp hf
  replace hg := format_eq_ok_iff.mp hg
  obtain ⟨value, hvalue⟩ := Option.ne_none_iff_exists'.mp (hf.supply_ne_none hholds)
  obtain ⟨value', hvalue'⟩ := Option.ne_none_iff_exists'.mp (hg.supply_ne_none hholds)
  have hsame : f.value? name = g.value? name := by
    rcases Nat.le_total value.toList.length value'.toList.length with hle | hle
    · exact hf.supply_eq (Filling.noLonger_value? hvalue hvalue' hle) hg hholds
    · exact (hg.supply_eq (Filling.noLonger_value? hvalue' hvalue hle) hf hholds).symm
  exact Filling.eq_of_value? hvalue (hsame ▸ hvalue)

/-- A message fails at the first placeholder of its written template that has no value, and else it
is that text with the value in the place of each placeholder, whatever the value looks like. So the
message tells the value where there is a placeholder, and is the same for all where there is none. -/
theorem format_replaces (r : RuleName) :
    (∀ f, (∃ fault, r.format f = .error fault) ↔
      ∃ name, Holds name r.entry.template.toList ∧ f.value? name = none) ∧
    (∀ f fault, r.format f = .error fault ↔
      ∃ name, FirstMissing f.value? r.entry.template.toList name ∧ fault = .missingValue r name) ∧
    (∀ f text, r.format f = .ok text ↔
      Replaced f.value? r.entry.template.toList text.toList) ∧
    (∀ name, Holds name r.entry.template.toList → ∀ f g text,
      r.format f = .ok text → r.format g = .ok text → f = g) ∧
    (Bare r.entry.template.toList → ∀ f, r.format f = .ok r.entry.template) :=
  ⟨fun _ => exists_format_eq_error_iff, fun _ _ => format_eq_error_iff, fun _ _ => format_eq_ok_iff,
    fun _ hholds _ _ _ => eq_of_format_eq hholds, format_of_bare⟩

/-- A value that looks like placeholders, put in twice; a value for another placeholder; and a
template without any. -/
theorem format_replaces_bracedValue :
    let value := "\x7bmessage\x7d$1\x7blink\x7d\n"
    let text := "modifier irc_in_" ++ value ++ " should be replaced by irc_in2_" ++ value ++
      " which sends only valid UTF-8 data"
    Holds "message" modifierIrcIn.entry.template.toList ∧
      modifierIrcIn.format (.message value) = .ok text ∧
      (∀ g, modifierIrcIn.format g = .ok text → g = .message value) ∧
      modifierIrcIn.format (.link value) = .error (.missingValue modifierIrcIn "message") ∧
      Bare unneededShebang.entry.template.toList ∧
      ∀ f, unneededShebang.format f = .ok "shebang not needed" := by
  intro value text
  obtain ⟨_, hfails, _, hinjective, _⟩ := format_replaces modifierIrcIn
  obtain ⟨_, _, _, _, hbare⟩ := format_replaces unneededShebang
  have herror : modifierIrcIn.format (.link value) =
      .error (.missingValue modifierIrcIn "message") := by decide +kernel
  have hholds : Holds "message" modifierIrcIn.entry.template.toList := by
    obtain ⟨name, hfirst, hname⟩ := (hfails _ _).mp herror
    rw [(Fault.missingValue.inj hname).2]
    exact hfirst.holds
  have hok : modifierIrcIn.format (.message value) = .ok text := by decide +kernel
  have hnone : Bare unneededShebang.entry.template.toList := bare_of_not_mem (by decide)
  exact ⟨hholds, hok, fun g hg => hinjective _ hholds g _ text hg hok, herror, hnone, hbare hnone⟩

end RuleName
end ScriptAudit
