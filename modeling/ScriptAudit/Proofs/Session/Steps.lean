import ScriptAudit.Proofs.Analysis.ByRule
import ScriptAudit.Session

/-! # What a step of a session does

A step opens a script, checks one, adds one to the summary, or only looks. Main statements:
`does_of_step`, and `exists_step_iff`, by which a step can be taken when its script is there.
-/
namespace ScriptAudit.Session

namespace Step

/-- The script that a step is addressed to. -/
def key? : Step → Option String
  | .openScript key _ _ => some key
  | .check key => some key
  | .report key _ => some key
  | .result key => some key
  | .add key => some key
  | _ => none

def opens? : Step → Option String
  | .openScript key _ _ => some key
  | _ => none

def checks? : Step → Option String
  | .check key => some key
  | _ => none

def adds? : Step → Option String
  | .add key => some key
  | _ => none

/-- The script that has to be there for a step to be taken. -/
def needs? (step : Step) : Option String := if step.opens? = none then step.key? else none

theorem key?_of_opens? {step : Step} {key : String} (h : step.opens? = some key) :
    step.key? = some key := by
  cases step <;> first | exact h | cases h

theorem key?_of_checks? {step : Step} {key : String} (h : step.checks? = some key) :
    step.key? = some key := by
  cases step <;> first | exact h | cases h

end Step

/-- The ways in which a step changes a session. -/
inductive Does (s : Session) : Step → Session → Prop where
  | opened (key : String) (source : Source) (options : Options) :
      Does s (.openScript key source options) (s.store key (.ofSource source options))
  | checked {key : String} {t t' : Script} (hfind : s.find key = .ok t)
      (hcheck : t.check = .ok t') : Does s (.check key) (s.store key t')
  | added {key : String} {t : Script} (hfind : s.find key = .ok t) :
      Does s (.add key) { s with summary := s.summary.add t }
  | looked {step : Step} (hopens : step.opens? = none) (hchecks : step.checks? = none)
      (hadds : step.adds? = none) : Does s step s

variable {s s' : Session} {step : Step} {key : String}

theorem lookup_filter_of_ne {scripts : List (String × Script)} {key' : String} (h : key' ≠ key) :
    (scripts.filter (·.1 != key)).lookup key' = scripts.lookup key' := by
  induction scripts with
  | nil => rfl
  | cons entry scripts ih =>
    obtain ⟨k, t⟩ := entry
    rw [List.filter_cons, List.lookup_cons]
    cases hk : k != key with
    | true => rw [if_pos rfl, List.lookup_cons, ih]
    | false =>
      have hne : (key' == k) = false := by
        rw [bne_eq_false_iff_eq.mp hk]
        exact beq_false_of_ne h
      rw [if_neg Bool.false_ne_true, ih, hne]

theorem find_eq_ok_iff {t : Script} : s.find key = .ok t ↔ s.scripts.lookup key = some t := by
  unfold find
  cases s.scripts.lookup key <;> simp

theorem find_store (s : Session) (key : String) (t : Script) (key' : String) :
    (s.store key t).find key' = if key' = key then .ok t else s.find key' := by
  unfold find store
  dsimp only
  rw [List.lookup_cons]
  by_cases h : key' = key
  · rw [if_pos h, h, beq_self_eq_true]
  · rw [if_neg h, beq_false_of_ne h, lookup_filter_of_ne h]

theorem does_of_step {reply : Reply} (h : s.step step = .ok (reply, s')) : s.Does step s' := by
  cases step with
  | openScript key source options =>
    cases h
    exact .opened key source options
  | check key =>
    obtain ⟨t, hfind, h⟩ := bind_eq_ok_iff.mp h
    rw [t.check_eq_found] at h
    cases h
    exact .checked hfind t.check_eq_found
  | report _ _ | result _ =>
    obtain ⟨t, _, h⟩ := bind_eq_ok_iff.mp h
    cases h
    exact .looked rfl rfl rfl
  | add key =>
    obtain ⟨t, hfind, h⟩ := bind_eq_ok_iff.mp h
    cases h
    exact .added hfind
  | status _ | exitCode _ | listing _ | grouped _ =>
    cases h
    exact .looked rfl rfl rfl

/-- A step can be taken when the script is there that it needs. -/
theorem exists_step_iff : (∃ reply s', s.step step = .ok (reply, s')) ↔
    ∀ key, step.needs? = some key → ∃ t, s.find key = .ok t := by
  cases step with
  | check key =>
    refine ⟨?_, fun h => ?_⟩
    · rintro ⟨reply, s', h⟩ _ ⟨⟩
      obtain ⟨t, ht, _⟩ := bind_eq_ok_iff.mp h
      exact ⟨t, ht⟩
    · obtain ⟨t, ht⟩ := h key rfl
      exact ⟨_, _, bind_eq_ok_iff.mpr ⟨t, ht, by rw [t.check_eq_found]; rfl⟩⟩
  | report key _ | result key | add key =>
    refine ⟨?_, fun h => ?_⟩
    · rintro ⟨reply, s', h⟩ _ ⟨⟩
      obtain ⟨t, ht, _⟩ := bind_eq_ok_iff.mp h
      exact ⟨t, ht⟩
    · obtain ⟨t, ht⟩ := h key rfl
      exact ⟨_, _, bind_eq_ok_iff.mpr ⟨t, ht, rfl⟩⟩
  | openScript _ _ _ | status _ | exitCode _ | listing _ | grouped _ =>
    refine ⟨?_, fun _ => ⟨_, _, rfl⟩⟩
    rintro - _ ⟨⟩

theorem run_cons_eq_ok_iff {steps : List Step} {replies : List Reply} :
    s.run (step :: steps) = .ok (replies, s') ↔ ∃ reply s₁ others, s.step step = .ok (reply, s₁) ∧
      s₁.run steps = .ok (others, s') ∧ replies = reply :: others := by
  rw [run, bind_eq_ok_iff]
  constructor
  · rintro ⟨⟨reply, s₁⟩, hstep, h⟩
    obtain ⟨⟨others, s₂⟩, hrun, h⟩ := bind_eq_ok_iff.mp h
    cases h
    exact ⟨reply, s₁, others, hstep, hrun, rfl⟩
  · rintro ⟨reply, s₁, others, hstep, hrun, rfl⟩
    exact ⟨(reply, s₁), hstep, bind_eq_ok_iff.mpr ⟨(others, s'), hrun, rfl⟩⟩

end ScriptAudit.Session
