import Mathlib.Data.List.Induction
import ScriptAudit.Proofs.Analysis.States
import ScriptAudit.Proofs.Session.Steps

/-! # Sessions by their history

What a session holds can be told from the steps that it has taken: a script is as it was opened,
or as a single check of it leaves it, and the summary has the scripts as they were when they were
added. Main statement: `run_recounts`.
-/
namespace ScriptAudit

/-- How a script is when it has been checked since it was opened, and when it has not. -/
def Script.InState (t : Script) : Bool → Prop
  | true => (ofSource t.source t.options).check = .ok t
  | false => t.analysis = ⟨[], .zero, 100⟩

namespace Session

/-- Whether a script has been opened, with which source and options it was so for the last time, and
whether it has been checked since. -/
def LastOpened (steps : List Step) (key : String) (source : Source) (options : Options)
    (checked : Bool) : Prop :=
  ∃ before after, steps = before ++ .openScript key source options :: after ∧
    (∀ step ∈ after, step.opens? ≠ some key) ∧
    checked = after.any fun step => step.checks? = some key

/-- The script that the steps leave under a key. -/
def Leaves (steps : List Step) (key : String) (t : Script) : Prop :=
  ∃ checked, LastOpened steps key t.source t.options checked ∧ t.InState checked

/-- The steps that are addressed to one script. -/
def addressed (key : String) (steps : List Step) : List Step :=
  steps.filter (·.key? = some key)

/-- Each step together with those that have been taken before it. -/
def moments (before : List Step) : List Step → List (List Step × Step)
  | [] => []
  | step :: steps => (before, step) :: moments (before ++ [step]) steps

/-- The script of each step has been opened before. -/
def WellKeyed (before steps : List Step) : Prop :=
  ∀ m ∈ moments before steps, ∀ key ∈ m.2.needs?, key ∈ m.1.filterMap Step.opens?

instance (before steps : List Step) : Decidable (WellKeyed before steps) :=
  inferInstanceAs (Decidable (∀ m ∈ moments before steps, ∀ key ∈ m.2.needs?,
    key ∈ m.1.filterMap Step.opens?))

/-- The steps before each addition to the summary, and the script that is added. -/
def additions (steps : List Step) : List (List Step × String) :=
  (moments [] steps).filterMap fun m => m.2.adds?.map (m.1, ·)

/-- What the steps say about a session. -/
structure Recounts (steps : List Step) (s : Session) : Prop where
  scripts : ∀ key t, s.find key = .ok t ↔ Leaves steps key t
  summary : ∃ ts, List.Forall₂ (fun a t => Leaves a.1 a.2 t) (additions steps) ts ∧
    s.summary = ts.foldl Summary.add .empty

variable {s s' : Session} {steps : List Step} {step : Step} {key : String} {t : Script}

theorem lastOpened_concat {source : Source} {options : Options} {checked : Bool} :
    LastOpened (steps ++ [step]) key source options checked ↔
      (step = .openScript key source options ∧ checked = false) ∨
      (step.opens? ≠ some key ∧ ∃ was, LastOpened steps key source options was ∧
        checked = (was || step.checks? = some key)) := by
  constructor
  · rintro ⟨before, after, heq, hopens, rfl⟩
    rcases after.eq_nil_or_concat with rfl | ⟨after, last, rfl⟩
    · obtain ⟨_, hstep⟩ := List.append_inj' heq rfl
      exact .inl ⟨(List.cons.inj hstep).1, rfl⟩
    · rw [List.concat_eq_append] at heq hopens ⊢
      rw [← List.cons_append, ← List.append_assoc] at heq
      obtain ⟨rfl, hstep⟩ := List.append_inj' heq rfl
      obtain rfl := (List.cons.inj hstep).1
      obtain ⟨hafter, hlast⟩ := List.forall_mem_append.mp hopens
      refine .inr ⟨hlast _ (List.mem_singleton_self _), _, ⟨before, after, rfl, hafter, rfl⟩, ?_⟩
      rw [List.any_append, List.any_cons, List.any_nil, Bool.or_false]
  · rintro (⟨rfl, rfl⟩ | ⟨hopens, was, ⟨before, after, rfl, hafter, rfl⟩, rfl⟩)
    · exact ⟨steps, [], rfl, by simp, rfl⟩
    · refine ⟨before, after ++ [step], by simp, ?_, by simp⟩
      exact List.forall_mem_append.mpr ⟨hafter, by simpa using hopens⟩

theorem not_leaves_nil : ¬ Leaves [] key t := by
  rintro ⟨_, ⟨before, _, h, _⟩, _⟩
  cases before <;> cases h

theorem leaves_open {source : Source} {options : Options} :
    Leaves (steps ++ [.openScript key source options]) key t ↔ t = .ofSource source options := by
  unfold Leaves
  constructor
  · rintro ⟨checked, hlast, hstate⟩
    rcases lastOpened_concat.mp hlast with ⟨heq, rfl⟩ | ⟨hopens, _⟩
    · obtain ⟨source, options, analysis⟩ := t
      cases heq
      obtain rfl : analysis = .fresh := hstate
      rfl
    · exact absurd rfl hopens
  · rintro rfl
    exact ⟨false, lastOpened_concat.mpr (.inl ⟨rfl, rfl⟩), rfl⟩

theorem leaves_check {t' : Script} :
    Leaves (steps ++ [.check key]) key t' ↔ ∃ t, Leaves steps key t ∧ t.check = .ok t' := by
  constructor
  · rintro ⟨checked, hlast, hstate⟩
    rcases lastOpened_concat.mp hlast with ⟨heq, _⟩ | ⟨_, was, hwas, rfl⟩
    · cases heq
    · have hchecked : t'.InState true := by simpa [Step.checks?] using hstate
      -- a check starts afresh, so a script that has been checked is checked to itself
      cases was with
      | true => exact ⟨t', ⟨true, hwas, hchecked⟩, hchecked⟩
      | false => exact ⟨.ofSource t'.source t'.options, ⟨false, hwas, rfl⟩, hchecked⟩
  · rintro ⟨t, ⟨was, hlast, _⟩, hcheck⟩
    obtain rfl := Except.ok.inj (t.check_eq_found.symm.trans hcheck)
    refine ⟨true, lastOpened_concat.mpr (.inr ⟨?_, was, hlast, ?_⟩), hcheck⟩
    · simp [Step.opens?]
    · simp [Step.checks?]

theorem leaves_other (hopens : step.opens? ≠ some key) (hchecks : step.checks? ≠ some key) :
    Leaves (steps ++ [step]) key t ↔ Leaves steps key t := by
  refine exists_congr fun checked => and_congr_left fun _ => ?_
  rw [lastOpened_concat]
  constructor
  · rintro (⟨rfl, _⟩ | ⟨_, was, hlast, rfl⟩)
    · exact absurd rfl hopens
    · simpa [hchecks] using hlast
  · intro hlast
    exact .inr ⟨hopens, checked, hlast, by simp [hchecks]⟩

/-- A script is there when it has been opened. -/
theorem exists_leaves_iff : (∃ t, Leaves steps key t) ↔ key ∈ steps.filterMap Step.opens? := by
  induction steps using List.reverseRecOn with
  | nil => exact iff_of_false (fun ⟨_, h⟩ => not_leaves_nil h) (by simp)
  | append_singleton steps step ih =>
    rw [List.filterMap_append, List.mem_append, ← ih]
    by_cases hopens : step.opens? = some key
    · cases step <;> cases hopens
      exact iff_of_true ⟨_, leaves_open.mpr rfl⟩ (.inr List.mem_cons_self)
    · rw [or_iff_left (by simpa using hopens)]
      by_cases hchecks : step.checks? = some key
      · cases step <;> cases hchecks
        simp only [leaves_check]
        constructor
        · rintro ⟨_, t, ht, _⟩
          exact ⟨t, ht⟩
        · rintro ⟨t, ht⟩
          exact ⟨_, t, ht, t.check_eq_found⟩
      · exact exists_congr fun t => leaves_other hopens hchecks

theorem addressed_concat (key : String) (steps : List Step) (step : Step) :
    addressed key (steps ++ [step]) =
      addressed key steps ++ if step.key? = some key then [step] else [] := by
  rw [addressed, List.filter_append, List.filter_singleton, Bool.cond_decide]
  rfl

/-- What is left of a script depends on the steps that are addressed to it. -/
theorem leaves_addressed : Leaves (addressed key steps) key t ↔ Leaves steps key t := by
  induction steps using List.reverseRecOn generalizing t with
  | nil => rfl
  | append_singleton steps step ih =>
    rw [addressed_concat]
    by_cases hkey : step.key? = some key
    · rw [if_pos hkey]
      by_cases hopens : step.opens? = some key
      · cases step <;> cases hopens
        rw [leaves_open, leaves_open]
      · by_cases hchecks : step.checks? = some key
        · cases step <;> cases hchecks
          rw [leaves_check, leaves_check]
          exact exists_congr fun _ => and_congr_left' ih
        · rw [leaves_other hopens hchecks, leaves_other hopens hchecks, ih]
    · have hopens : step.opens? ≠ some key := mt Step.key?_of_opens? hkey
      have hchecks : step.checks? ≠ some key := mt Step.key?_of_checks? hkey
      rw [if_neg hkey, List.append_nil, ih, leaves_other hopens hchecks]

theorem moments_append (before steps steps' : List Step) :
    moments before (steps ++ steps') = moments before steps ++ moments (before ++ steps) steps' := by
  induction steps generalizing before with
  | nil => simp [moments]
  | cons step steps ih => simp [moments, ih]

theorem additions_concat (steps : List Step) (step : Step) :
    additions (steps ++ [step]) = additions steps ++ (step.adds?.map (steps, ·)).toList := by
  rw [additions, moments_append, List.filterMap_append]
  cases h : step.adds? <;> simp [additions, moments, h]

theorem recounts_empty : Recounts [] .empty where
  scripts key t := iff_of_false (fun h => by cases h) not_leaves_nil
  summary := ⟨[], .nil, rfl⟩

namespace Recounts

theorem scripts_step (h : Recounts steps s) (hdoes : s.Does step s') (key : String) (t : Script) :
    s'.find key = .ok t ↔ Leaves (steps ++ [step]) key t := by
  cases hdoes with
  | opened key' source options =>
    rw [find_store]
    by_cases hkey : key = key'
    · rw [if_pos hkey, hkey, leaves_open, Except.ok.injEq, eq_comm]
    · rw [if_neg hkey, h.scripts, leaves_other (by simpa [Step.opens?] using Ne.symm hkey)
        (by simp [Step.checks?])]
  | @checked key' t₁ t₂ hfind hcheck =>
    rw [find_store]
    by_cases hkey : key = key'
    · rw [if_pos hkey, hkey, leaves_check, Except.ok.injEq]
      constructor
      · rintro rfl
        exact ⟨t₁, (h.scripts key' t₁).mp hfind, hcheck⟩
      · rintro ⟨t₃, ht₃, hcheck'⟩
        obtain rfl := Except.ok.inj (hfind.symm.trans ((h.scripts key' t₃).mpr ht₃))
        exact Except.ok.inj (hcheck.symm.trans hcheck')
    · rw [if_neg hkey, h.scripts, leaves_other (by simp [Step.opens?])
        (by simpa [Step.checks?] using Ne.symm hkey)]
  | added hfind =>
    rw [leaves_other (by simp [Step.opens?]) (by simp [Step.checks?])]
    exact h.scripts key t
  | looked hopens hchecks _ =>
    rw [h.scripts, leaves_other (by simp [hopens]) (by simp [hchecks])]

theorem summary_step (h : Recounts steps s) (hdoes : s.Does step s') :
    ∃ ts, List.Forall₂ (fun a t => Leaves a.1 a.2 t) (additions (steps ++ [step])) ts ∧
      s'.summary = ts.foldl Summary.add .empty := by
  obtain ⟨ts, hts, hsummary⟩ := h.summary
  rw [additions_concat]
  cases hdoes with
  | opened key source options => exact ⟨ts, by simpa [Step.adds?] using hts, hsummary⟩
  | checked hfind hcheck => exact ⟨ts, by simpa [Step.adds?] using hts, hsummary⟩
  | looked _ _ hadds => exact ⟨ts, by simpa [hadds] using hts, hsummary⟩
  | @added key t hfind =>
    refine ⟨ts ++ [t], ?_, by simp [hsummary]⟩
    exact List.rel_append hts (.cons ((h.scripts key t).mp hfind) .nil)

theorem after_step (h : Recounts steps s) (hdoes : s.Does step s') : Recounts (steps ++ [step]) s' :=
  ⟨h.scripts_step hdoes, h.summary_step hdoes⟩

theorem after_run {replies : List Reply} {more : List Step} (h : Recounts steps s)
    (hrun : s.run more = .ok (replies, s')) : Recounts (steps ++ more) s' := by
  induction more generalizing steps s replies with
  | nil =>
    cases hrun
    rwa [List.append_nil]
  | cons step more ih =>
    obtain ⟨reply, s₁, others, hstep, hmore, _⟩ := run_cons_eq_ok_iff.mp hrun
    have hnext := ih (h.after_step (does_of_step hstep)) hmore
    rwa [List.append_assoc] at hnext

theorem exists_find_iff (h : Recounts steps s) :
    (∃ t, s.find key = .ok t) ↔ key ∈ steps.filterMap Step.opens? := by
  rw [← exists_leaves_iff]
  exact exists_congr fun t => h.scripts key t

/-- A session goes on to its end when each step finds the script that it needs. -/
theorem exists_run_iff (h : Recounts steps s) {more : List Step} :
    (∃ replies s', s.run more = .ok (replies, s')) ↔ WellKeyed steps more := by
  induction more generalizing steps s with
  | nil => exact iff_of_true ⟨[], s, rfl⟩ (List.forall_mem_nil _)
  | cons step more ih =>
    have hneeds : (∃ reply s₁, s.step step = .ok (reply, s₁)) ↔
        ∀ key ∈ step.needs?, key ∈ steps.filterMap Step.opens? :=
      exists_step_iff.trans (forall₂_congr fun _ _ => h.exists_find_iff)
    rw [WellKeyed, moments, List.forall_mem_cons, ← hneeds]
    constructor
    · rintro ⟨replies, s', hrun⟩
      obtain ⟨reply, s₁, others, hstep, hmore, _⟩ := run_cons_eq_ok_iff.mp hrun
      exact ⟨⟨reply, s₁, hstep⟩, (ih (h.after_step (does_of_step hstep))).mp ⟨others, s', hmore⟩⟩
    · rintro ⟨⟨reply, s₁, hstep⟩, hkeyed⟩
      obtain ⟨others, s', hmore⟩ := (ih (h.after_step (does_of_step hstep))).mpr hkeyed
      exact ⟨reply :: others, s', run_cons_eq_ok_iff.mpr ⟨reply, s₁, others, hstep, hmore, rfl⟩⟩

/-- Two sessions have the same under a key if the same steps were addressed to it. -/
theorem find_congr (h : Recounts steps s) {steps' : List Step} (h' : Recounts steps' s')
    (hsame : addressed key steps' = addressed key steps) : s'.find key = s.find key := by
  have hlookup : s'.scripts.lookup key = s.scripts.lookup key := by
    refine Option.ext fun t => ?_
    rw [← find_eq_ok_iff, ← find_eq_ok_iff, h.scripts, h'.scripts, ← leaves_addressed, hsame,
      leaves_addressed]
  unfold find
  rw [hlookup]

end Recounts

/-- A session goes on to its end if its steps name scripts that have been opened, and no further if
they do not. Under each key it then has a script that is fresh or as a single check leaves it, with the
source and the options it was opened with last, whatever has been done to others; the summary has the
scripts as they were when they were added. From there on, only opening and checking changes scripts,
and only adding changes the summary. -/
theorem run_recounts (steps : List Step) :
    ((∃ replies s, empty.run steps = .ok (replies, s)) ↔ WellKeyed [] steps) ∧
    ∀ replies s, empty.run steps = .ok (replies, s) → Recounts steps s ∧
      (∀ key steps' replies' s', empty.run steps' = .ok (replies', s') →
        addressed key steps' = addressed key steps → s'.find key = s.find key) ∧
      ∀ step reply s', s.step step = .ok (reply, s') →
        (step.opens? = none → step.checks? = none → s'.scripts = s.scripts) ∧
        (step.adds? = none → s'.summary = s.summary) := by
  refine ⟨recounts_empty.exists_run_iff, fun replies s hrun => ?_⟩
  have hs := recounts_empty.after_run hrun
  refine ⟨hs, ?_, ?_⟩
  · intro key steps' replies' s' hrun' hsame
    exact hs.find_congr (recounts_empty.after_run hrun') hsame
  · intro step reply s' hstep
    cases does_of_step hstep with
    | opened key source options =>
      refine ⟨fun hopens => ?_, fun _ => rfl⟩
      cases hopens
    | checked hfind hcheck =>
      refine ⟨fun _ hchecks => ?_, fun _ => rfl⟩
      cases hchecks
    | added hfind =>
      refine ⟨fun _ _ => rfl, fun hadds => ?_⟩
      cases hadds
    | looked _ _ _ => exact ⟨fun _ _ => rfl, fun _ => rfl⟩

/-- A script is checked and added, and another text is opened in its place. -/
def replacing : List Step :=
  [.openScript "a" ⟨.ofString "a.py", ""⟩ .standard, .check "a", .check "a", .add "a",
    .openScript "b" .indented .standard, .check "b",
    .openScript "a" ⟨.ofString "a.py", "#"⟩ .standard, .report "a" false, .add "b", .result "a",
    .status false]

theorem run_recounts_replacing : WellKeyed [] replacing ∧
    ∃ replies s, empty.run replacing = .ok (replies, s) ∧ Recounts replacing s ∧
      s.find "a" = .ok (.ofSource ⟨.ofString "a.py", "#"⟩ .standard) ∧
      s.find "b" = .ok (.checkedIndented .standard) := by
  have hkeyed : WellKeyed [] replacing := by decide
  obtain ⟨hruns, hall⟩ := run_recounts replacing
  obtain ⟨replies, s, hrun⟩ := hruns.mpr hkeyed
  have hs := (hall replies s hrun).1
  have hfresh : LastOpened replacing "a" ⟨.ofString "a.py", "#"⟩ .standard false :=
    ⟨replacing.take 6, replacing.drop 7, rfl, by decide, rfl⟩
  have hchecked : LastOpened replacing "b" .indented .standard true :=
    ⟨replacing.take 4, replacing.drop 5, rfl, by decide, rfl⟩
  exact ⟨hkeyed, replies, s, hrun, hs, (hs.scripts "a" _).mpr ⟨false, hfresh, rfl⟩,
    (hs.scripts "b" _).mpr ⟨true, hchecked, Script.check_indented .standard⟩⟩

end Session
end ScriptAudit
