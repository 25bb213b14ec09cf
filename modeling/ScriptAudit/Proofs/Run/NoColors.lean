import ScriptAudit.Proofs.Run.Verdict

/-! # The option against colors

A command line that leaves the colors on can be given the option against them, and it asks for the
same otherwise. The arguments are read with the option as they are without it, because no later
argument speaks of colors. Main statements: `Reading.follows_foldlM` and `parse_noColors`.
-/
namespace ScriptAudit
namespace CommandLine

variable {c : CommandLine}

namespace Reading

variable {r r₁ : Reading} {x x' : Except NoRun Reading}

/-- No argument that has been read speaks of colors. -/
def Colored (r : Reading) : Prop := r.options.any (·.1 = .noColors) = false

/-- What has been read, behind the option against colors. -/
def behindNoColors (r : Reading) : Reading := { r with options := r.options ++ [(.noColors, "")] }

/-- If reading goes on from `r` without speaking of colors, it does so behind the option too. -/
def Follows (r : Reading) (x x' : Except NoRun Reading) : Prop :=
  ∀ r₁, x = .ok r₁ → r₁.Colored → r.Colored ∧ x' = .ok r₁.behindNoColors

theorem follows_error (r : Reading) (e e' : NoRun) : Follows r (.error e) (.error e') := by
  intro r₁ h
  cases h

theorem follows_ok (h : r₁.options = r.options) : Follows r (.ok r₁) (.ok r₁.behindNoColors) := by
  intro r₂ heq hcolored
  obtain rfl := Except.ok.inj heq
  exact ⟨by rwa [Colored, ← h], rfl⟩

theorem Follows.bind {f : Reading → Except NoRun Reading} (h : Follows r x x')
    (hf : ∀ r₁, Follows r₁ (f r₁) (f r₁.behindNoColors)) : Follows r (x >>= f) (x' >>= f) := by
  intro r₂ heq hcolored
  obtain ⟨r₁, hx, hr₁⟩ := bind_eq_ok_iff.mp heq
  obtain ⟨hmid, hnext⟩ := hf r₁ r₂ hr₁ hcolored
  obtain ⟨hstart, hx'⟩ := h r₁ hx hmid
  exact ⟨hstart, by rw [hx']; exact hnext⟩

theorem follows_addPath (r : Reading) (argument : Argument) :
    Follows r (r.addPath argument) (r.behindNoColors.addPath argument) := by
  unfold addPath
  split
  · exact follows_error _ _ _
  · exact follows_ok rfl

theorem follows_addOption (r : Reading) (k : Key) (value : String) :
    Follows r (r.addOption k value) (r.behindNoColors.addOption k value) := by
  intro r₁ h hcolored
  unfold addOption at h
  dsimp only at h
  split at h
  · cases h
  · next hversion =>
    split at h
    · cases h
    · next hrefused =>
      obtain rfl := Except.ok.inj h
      rw [Colored, List.any_cons, Bool.or_eq_false_iff, decide_eq_false_iff_not] at hcolored
      obtain ⟨hk, hcolored⟩ := hcolored
      have hrepeated : r.behindNoColors.options.any (·.1 = k) = r.options.any (·.1 = k) := by
        simp [behindNoColors, Ne.symm hk]
      refine ⟨hcolored, ?_⟩
      unfold addOption
      dsimp only
      rw [if_neg hversion, hrepeated, if_neg hrefused]
      rfl

theorem follows_addValue (r : Reading) (k : Key) (bytes : List UInt8) :
    Follows r (r.addValue k bytes) (r.behindNoColors.addValue k bytes) := by
  unfold addValue
  split
  · exact follows_error _ _ _
  · exact follows_addOption _ _ _

theorem follows_addLetters (r : Reading) (letters : List UInt8) :
    Follows r (r.addLetters letters) (r.behindNoColors.addLetters letters) := by
  induction letters generalizing r with
  | nil => exact follows_ok rfl
  | cons letter rest ih =>
    unfold addLetters
    split
    · exact follows_error _ _ _
    · next k _ =>
      split
      · split
        · exact follows_ok rfl
        · exact follows_addValue _ _ _
        · exact follows_addValue _ _ _
      · exact (follows_addOption r k "").bind ih

theorem follows_addWord (r : Reading) (word : List UInt8) :
    Follows r (r.addWord word) (r.behindNoColors.addWord word) := by
  unfold addWord
  dsimp only
  split
  · exact follows_error _ _ _
  · split
    · exact follows_ok rfl
    · exact follows_addValue _ _ _
    · exact follows_addOption _ _ _
    · exact follows_error _ _ _

theorem follows_step (r : Reading) (argument : Argument) :
    Follows r (r.step argument) (r.behindNoColors.step argument) := by
  have honly : r.behindNoColors.onlyPaths = r.onlyPaths := rfl
  have hwaiting : r.behindNoColors.waiting = r.waiting := rfl
  unfold step
  rw [honly, hwaiting]
  split
  · exact follows_addPath _ _
  · split
    · exact follows_ok rfl
    · exact follows_addWord _ _
    · exact follows_addLetters _ _
    · exact follows_addPath _ _
    · exact follows_error _ _ _
    · exact follows_addValue _ _ _

/-- Arguments that do not speak of colors are read in the same way behind the option. -/
theorem follows_foldlM (r : Reading) (arguments : List Argument) :
    Follows r (arguments.foldlM step r) (arguments.foldlM step r.behindNoColors) := by
  induction arguments generalizing r with
  | nil => exact follows_ok rfl
  | cons argument arguments ih =>
    rw [List.foldlM_cons, List.foldlM_cons]
    exact (follows_step r argument).bind ih

theorem finish_eq_ok_iff : r.finish = .ok c ↔
    (r.waiting.isSome || r.paths.isEmpty) = false ∧ c = ⟨r.options.reverse, r.paths.reverse⟩ := by
  unfold finish
  cases r.waiting.isSome || r.paths.isEmpty <;> simp [eq_comm]

theorem finish_behindNoColors (h : r.finish = .ok c) :
    r.behindNoColors.finish = .ok ⟨(.noColors, "") :: c.options, c.paths⟩ := by
  obtain ⟨hcomplete, rfl⟩ := finish_eq_ok_iff.mp h
  refine finish_eq_ok_iff.mpr ⟨hcomplete, ?_⟩
  rw [behindNoColors, List.reverse_append]
  rfl

end Reading

/-- With the option in front, the arguments of a command line that leaves the colors on ask for the
same without colors. -/
theorem parse_noColors {arguments : List Argument} (h : parse arguments = .ok c)
    (hcolors : c.has .noColors = false) :
    ∃ c', parse (Utf8.encode "-c" :: arguments) = .ok c' ∧ c.Adds .noColors c' := by
  obtain ⟨r, hread, hfinish⟩ := bind_eq_ok_iff.mp h
  have hcolored : r.Colored := by
    obtain ⟨_, rfl⟩ := Reading.finish_eq_ok_iff.mp hfinish
    rwa [has, List.any_reverse] at hcolors
  obtain ⟨_, hbehind⟩ := Reading.follows_foldlM .start arguments r hread hcolored
  refine ⟨_, ?_, c.adds_cons .noColors ""⟩
  exact bind_eq_ok_iff.mpr ⟨_, hbehind, Reading.finish_behindNoColors hfinish⟩

end CommandLine
end ScriptAudit
