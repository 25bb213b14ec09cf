import ScriptAudit.Message.Severity

/-! # Counting findings

Findings are counted by severity. A program counts in 64-bit words, and an addition whose sum is no
such word ends it on the spot, which is written here as a value that is missing: for each function
that adds there is one that looks at its additions in this way. As long as all findings together can
be counted in a word, no value is missing (`total?_eq_some_iff`, `increment?_eq_some`,
`merge?_eq_some`).
-/
namespace ScriptAudit

namespace Word

/-- The sum of two words, if it is a word. -/
def add? (m n : Nat) : Option Nat := if m + n < UInt64.size then some (m + n) else none

variable {m n k : Nat}

theorem add?_eq_some_iff : add? m n = some k ↔ m + n < UInt64.size ∧ m + n = k := by
  simp [add?]

theorem add?_eq_some (h : m + n < UInt64.size) : add? m n = some (m + n) := if_pos h

theorem add?_eq_none_iff : add? m n = none ↔ UInt64.size ≤ m + n := by
  simp [add?]

end Word

structure Tally where
  error : Nat
  warning : Nat
  info : Nat
  deriving DecidableEq, Repr

namespace Tally

def zero : Tally := ⟨0, 0, 0⟩

def get (t : Tally) : Severity → Nat
  | .error => t.error
  | .warning => t.warning
  | .info => t.info

def increment (t : Tally) : Severity → Tally
  | .error => { t with error := t.error + 1 }
  | .warning => { t with warning := t.warning + 1 }
  | .info => { t with info := t.info + 1 }

def merge (t u : Tally) : Tally := ⟨t.error + u.error, t.warning + u.warning, t.info + u.info⟩

/-- The findings that a strict exit code counts. -/
def issues (t : Tally) : Nat := t.error + t.warning

def total (t : Tally) : Nat := t.issues + t.info

/-! The same in words. -/

def increment? (t : Tally) : Severity → Option Tally
  | .error => do return { t with error := ← Word.add? t.error 1 }
  | .warning => do return { t with warning := ← Word.add? t.warning 1 }
  | .info => do return { t with info := ← Word.add? t.info 1 }

def merge? (t u : Tally) : Option Tally := do
  return ⟨← Word.add? t.error u.error, ← Word.add? t.warning u.warning, ← Word.add? t.info u.info⟩

def issues? (t : Tally) : Option Nat := Word.add? t.error t.warning

def total? (t : Tally) : Option Nat := do Word.add? (← t.issues?) t.info

variable {t u : Tally}

theorem total?_eq_some_iff {n : Nat} : t.total? = some n ↔ t.total < UInt64.size ∧ t.total = n := by
  simp only [total?, issues?, Option.bind_eq_bind, Option.bind_eq_some_iff,
    Word.add?_eq_some_iff, total, issues]
  constructor
  · rintro ⟨_, ⟨_, rfl⟩, hlt, rfl⟩
    exact ⟨hlt, rfl⟩
  · rintro ⟨hlt, rfl⟩
    exact ⟨_, ⟨by omega, rfl⟩, hlt, rfl⟩

theorem total?_eq_some (h : t.total < UInt64.size) : t.total? = some t.total :=
  total?_eq_some_iff.mpr ⟨h, rfl⟩

theorem issues?_eq_some (h : t.total < UInt64.size) : t.issues? = some t.issues :=
  Word.add?_eq_some (by unfold total issues at h; omega)

theorem total_increment (t : Tally) (v : Severity) : (t.increment v).total = t.total + 1 := by
  cases v <;> simp only [increment, total, issues] <;> omega

theorem total_merge (t u : Tally) : (t.merge u).total = t.total + u.total := by
  simp only [merge, total, issues]
  omega

theorem increment?_eq_some {v : Severity} (h : (t.increment v).total < UInt64.size) :
    t.increment? v = some (t.increment v) := by
  cases v with
  | error =>
    rw [increment?, Word.add?_eq_some (by simp only [increment, total, issues] at h; omega)]
    rfl
  | warning =>
    rw [increment?, Word.add?_eq_some (by simp only [increment, total, issues] at h; omega)]
    rfl
  | info =>
    rw [increment?, Word.add?_eq_some (by simp only [increment, total, issues] at h; omega)]
    rfl

theorem merge?_eq_some (h : (t.merge u).total < UInt64.size) : t.merge? u = some (t.merge u) := by
  simp only [merge, total, issues] at h
  rw [merge?, Word.add?_eq_some (by omega), Word.add?_eq_some (by omega),
    Word.add?_eq_some (by omega)]
  rfl

end Tally
end ScriptAudit
