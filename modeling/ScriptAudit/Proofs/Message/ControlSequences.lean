import ScriptAudit.Color
import ScriptAudit.Proofs.Message.Printable

/-! # Texts without their control sequences

Control sequences for the display are an escape character, a bracket, numbers between semicolons
and the letter `m`. A colored text shows a plain one if it is the plain one when they are removed,
whatever follows. Main statements: `Shows.bold` and `Shows.append`, from which the colored texts of
reports and scores are put together, and `Shows.strip_eq`.
-/
namespace ScriptAudit

namespace Color

def escape : Char := '\x1b'

/-- What stands in a control sequence between the bracket and the letter. -/
def isParameter (c : Char) : Bool := c.isDigit || c == ';'

/-- The length of the control sequence with which a text starts; zero if it starts with none. -/
def sequenceLength : List Char → Nat
  | c :: '[' :: cs =>
    if c = escape ∧ (cs.dropWhile isParameter).head? = some 'm' then
      (cs.takeWhile isParameter).length + 3
    else 0
  | _ => 0

/-- A text without its control sequences; as many characters as the number says still belong to
one. -/
def stripFrom : Nat → List Char → List Char
  | _, [] => []
  | skip + 1, _ :: cs => stripFrom skip cs
  | 0, c :: cs =>
    match sequenceLength (c :: cs) with
    | 0 => c :: stripFrom 0 cs
    | length + 1 => stripFrom length cs

def strip (text : String) : String := String.ofList (stripFrom 0 text.toList)

theorem stripFrom_eq_drop (skip : Nat) (cs : List Char) :
    stripFrom skip cs = stripFrom 0 (cs.drop skip) := by
  induction skip generalizing cs with
  | zero => rfl
  | succ skip ih =>
    cases cs with
    | nil => simp [stripFrom]
    | cons c cs => exact ih cs

theorem sequenceLength_of_ne {c : Char} (h : c ≠ escape) (cs : List Char) :
    sequenceLength (c :: cs) = 0 := by
  unfold sequenceLength
  split
  · next heq =>
    obtain ⟨rfl, _⟩ := List.cons.inj heq
    exact if_neg fun hc => h hc.1
  · rfl

/-- Where no control sequence can start, the text stays. -/
theorem stripFrom_append {cs : List Char} (h : escape ∉ cs) (rest : List Char) :
    stripFrom 0 (cs ++ rest) = cs ++ stripFrom 0 rest := by
  induction cs with
  | nil => rfl
  | cons c cs ih =>
    have hc : c ≠ escape := (List.ne_of_not_mem_cons h).symm
    rw [List.cons_append, stripFrom, sequenceLength_of_ne hc, ih (List.not_mem_of_not_mem_cons h),
      List.cons_append]

/-- A control sequence is removed. -/
theorem stripFrom_sequence {ps : List Char} (h : ∀ c ∈ ps, isParameter c = true)
    (rest : List Char) :
    stripFrom 0 (escape :: '[' :: (ps ++ 'm' :: rest)) = stripFrom 0 rest := by
  have hm : isParameter 'm' = false := by decide
  have htake : (ps ++ 'm' :: rest).takeWhile isParameter = ps := by
    rw [List.takeWhile_append_of_pos h, List.takeWhile_cons_of_neg (by simp [hm]), List.append_nil]
  have hdrop : (ps ++ 'm' :: rest).dropWhile isParameter = 'm' :: rest := by
    rw [List.dropWhile_append_of_pos h, List.dropWhile_cons_of_neg (by simp [hm])]
  have hlength : sequenceLength (escape :: '[' :: (ps ++ 'm' :: rest)) = ps.length + 3 := by
    rw [sequenceLength, if_pos ⟨rfl, by rw [hdrop]; rfl⟩, htake]
  rw [stripFrom, hlength]
  change stripFrom (ps.length + 2) _ = _
  rw [stripFrom_eq_drop, List.drop_succ_cons, List.append_cons, List.drop_left' (by simp)]

end Color

open Color

/-- The colored text is the plain one when its control sequences are removed, also in front of more
text. -/
def Shows (colored plain : String) : Prop :=
  ∀ rest, stripFrom 0 (colored.toList ++ rest) = plain.toList ++ stripFrom 0 rest

namespace Shows

variable {colored colored' plain plain' text : String}

theorem strip_eq (h : Shows colored plain) : strip colored = plain := by
  have hall := h []
  rw [List.append_nil, stripFrom, List.append_nil] at hall
  rw [strip, hall, String.ofList_toList]

theorem self (h : escape ∉ text.toList) : Shows text text := stripFrom_append h

theorem empty : Shows "" "" := self (by decide)

theorem printable (h : Printable text) : Shows text text := self (h.not_mem (by decide))

theorem append (h : Shows colored plain) (h' : Shows colored' plain') :
    Shows (colored ++ colored') (plain ++ plain') := by
  intro rest
  rw [String.toList_append, String.toList_append, List.append_assoc, h, h', List.append_assoc]

theorem bold (c : Color) (h : escape ∉ text.toList) : Shows (c.bold text) text := by
  have hcode := List.all_eq_true.mp
    (show ("1;".toList ++ c.code.toList).all isParameter = true by cases c <;> decide)
  have hreset := List.all_eq_true.mp (show "0".toList.all isParameter = true by decide)
  intro rest
  have hbold : (c.bold text).toList ++ rest =
      escape :: '[' :: (("1;".toList ++ c.code.toList) ++ 'm' ::
        (text.toList ++ escape :: '[' :: ("0".toList ++ 'm' :: rest))) := by
    simp [Color.bold, escape]
  rw [hbold, stripFrom_sequence hcode, stripFrom_append h, stripFrom_sequence hreset]

example : strip (Color.red.bold "FAILED" ++ ": \x1b[1") = "FAILED: \x1b[1" := by decide +kernel

variable {α : Type} {xs : List α} {f g : α → String}

theorem join (h : ∀ x ∈ xs, Shows (f x) (g x)) :
    Shows (String.join (xs.map f)) (String.join (xs.map g)) := by
  induction xs with
  | nil => exact empty
  | cons x xs ih =>
    obtain ⟨hx, hxs⟩ := List.forall_mem_cons.mp h
    rw [List.map_cons, List.map_cons, String.join_cons, String.join_cons]
    exact hx.append (ih hxs)

theorem intercalate {separator : String} (hseparator : escape ∉ separator.toList)
    (h : ∀ x ∈ xs, Shows (f x) (g x)) :
    Shows (separator.intercalate (xs.map f)) (separator.intercalate (xs.map g)) := by
  induction xs with
  | nil => exact empty
  | cons x xs ih =>
    obtain ⟨hx, hxs⟩ := List.forall_mem_cons.mp h
    cases xs with
    | nil => simpa using hx
    | cons next xs =>
      simp only [List.map_cons, String.intercalate_cons_cons] at ih ⊢
      exact (hx.append (self hseparator)).append (ih hxs)

end Shows
end ScriptAudit
