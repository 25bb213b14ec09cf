import Mathlib.Data.List.Induction
import Mathlib.Order.Monotone.Basic
import ScriptAudit.Proofs.Text.LineNumber
import ScriptAudit.Proofs.Text.Split

/-! # Line feeds with carriage returns before them

A text is converted to the line ends of other systems by a carriage return before each line feed.
Each index of the text moves on by the number of line feeds before it. Main statements:
`take_moved` and `drop_moved`, by which the converted text falls apart at a moved index into
converted parts, and `lines_withReturns`, by which the lines remain what they are.
-/
namespace ScriptAudit.Text

def withReturns (cs : List Char) : List Char :=
  cs.flatMap fun c => if c == '\n' then ['\r', '\n'] else [c]

/-- The text with a carriage return before each line feed. -/
def converted (text : String) : String := String.ofList (withReturns text.toList)

/-- Where the character at an index of the text goes. -/
def moved (cs : List Char) (i : Nat) : Nat := i + (cs.take i).count '\n'

variable {cs ds needle : List Char} {c : Char} {i j : Nat}

@[simp] theorem withReturns_nil : withReturns [] = [] := rfl

theorem withReturns_newline_cons (cs : List Char) :
    withReturns ('\n' :: cs) = '\r' :: '\n' :: withReturns cs := rfl

theorem withReturns_cons_of_ne (h : c ≠ '\n') (cs : List Char) :
    withReturns (c :: cs) = c :: withReturns cs := by
  simp [withReturns, h]

@[simp] theorem withReturns_append (cs ds : List Char) :
    withReturns (cs ++ ds) = withReturns cs ++ withReturns ds :=
  List.flatMap_append

theorem withReturns_of_not_mem (h : '\n' ∉ cs) : withReturns cs = cs := by
  induction cs with
  | nil => rfl
  | cons c cs ih =>
    rw [List.mem_cons, not_or] at h
    rw [withReturns_cons_of_ne (Ne.symm h.1), ih h.2]

@[simp] theorem toList_converted (text : String) :
    (converted text).toList = withReturns text.toList :=
  String.toList_ofList

theorem withReturns_eq_nil_iff : withReturns cs = [] ↔ cs = [] := by
  cases cs with
  | nil => simp
  | cons c cs =>
    by_cases hc : c = '\n'
    · subst hc
      simp [withReturns_newline_cons]
    · simp [withReturns_cons_of_ne hc]

theorem length_withReturns (cs : List Char) :
    (withReturns cs).length = cs.length + cs.count '\n' := by
  induction cs with
  | nil => rfl
  | cons c cs ih =>
    by_cases hc : c = '\n'
    · subst hc
      rw [withReturns_newline_cons, List.count_cons_self]
      simp only [List.length_cons]
      omega
    · rw [withReturns_cons_of_ne hc, List.count_cons_of_ne hc]
      simp only [List.length_cons]
      omega

theorem count_withReturns (cs : List Char) : (withReturns cs).count '\n' = cs.count '\n' := by
  induction cs with
  | nil => rfl
  | cons c cs ih =>
    by_cases hc : c = '\n'
    · subst hc
      rw [withReturns_newline_cons, List.count_cons_of_ne (by decide), List.count_cons_self,
        List.count_cons_self, ih]
    · rw [withReturns_cons_of_ne hc, List.count_cons_of_ne hc, List.count_cons_of_ne hc, ih]

theorem getLast?_withReturns (cs : List Char) : (withReturns cs).getLast? = cs.getLast? := by
  induction cs using List.reverseRecOn with
  | nil => rfl
  | append_singleton cs c _ =>
    rw [withReturns_append, List.getLast?_concat]
    by_cases hc : c = '\n'
    · subst hc
      simp [withReturns_newline_cons]
    · simp [withReturns_cons_of_ne hc]

/-! Indices. -/

theorem moved_add (cs : List Char) (i k : Nat) :
    moved cs (i + k) = moved cs i + moved (cs.drop i) k := by
  unfold moved
  rw [List.take_add, List.count_append]
  omega

theorem moved_succ_newline (h : cs.drop i = '\n' :: ds) : moved cs (i + 1) = moved cs i + 2 := by
  rw [moved_add, h]
  rfl

theorem moved_succ_of_ne (h : cs.drop i = c :: ds) (hc : c ≠ '\n') :
    moved cs (i + 1) = moved cs i + 1 := by
  have hone : moved (c :: ds) 1 = 1 := by
    rw [moved, List.take_succ_cons, List.take_zero, List.count_singleton, beq_false_of_ne hc]
    rfl
  rw [moved_add, h, hone]

theorem strictMono_moved (cs : List Char) : StrictMono (moved cs) := by
  intro i j h
  obtain ⟨k, rfl⟩ := Nat.exists_eq_add_of_lt h
  rw [Nat.add_assoc, moved_add]
  unfold moved
  omega

/-- The part in front of an index is as long as the index says, or it is the whole text. -/
theorem length_withReturns_take (cs : List Char) (i : Nat) :
    (withReturns (cs.take i)).length = moved cs i ∨
      (withReturns (cs.take i)).length ≤ moved cs i ∧ cs.drop i = [] := by
  rw [length_withReturns, moved, List.length_take]
  by_cases h : i ≤ cs.length
  · left
    omega
  · right
    rw [List.drop_eq_nil_iff]
    omega

theorem withReturns_eq_append (cs : List Char) (i : Nat) :
    withReturns cs = withReturns (cs.take i) ++ withReturns (cs.drop i) := by
  rw [← withReturns_append, List.take_append_drop]

theorem take_moved (cs : List Char) (i : Nat) :
    (withReturns cs).take (moved cs i) = withReturns (cs.take i) := by
  rw [withReturns_eq_append cs i]
  rcases length_withReturns_take cs i with h | ⟨h, hdrop⟩
  · rw [← h, List.take_left]
  · rw [hdrop, withReturns_nil, List.append_nil, List.take_of_length_le h]

theorem drop_moved (cs : List Char) (i : Nat) :
    (withReturns cs).drop (moved cs i) = withReturns (cs.drop i) := by
  rw [withReturns_eq_append cs i]
  rcases length_withReturns_take cs i with h | ⟨h, hdrop⟩
  · rw [← h, List.drop_left]
  · rw [hdrop, withReturns_nil, List.append_nil, List.drop_eq_nil_of_le h]

/-- What lies between two indices is converted as a text of its own. -/
theorem take_drop_moved (cs : List Char) (i j : Nat) :
    ((withReturns cs).drop (moved cs i)).take (moved cs j - moved cs i) =
      withReturns ((cs.drop i).take (j - i)) := by
  rw [drop_moved, ← take_moved]
  congr 1
  rcases Nat.le_total i j with h | h
  · obtain ⟨k, rfl⟩ := Nat.exists_eq_add_of_le h
    rw [moved_add, Nat.add_sub_cancel_left, Nat.add_sub_cancel_left]
  · have hle : moved cs j ≤ moved cs i := (strictMono_moved cs).monotone h
    rw [Nat.sub_eq_zero_of_le hle, Nat.sub_eq_zero_of_le h]
    rfl

theorem lineOf_moved (cs : List Char) (i : Nat) :
    lineOf (withReturns cs) (moved cs i) = lineOf cs i := by
  rw [lineOf, take_moved, count_withReturns, lineOf]

/-! Words without line ends. -/

theorem isPrefixOf_cons_of_not_mem (h : c ∉ needle) (cs : List Char) :
    needle.isPrefixOf (c :: cs) = needle.isEmpty := by
  cases needle with
  | nil => rfl
  | cons d needle =>
    rw [List.mem_cons, not_or] at h
    have hd : (d == c) = false := beq_false_of_ne (Ne.symm h.1)
    rw [List.isPrefixOf_cons_cons, hd]
    rfl

theorem isPrefixOf_withReturns (hfeed : '\n' ∉ needle) (hreturn : '\r' ∉ needle) (cs : List Char) :
    needle.isPrefixOf (withReturns cs) = needle.isPrefixOf cs := by
  induction needle generalizing cs with
  | nil => rw [List.isPrefixOf_nil_left, List.isPrefixOf_nil_left]
  | cons d needle ih =>
    cases cs with
    | nil => rfl
    | cons c cs =>
      by_cases hc : c = '\n'
      · subst hc
        rw [withReturns_newline_cons, isPrefixOf_cons_of_not_mem hreturn,
          isPrefixOf_cons_of_not_mem hfeed]
      · rw [withReturns_cons_of_ne hc, List.isPrefixOf_cons_cons, List.isPrefixOf_cons_cons,
          ih (List.not_mem_of_not_mem_cons hfeed) (List.not_mem_of_not_mem_cons hreturn)]

/-- A word is not at the end of one piece and the start of the next one. -/
theorem isPrefixOf_append_cons (h : c ∉ needle) (cs ds : List Char) :
    needle.isPrefixOf (cs ++ c :: ds) = needle.isPrefixOf cs := by
  induction needle generalizing cs with
  | nil => rw [List.isPrefixOf_nil_left, List.isPrefixOf_nil_left]
  | cons d needle ih =>
    cases cs with
    | nil =>
      rw [List.nil_append, isPrefixOf_cons_of_not_mem h]
      rfl
    | cons e cs =>
      rw [List.cons_append, List.isPrefixOf_cons_cons, List.isPrefixOf_cons_cons,
        ih (List.not_mem_of_not_mem_cons h)]

theorem occursIn_append_cons (h : c ∉ needle) (cs ds : List Char) :
    occursIn needle (cs ++ c :: ds) = (occursIn needle cs || occursIn needle ds) := by
  induction cs with
  | nil => simp only [List.nil_append, occursIn, isPrefixOf_cons_of_not_mem h]
  | cons e cs ih =>
    have hprefix := isPrefixOf_append_cons h (e :: cs) ds
    rw [List.cons_append] at hprefix ⊢
    rw [occursIn, occursIn, hprefix, ih, Bool.or_assoc]

theorem occursIn_withReturns (hfeed : '\n' ∉ needle) (hreturn : '\r' ∉ needle) (cs : List Char) :
    occursIn needle (withReturns cs) = occursIn needle cs := by
  induction cs with
  | nil => rfl
  | cons c cs ih =>
    by_cases hc : c = '\n'
    · subst hc
      simp only [withReturns_newline_cons, occursIn, isPrefixOf_cons_of_not_mem hreturn,
        isPrefixOf_cons_of_not_mem hfeed, ih, ← Bool.or_assoc, Bool.or_self]
    · have hprefix := isPrefixOf_withReturns hfeed hreturn (c :: cs)
      rw [withReturns_cons_of_ne hc] at hprefix ⊢
      rw [occursIn, occursIn, ih, hprefix]

/-! Lines. -/

theorem dropCarriageReturn_of_not_mem (h : '\r' ∉ cs) : dropCarriageReturn cs = cs := by
  have hlast : (cs.getLast? == some '\r') = false :=
    beq_false_of_ne fun hlast => h (List.mem_of_getLast? hlast)
  rw [dropCarriageReturn, hlast]
  rfl

theorem dropCarriageReturn_concat (cs : List Char) : dropCarriageReturn (cs ++ ['\r']) = cs := by
  simp [dropCarriageReturn]

theorem lines_append_newline {line : List Char} (hline : '\n' ∉ line) (rest : List Char) :
    lines (line ++ '\n' :: rest) = dropCarriageReturn line :: lines rest := by
  have hne := split_ne_nil '\n' rest
  have hlast : (line :: split '\n' rest).getLast? = (split '\n' rest).getLast? :=
    List.getLast?_cons_of_ne_nil hne
  unfold lines
  rw [split_append_separator, split_of_not_mem hline, List.singleton_append]
  dsimp only
  rw [List.dropLast_cons_of_ne_nil hne, hlast, List.map_cons, List.cons_append]

/-- A text without carriage returns keeps its lines, since those that are put in go with the line
feeds. -/
theorem lines_withReturns (h : '\r' ∉ cs) : lines (withReturns cs) = lines cs := by
  induction cs using pieceInduction '\n' with
  | last line hline => rw [withReturns_of_not_mem hline]
  | append line rest hline ih =>
    simp only [List.mem_append, List.mem_cons, not_or] at h
    have hend : '\n' ∉ line ++ ['\r'] := by simpa using hline
    rw [withReturns_append, withReturns_newline_cons, withReturns_of_not_mem hline,
      List.append_cons, lines_append_newline hend, lines_append_newline hline, ih h.2.2,
      dropCarriageReturn_concat, dropCarriageReturn_of_not_mem h.1]

end ScriptAudit.Text
