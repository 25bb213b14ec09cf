import ScriptAudit.Proofs.Pattern.Length
import ScriptAudit.Proofs.Text.LineEnds

/-! # Twins of places in converted texts

Each place of a text has a twin in the converted text, and a place between a carriage return and
its line feed has none. Whether a pattern reads on from the twin as it does from the place itself
can be read off the pattern: it must not care for what a line ends with, and not stop in between.
Main statements: `mirrors_run`, the twin of a run for every way of going on, and `run_twin`.
-/
namespace ScriptAudit

namespace Mark

def index : Mark → Nat
  | opened _ i | closed _ i => i

def moved (text : List Char) : Mark → Mark
  | opened n i => opened n (Text.moved text i)
  | closed n i => closed n (Text.moved text i)

end Mark

namespace Outcome

/-- What an outcome becomes when the text is converted. -/
def moved (text : List Char) (o : Outcome) : Outcome :=
  ⟨Text.moved text o.stop, o.marks.map (Mark.moved text)⟩

end Outcome

namespace Cursor

/-- The place of the converted text that corresponds to a place of the text. -/
def twin (text : List Char) (i : Nat) : Cursor :=
  ofIndex (Text.withReturns text) (Text.moved text i)

/-- The place behind the carriage return that goes with the line feed at an index. -/
def between (text : List Char) (i : Nat) : Cursor :=
  ofIndex (Text.withReturns text) (Text.moved text i + 1)

variable {text rest : List Char} {i : Nat} {c : Char}

@[simp] theorem index_twin (text : List Char) (i : Nat) :
    (twin text i).index = Text.moved text i := rfl

@[simp] theorem rest_twin (text : List Char) (i : Nat) :
    (twin text i).rest = Text.withReturns (text.drop i) :=
  Text.drop_moved text i

@[simp] theorem last_twin (text : List Char) (i : Nat) :
    (twin text i).last = (ofIndex text i).last := by
  rw [twin, last_ofIndex, last_ofIndex, Text.take_moved, Text.getLast?_withReturns]

theorem rest_twin_newline (h : text.drop i = '\n' :: rest) :
    (twin text i).rest = '\r' :: '\n' :: Text.withReturns rest := by
  rw [rest_twin, h, Text.withReturns_newline_cons]

theorem rest_twin_of_ne (h : text.drop i = c :: rest) (hc : c ≠ '\n') :
    (twin text i).rest = c :: Text.withReturns rest := by
  rw [rest_twin, h, Text.withReturns_cons_of_ne hc]

theorem advance_twin_newline (h : text.drop i = '\n' :: rest) :
    (twin text i).advance '\r' ('\n' :: Text.withReturns rest) = between text i :=
  advance_ofIndex (rest_twin_newline h)

theorem advance_twin_of_ne (h : text.drop i = c :: rest) (hc : c ≠ '\n') :
    (twin text i).advance c (Text.withReturns rest) = twin text (i + 1) := by
  rw [twin, twin, advance_ofIndex (rest_twin_of_ne h hc), Text.moved_succ_of_ne h hc]

theorem rest_between (h : text.drop i = '\n' :: rest) :
    (between text i).rest = '\n' :: Text.withReturns rest := by
  rw [← advance_twin_newline h]
  rfl

theorem advance_between (h : text.drop i = '\n' :: rest) :
    (between text i).advance '\n' (Text.withReturns rest) = twin text (i + 1) := by
  rw [between, twin, advance_ofIndex (rest_between h), Text.moved_succ_newline h]

end Cursor

open Cursor (ofIndex twin between)

/-- The assertion is not about what a line ends with. -/
def Assertion.isPortable : Assertion → Bool
  | textStart | textEnd | word _ _ => true
  | lineStart returns => !returns
  | lineEnd _ => false

theorem Assertion.holds_twin {a : Assertion} (h : a.isPortable = true) (text : List Char) (i : Nat) :
    a.holds (twin text i) = a.holds (ofIndex text i) := by
  have hword (ascii : Bool) : (twin text i).rest.head?.any (isWordIn ascii) =
      (ofIndex text i).rest.head?.any (isWordIn ascii) := by
    cases hdrop : text.drop i with
    | nil => simp [hdrop]
    | cons c rest =>
      by_cases hc : c = '\n'
      · subst hc
        have hends : ∀ ascii, isWordIn ascii '\r' = isWordIn ascii '\n' := by decide
        rw [Cursor.rest_twin_newline hdrop, Cursor.rest_ofIndex, hdrop]
        exact hends ascii
      · rw [Cursor.rest_twin_of_ne hdrop hc, Cursor.rest_ofIndex, hdrop]
        rfl
  cases a with
  | textStart => simp only [holds, Cursor.last_twin]
  | textEnd =>
    rw [holds, holds, Bool.eq_iff_iff, List.isEmpty_iff, List.isEmpty_iff, Cursor.rest_twin,
      Text.withReturns_eq_nil_iff]
    rfl
  | lineStart returns =>
    simp only [isPortable, Bool.not_eq_true'] at h
    simp only [holds, h, Bool.false_and, Cursor.last_twin]
  | lineEnd => cases h
  | word edge ascii => simp only [holds, Cursor.last_twin, hword]

namespace Pattern

/-! What a pattern does about line ends, as far as it can be computed. -/

/-- Whether a reading of the pattern never begins with a line feed. -/
def avoids : Pattern → Bool
  | empty | check _ => true
  | set s => !s.contains '\n'
  | seq p q => p.avoids && (0 < p.leastLength || q.avoids)
  | alt p q => p.avoids && q.avoids
  | plus _ p | group _ p => p.avoids

/-- Whether every reading of the pattern begins with a character other than a line feed. -/
def refuses (p : Pattern) : Bool := p.avoids && 0 < p.leastLength

/-- Whether the pattern is a set with both characters of a line end. -/
def readsLineEnds : Pattern → Bool
  | set s => s.contains '\r' && s.contains '\n'
  | _ => false

/-- Whether the pattern reads the converted text as it reads the text. It is guarded if what
follows it never begins with a line feed: a reading that stops in between then leads nowhere. -/
def tolerates : Pattern → Bool → Bool
  | empty, _ => true
  | set s, guarded => !s.contains '\n' && (guarded || !s.contains '\r')
  | check a, _ => a.isPortable
  | seq p q, guarded => q.tolerates guarded && p.tolerates q.refuses
  | alt p q, guarded => p.tolerates guarded && q.tolerates guarded
  | plus _ p, guarded => (p.avoids && p.tolerates guarded) || (guarded && p.readsLineEnds)
  | group _ p, guarded => p.tolerates guarded

/-- Has no outcome where a line feed comes next. -/
def Shuns (k : Continuation) : Prop := ∀ s : Cursor, s.rest.head? = some '\n' → k s = none

/-- Where a line feed comes next, such a pattern can only read nothing. -/
theorem run_of_avoids {p : Pattern} (hp : p.avoids = true) {s : Cursor}
    (hs : s.rest.head? = some '\n') {k : Continuation} (hk : 0 < p.leastLength ∨ k s = none) :
    p.run k s = none := by
  induction p generalizing k with
  | empty => exact hk.resolve_left (Nat.lt_irrefl 0)
  | set cs =>
    obtain ⟨rest, hrest⟩ := List.head?_eq_some_iff.mp hs
    simp only [avoids, Bool.not_eq_true'] at hp
    simp [run, hrest, hp]
  | check a =>
    rw [run, hk.resolve_left (Nat.lt_irrefl 0)]
    split <;> rfl
  | seq p q ihp ihq =>
    obtain ⟨hp, hq⟩ := Bool.and_eq_true_iff.mp hp
    by_cases hlength : 0 < p.leastLength
    · exact ihp hp (Or.inl hlength)
    · simp only [hlength, decide_false, Bool.false_or] at hq
      refine ihp hp (Or.inr (ihq hq (hk.imp_left fun h => ?_)))
      simp only [leastLength] at h
      omega
  | alt p q ihp ihq =>
    obtain ⟨hp, hq⟩ := Bool.and_eq_true_iff.mp hp
    simp only [leastLength, Nat.lt_min] at hk
    rw [run, ihp hp (hk.imp_left And.left), ihq hq (hk.imp_left And.right)]
    rfl
  | plus greedy p ihp =>
    refine ihp hp (hk.imp_right fun hk => ?_)
    rw [if_neg (Nat.lt_irrefl _), hk]
  | group n p ihp =>
    rw [run, ihp hp (hk.imp_right fun hk => by rw [hk]; rfl)]
    rfl

theorem shuns_run {p : Pattern} (hp : p.refuses = true) (k : Continuation) : Shuns (p.run k) := by
  intro s hs
  obtain ⟨havoids, hlength⟩ := Bool.and_eq_true_iff.mp hp
  exact run_of_avoids havoids hs (Or.inl (of_decide_eq_true hlength))

variable {text : List Char} {guarded greedy : Bool} {k k' l l' : Continuation} {p : Pattern}

/-- One way of going on has the outcomes at twins that the other one has at the places of the
text, and if it is guarded it shuns the places in between. -/
structure Mirrors (text : List Char) (guarded : Bool) (k k' : Continuation) : Prop where
  twin : ∀ i, k' (twin text i) = (k (ofIndex text i)).map (Outcome.moved text)
  shuns : guarded = true → Shuns k'

namespace Mirrors

theorem finish (text : List Char) : Mirrors text false Cursor.finish Cursor.finish where
  twin _ := rfl
  shuns := nofun

theorem none (text : List Char) (guarded : Bool) :
    Mirrors text guarded (fun _ => none) (fun _ => none) where
  twin _ := rfl
  shuns _ _ _ := rfl

/-- Going on in one way behind a place and in another way at the place. -/
theorem ite (hl : Mirrors text guarded l l') (hk : Mirrors text guarded k k') (i : Nat) :
    Mirrors text guarded (fun t => if (ofIndex text i).index < t.index then l t else k t)
      (fun t => if (Cursor.twin text i).index < t.index then l' t else k' t) where
  twin j := by
    have hiff : (Cursor.twin text i).index < (Cursor.twin text j).index ↔
        (ofIndex text i).index < (ofIndex text j).index := (Text.strictMono_moved text).lt_iff_lt
    by_cases h : (ofIndex text i).index < (ofIndex text j).index
    · rw [if_pos h, if_pos (hiff.mpr h), hl.twin]
    · rw [if_neg h, if_neg (mt hiff.mp h), hk.twin]
  shuns hg s hs := by
    dsimp only
    split
    · exact hl.shuns hg s hs
    · exact hk.shuns hg s hs

theorem closing (hk : Mirrors text guarded k k') (n : Nat) :
    Mirrors text guarded (fun t => (k t).map (·.passing (.closed n t.index)))
      (fun t => (k' t).map (·.passing (.closed n t.index))) where
  twin j := by
    rw [hk.twin, Option.map_map, Option.map_map]
    rfl
  shuns hg s hs := by
    dsimp only
    rw [hk.shuns hg s hs]
    rfl

end Mirrors

theorem map_orElse (f : Outcome → Outcome) (a b : Option Outcome) :
    (a <|> b).map f = (a.map f <|> b.map f) := by
  cases a <;> rfl

theorem map_prefer (f : Outcome → Outcome) (greedy : Bool) (more on : Option Outcome) :
    (prefer greedy more on).map f = prefer greedy (more.map f) (on.map f) := by
  cases greedy
  · exact map_orElse f on more
  · exact map_orElse f more on

theorem prefer_none_left (greedy : Bool) (on : Option Outcome) : prefer greedy none on = on := by
  cases greedy <;> cases on <;> rfl

theorem prefer_none_right (greedy : Bool) (more : Option Outcome) :
    prefer greedy more none = more := by
  cases greedy <;> cases more <;> rfl

/-- The twin of a pattern's run, for every way of going on that is guarded in the same way. -/
def MirrorsRun (text : List Char) (guarded : Bool) (p : Pattern) : Prop :=
  ∀ k k', Mirrors text guarded k k' → Mirrors text p.refuses (p.run k) (p.run k')

theorem mirrors_again (hp : p.avoids = true) (hrun : MirrorsRun text guarded p)
    (hk : Mirrors text guarded k k') (n : Nat) :
    Mirrors text guarded (again greedy p.run k n) (again greedy p.run k' n) := by
  induction n with
  | zero => exact ⟨hk.twin, hk.shuns⟩
  | succ n ih =>
    constructor
    · intro i
      have hmore := (hrun _ _ (ih.ite (.none text guarded) i)).twin i
      rw [again, again, map_prefer, hmore, hk.twin]
    · intro hg s hs
      have hmore :
          p.run (fun t => if s.index < t.index then again greedy p.run k' n t else none) s = none :=
        run_of_avoids hp hs (Or.inr (if_neg (Nat.lt_irrefl s.index)))
      rw [again, hmore, hk.shuns hg s hs, prefer_none_left]

theorem mirrors_rounds (hp : p.avoids = true) (hrun : MirrorsRun text guarded p)
    (hk : Mirrors text guarded k k') :
    Mirrors text guarded (rounds greedy p k) (rounds greedy p k') where
  twin i := by
    -- one bound that is enough for both texts
    have hle : (ofIndex text i).rest.length ≤ (Cursor.twin text i).rest.length := by
      rw [Cursor.rest_twin, Text.length_withReturns]
      exact Nat.le_add_right _ _
    rw [← again_eq_rounds greedy p k _ hle, ← again_eq_rounds greedy p k' _ (Nat.le_refl _)]
    exact (mirrors_again hp hrun hk _).twin i
  shuns hg s hs := (mirrors_again hp hrun hk _).shuns hg s hs

/-! Repetitions of a set that has both characters of a line end. -/

section Set

variable {cs : CharSet} {s : Cursor} {c : Char} {rest : List Char}

theorem rounds_set_nil (h : s.rest = []) : rounds greedy (set cs) k s = k s := by
  rw [rounds_eq, run, h]
  exact prefer_none_left greedy (k s)

theorem rounds_set_cons (h : s.rest = c :: rest) : rounds greedy (set cs) k s =
    prefer greedy (if cs.contains c then rounds greedy (set cs) k (s.advance c rest) else none)
      (k s) := by
  have hlt : s.index < (s.advance c rest).index := Nat.lt_succ_self _
  rw [rounds_eq, run, h]
  simp only [hlt, if_true]

theorem run_plus_set (greedy : Bool) (cs : CharSet) (k : Continuation) (s : Cursor) :
    (plus greedy (set cs)).run k s =
      match s.rest with
      | [] => none
      | c :: rest =>
        if cs.contains c then rounds greedy (set cs) k (s.advance c rest) else none := by
  rw [run_plus, run]
  cases s.rest with
  | nil => rfl
  | cons c rest =>
    have hlt : s.index < (s.advance c rest).index := Nat.lt_succ_self _
    simp only [hlt, if_true]

variable (hreturn : cs.contains '\r' = true) (hfeed : cs.contains '\n' = true)
include hreturn hfeed

omit hreturn in
/-- Over both characters of a line end the set reads on to the next place that is a twin. -/
theorem rounds_between (hk : Shuns k) {i : Nat} (h : text.drop i = '\n' :: rest) :
    rounds greedy (set cs) k (between text i) = rounds greedy (set cs) k (twin text (i + 1)) := by
  have hrest := Cursor.rest_between h
  rw [rounds_set_cons hrest, if_pos hfeed, Cursor.advance_between h,
    hk _ (by rw [hrest]; rfl), prefer_none_right]

theorem rounds_set_twin (hk : Mirrors text true k k') (i : Nat) :
    rounds greedy (set cs) k' (twin text i) =
      (rounds greedy (set cs) k (ofIndex text i)).map (Outcome.moved text) := by
  induction hrest : text.drop i generalizing i with
  | nil =>
    have htwin : (twin text i).rest = [] := by rw [Cursor.rest_twin, hrest, Text.withReturns_nil]
    have hplace : (ofIndex text i).rest = [] := hrest
    rw [rounds_set_nil htwin, rounds_set_nil hplace, hk.twin]
  | cons c rest ih =>
    have hnext : text.drop (i + 1) = rest := by rw [← List.drop_drop, hrest]; rfl
    have hplace : (ofIndex text i).rest = c :: rest := hrest
    rw [rounds_set_cons hplace, map_prefer, Cursor.advance_ofIndex hrest, ← hk.twin]
    by_cases hc : c = '\n'
    · subst hc
      rw [rounds_set_cons (Cursor.rest_twin_newline hrest), if_pos hreturn, if_pos hfeed,
        Cursor.advance_twin_newline hrest, rounds_between hfeed (hk.shuns rfl) hrest,
        ih (i + 1) hnext]
    · rw [rounds_set_cons (Cursor.rest_twin_of_ne hrest hc), Cursor.advance_twin_of_ne hrest hc,
        ih (i + 1) hnext]
      split <;> rfl

theorem run_plus_set_twin (hk : Mirrors text true k k') (i : Nat) :
    (plus greedy (set cs)).run k' (twin text i) =
      ((plus greedy (set cs)).run k (ofIndex text i)).map (Outcome.moved text) := by
  rw [run_plus_set, run_plus_set]
  cases hrest : text.drop i with
  | nil =>
    rw [Cursor.rest_twin, Cursor.rest_ofIndex, hrest]
    rfl
  | cons c rest =>
    by_cases hc : c = '\n'
    · subst hc
      simp only [Cursor.rest_twin_newline hrest, Cursor.rest_ofIndex, hrest, hreturn, hfeed,
        if_true, Cursor.advance_twin_newline hrest, Cursor.advance_ofIndex hrest,
        rounds_between hfeed (hk.shuns rfl) hrest, rounds_set_twin hreturn hfeed hk]
    · simp only [Cursor.rest_twin_of_ne hrest hc, Cursor.rest_ofIndex, hrest,
        Cursor.advance_twin_of_ne hrest hc, Cursor.advance_ofIndex hrest,
        rounds_set_twin hreturn hfeed hk]
      split <;> rfl

end Set

/-- A set reads no line feed, and a carriage return only if this leads nowhere. -/
theorem mirrors_set {cs : CharSet} (hp : (set cs).tolerates guarded = true) :
    MirrorsRun text guarded (set cs) := by
  intro k k' hk
  refine ⟨fun i => ?_, fun hr => shuns_run hr k'⟩
  obtain ⟨hfeed, hreturn⟩ := Bool.and_eq_true_iff.mp hp
  rw [Bool.not_eq_true'] at hfeed
  cases hrest : text.drop i with
  | nil => simp [run, hrest]
  | cons c rest =>
    by_cases hc : c = '\n'
    · subst hc
      rw [run, run, Cursor.rest_twin_newline hrest, Cursor.rest_ofIndex, hrest]
      simp only [hfeed, Bool.false_eq_true, if_false, Option.map_none]
      split
      · next hcontains =>
        rw [hcontains, Bool.not_true, Bool.or_false] at hreturn
        exact hk.shuns hreturn _ rfl
      · rfl
    · rw [run, run, Cursor.rest_twin_of_ne hrest hc, Cursor.rest_ofIndex, hrest]
      simp only [Cursor.advance_twin_of_ne hrest hc, Cursor.advance_ofIndex hrest]
      split
      · exact hk.twin (i + 1)
      · rfl

theorem mirrors_run (p : Pattern) (hp : p.tolerates guarded = true) :
    MirrorsRun text guarded p := by
  induction p generalizing guarded with
  | empty => exact fun k k' hk => ⟨hk.twin, nofun⟩
  | set cs => exact mirrors_set hp
  | check a =>
    intro k k' hk
    refine ⟨fun i => ?_, nofun⟩
    rw [run, run, Assertion.holds_twin hp]
    split
    · exact hk.twin i
    · rfl
  | seq p q ihp ihq =>
    intro k k' hk
    obtain ⟨hq, hp⟩ := Bool.and_eq_true_iff.mp hp
    refine ⟨fun i => ?_, fun hr => shuns_run hr k'⟩
    exact (ihp hp _ _ (ihq hq k k' hk)).twin i
  | alt p q ihp ihq =>
    intro k k' hk
    obtain ⟨hp, hq⟩ := Bool.and_eq_true_iff.mp hp
    refine ⟨fun i => ?_, fun hr => shuns_run hr k'⟩
    rw [run, run, map_orElse, (ihp hp k k' hk).twin, (ihq hq k k' hk).twin]
  | plus greedy p ihp =>
    intro k k' hk
    refine ⟨fun i => ?_, fun hr => shuns_run hr k'⟩
    rcases Bool.or_eq_true_iff.mp hp with h | h
    · obtain ⟨havoids, hp⟩ := Bool.and_eq_true_iff.mp h
      have hrounds : Mirrors text guarded (rounds greedy p k) (rounds greedy p k') :=
        mirrors_rounds havoids (ihp hp) hk
      rw [run_plus, run_plus]
      exact (ihp hp _ _ (hrounds.ite hk i)).twin i
    · obtain ⟨rfl, hset⟩ := Bool.and_eq_true_iff.mp h
      cases p with
      | set cs =>
        obtain ⟨hreturn, hfeed⟩ := Bool.and_eq_true_iff.mp hset
        exact run_plus_set_twin hreturn hfeed hk i
      | _ => cases hset
  | group n p ihp =>
    intro k k' hk
    refine ⟨fun i => ?_, fun hr => shuns_run hr k'⟩
    rw [run, run, (ihp hp _ _ (hk.closing n)).twin, Option.map_map, Option.map_map]
    rfl

/-- Whether the pattern reads every converted text as it reads the text, and nothing in between. -/
def portable (p : Pattern) : Bool := p.tolerates false && p.refuses

theorem run_twin (hp : p.portable = true) (text : List Char) (i : Nat) :
    p.run Cursor.finish (twin text i) =
      (p.run Cursor.finish (ofIndex text i)).map (Outcome.moved text) :=
  (mirrors_run p (Bool.and_eq_true_iff.mp hp).1 _ _ (.finish text)).twin i

theorem run_between (hp : p.portable = true) {text rest : List Char} {i : Nat}
    (h : text.drop i = '\n' :: rest) : p.run Cursor.finish (between text i) = none := by
  have hrest := Cursor.rest_between h
  exact shuns_run (Bool.and_eq_true_iff.mp hp).2 _ _ (by rw [hrest]; rfl)

end Pattern

end ScriptAudit
