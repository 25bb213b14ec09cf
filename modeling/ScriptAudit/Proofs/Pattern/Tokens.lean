import Mathlib.Data.Option.Basic
import Mathlib.Tactic.SplitIfs
import ScriptAudit.Pattern.Lexer

/-! # The tokens of joined pattern texts

At the end of a text that is cut into tokens nothing is open, but a repetition or an edge of a word
may still go on. The next character goes on with it if it is a question mark or an opening brace.
Any other character is taken as if it were the first one, because the spacing is that of the start
again, unless it was switched outside all groups. So the tokens of a text and those of another one
are the tokens of both texts together. Main statements: `outside_run`, `readAll?_append`, and
`head?_of_not_startsAnew`, by which a text that would go on with a repetition is one itself.
-/
namespace ScriptAudit
namespace Lexer

variable {s t : Lexer} {c : Char}

/-! The spacing outside all groups. -/

def outside (s : Lexer) : Spacing := s.outer.getLast?.getD s.spacing

/-- Whatever the step leads to, the spacing outside all groups is the given one, if no token switches
flags. -/
def Keeps (spacing : Spacing) (step : Step) : Prop :=
  ∀ ts t, step = some (ts, t) → ts.any Token.setsFlags = false → t.outside = spacing

theorem keeps_none (spacing : Spacing) : Keeps spacing none := nofun

theorem keeps_some {ts : List Token} {spacing : Spacing} (h : t.outside = spacing) :
    Keeps spacing (some (ts, t)) := by
  rintro _ _ heq _
  cases heq
  exact h

theorem keeps_turn (s : Lexer) (mode : Mode) : Keeps s.outside (s.turn mode) := keeps_some rfl

theorem keeps_bind {α : Type} {spacing : Spacing} {f : α → Step} (h : ∀ a, Keeps spacing (f a))
    (o : Option α) : Keeps spacing (o.bind f) := by
  cases o with
  | none => exact keeps_none spacing
  | some a => exact h a

/-- A group is left with the spacing that it was entered with. -/
theorem keeps_emit (s : Lexer) (t : Token) : Keeps s.outside (s.emit t) := by
  cases t with
  | openGroup kind flags =>
    apply keeps_some
    simp [outside, List.getLast?_cons]
  | setFlags flags =>
    intro ts u heq hts
    cases heq
    cases hts
  | close =>
    unfold emit
    cases houter : s.outer with
    | nil => exact keeps_none _
    | cons spacing outer =>
      apply keeps_some
      simp [outside, houter, List.getLast?_cons]
  | _ => exact keeps_some rfl

theorem keeps_closeClass (s : Lexer) : Keeps s.outside s.closeClass? := by
  unfold closeClass?
  split
  · exact keeps_none _
  · exact keeps_emit { s with classes := [] } _
  · exact keeps_some rfl

theorem keeps_takeMember (s : Lexer) (c : Char) : Keeps s.outside (s.takeMember? c) := by
  unfold takeMember?
  split_ifs
  · exact keeps_some rfl
  · exact keeps_closeClass s
  · exact keeps_turn s _
  · exact keeps_turn s _

theorem keeps_takeHead (s : Lexer) (empty : Bool) (c : Char) :
    Keeps s.outside (s.takeHead? empty c) := by
  unfold takeHead?
  split_ifs
  · exact keeps_some rfl
  · exact keeps_some rfl
  · exact keeps_takeMember s c

theorem keeps_takeBehind (s : Lexer) (e : Escape) (fresh : Bool) (c : Char) :
    Keeps s.outside (s.takeBehind? e fresh c) := by
  unfold takeBehind?
  split
  · split
    · exact keeps_some rfl
    · exact keeps_turn s _
  · exact keeps_none _

theorem keeps_takeRange (s : Lexer) (e : Escape) (fresh : Bool) (c : Char) :
    Keeps s.outside (s.takeRange? e fresh c) := by
  refine keeps_bind (fun member => ?_) _
  split
  · exact keeps_closeClass ((s.push member).push (.char '-'))
  split
  · split
    · exact keeps_some rfl
    · exact keeps_turn (s.push member) _
  cases e with
  | char first byte =>
    dsimp only
    split_ifs
    · exact keeps_turn s _
    · exact keeps_some rfl
    · exact keeps_none _
  | _ => exact keeps_none _

theorem keeps_put (s : Lexer) (place : EscapePlace) (e : Escape) :
    Keeps s.outside (s.put? place e) := by
  unfold put?
  split
  · exact keeps_emit s _
  · exact keeps_emit s _
  · exact keeps_emit s _
  · exact keeps_none _
  · exact keeps_turn s _
  · split
    · exact keeps_some rfl
    · exact keeps_none _
  · exact keeps_none _

theorem keeps_takeEscape (s : Lexer) (place : EscapePlace) (c : Char) :
    Keeps s.outside (s.takeEscape? place c) := by
  unfold takeEscape?
  split
  · exact keeps_turn s _
  · exact keeps_turn s _
  · exact keeps_turn s _
  · exact keeps_turn s _
  · exact keeps_turn s _
  · split
    · exact keeps_turn s _
    · exact keeps_none _
  · exact keeps_bind (keeps_put s place) _

theorem keeps_takeCode (s : Lexer) (place : EscapePlace) (width : Nat) (digits : List Char)
    (c : Char) : Keeps s.outside (s.takeCode? place width digits c) := by
  unfold takeCode?
  split_ifs
  · exact keeps_turn s _
  · exact keeps_none _
  · exact keeps_turn s _
  · exact keeps_bind (fun read => keeps_put s place _) _

theorem keeps_takeCodeBraces (s : Lexer) (place : EscapePlace) (digits : List Char) (c : Char) :
    Keeps s.outside (s.takeCodeBraces? place digits c) := by
  unfold takeCodeBraces?
  split_ifs
  · exact keeps_bind (fun read => keeps_put s place _) _
  · exact keeps_none _
  · exact keeps_turn s _

theorem keeps_takeProperty (s : Lexer) (place : EscapePlace) (negated : Bool) (c : Char) :
    Keeps s.outside (s.takeProperty? place negated c) := by
  unfold takeProperty?
  split_ifs
  · exact keeps_turn s _
  · exact keeps_none _
  · exact keeps_put s place _

theorem keeps_takePropertyBraces (s : Lexer) (place : EscapePlace) (negated : Bool)
    (name : List Char) (c : Char) :
    Keeps s.outside (s.takePropertyBraces? place negated name c) := by
  unfold takePropertyBraces?
  split_ifs
  · exact keeps_put s place _
  · exact keeps_turn s _

theorem keeps_takeBraces (s : Lexer) (edge : Bool) (text : List Char) (c : Char) :
    Keeps s.outside (s.takeBraces? edge text c) := by
  unfold takeBraces?
  split_ifs
  · exact keeps_turn s _
  · exact keeps_bind (fun e => keeps_emit s _) _
  · cases Token.bounds? text.reverse with
    | none => exact keeps_none _
    | some bounds => exact keeps_some rfl
  · cases Token.bounds? text.reverse with
    | none => exact keeps_none _
    | some bounds => exact keeps_some rfl

theorem keeps_takeSpecial (s : Lexer) (text : List Char) (c : Char) :
    Keeps s.outside (s.takeSpecial? text c) := by
  unfold takeSpecial?
  split
  · exact keeps_bind (fun flags => keeps_emit s _) _
  · refine keeps_bind (fun flags => ?_) _
    split
    · exact keeps_none _
    · exact keeps_emit s _
  · exact keeps_bind (fun name => keeps_emit s _) _
  · exact keeps_turn s _

theorem keeps_takeReady (s : Lexer) (c : Char) : Keeps s.outside (s.takeReady? c) := by
  unfold takeReady?
  split
  all_goals first
    | exact keeps_emit s _
    | exact keeps_turn s _
    | exact keeps_some rfl

theorem keeps_take (s : Lexer) (c : Char) : Keeps s.outside (s.take? c) := by
  unfold take?
  split
  · exact keeps_takeReady s c
  · exact keeps_emit s _
  · exact keeps_turn s _
  · exact keeps_takeBraces s _ _ c
  · exact keeps_turn s _
  · exact keeps_takeSpecial s _ c
  · exact keeps_takeEscape s _ c
  · exact keeps_takeCode s _ _ _ c
  · exact keeps_takeCodeBraces s _ _ c
  · exact keeps_takeProperty s _ _ c
  · exact keeps_takePropertyBraces s _ _ _ c
  · split
    · exact keeps_some rfl
    · exact keeps_takeHead s true c
  · exact keeps_takeHead s _ c
  · exact keeps_takeMember s c
  · exact keeps_takeBehind s _ _ c
  · exact keeps_takeRange s _ _ c

theorem keeps_settle (s : Lexer) (c : Char) : Keeps s.outside (s.settle? c) := by
  unfold settle?
  split
  · split
    · exact keeps_some rfl
    · exact keeps_emit s _
  · split
    · exact keeps_some rfl
    · exact keeps_emit s _
  · split
    · exact keeps_some rfl
    · exact keeps_emit s _
  · next e fresh _ =>
    split
    · exact keeps_some rfl
    · cases memberOf? e with
      | none => exact keeps_none _
      | some k => exact keeps_some rfl
  · exact keeps_some rfl

/-- Something is passed over only where the spacing is not exact, and this is inside a group. -/
theorem outside_pass (hs : s.outside = .exact) (h : s.pass? c = some t) : t.outside = .exact := by
  have houter : t.outer = s.outer := by
    unfold pass? at h
    split at h
    · cases h
    · split at h <;> cases h <;> rfl
    · split_ifs at h <;> cases h <;> rfl
  cases hlast : s.outer.getLast? with
  | none =>
    rw [outside, hlast, Option.getD_none] at hs
    rw [pass?, hs] at h
    cases h
  | some spacing =>
    rw [outside, hlast] at hs
    rw [outside, houter, hlast]
    exact hs

theorem keeps_feed (hs : s.outside = .exact) (c : Char) : Keeps .exact (s.feed? c) := by
  intro ts u h hts
  unfold feed? at h
  split at h
  · next passed hpass =>
    cases h
    have hpassed : passed.outside = .exact := outside_pass hs hpass
    exact hpassed
  · obtain ⟨⟨settled, t⟩, hsettle, h⟩ := Option.bind_eq_some_iff.mp h
    dsimp only at h
    split at h
    · next passed hpass =>
      cases h
      have ht : t.outside = s.outside := keeps_settle s c _ _ hsettle hts
      have hpassed : passed.outside = .exact := outside_pass (ht.trans hs) hpass
      exact hpassed
    · obtain ⟨⟨taken, v⟩, htake, h⟩ := Option.bind_eq_some_iff.mp h
      cases h
      rw [List.any_append, Bool.or_eq_false_iff] at hts
      have ht : t.outside = s.outside := keeps_settle s c _ _ hsettle hts.1
      exact (keeps_take t c _ _ htake hts.2).trans (ht.trans hs)

/-- As long as no flags are switched outside of groups, all white space counts there. -/
theorem outside_run {cs : List Char} {ts : List Token} (hs : s.outside = .exact)
    (h : s.run? cs = some (ts, t)) (hts : ts.any Token.setsFlags = false) : t.outside = .exact := by
  induction cs generalizing s ts with
  | nil =>
    cases h
    exact hs
  | cons c cs ih =>
    obtain ⟨⟨us, u⟩, hfeed, h⟩ := Option.bind_eq_some_iff.mp h
    obtain ⟨⟨vs, v⟩, hrun, h⟩ := Option.bind_eq_some_iff.mp h
    cases h
    rw [List.any_append, Bool.or_eq_false_iff] at hts
    exact ih (keeps_feed hs c _ _ hfeed hts.1) hrun hts.2

/-! Joined texts. -/

theorem run?_append {cs ds : List Char} {ts us : List Token} {u : Lexer}
    (h : s.run? cs = some (ts, t)) (h' : t.run? ds = some (us, u)) :
    s.run? (cs ++ ds) = some (ts ++ us, u) := by
  induction cs generalizing s ts with
  | nil =>
    cases h
    exact h'
  | cons c cs ih =>
    obtain ⟨⟨vs, v⟩, hfeed, h⟩ := Option.bind_eq_some_iff.mp h
    obtain ⟨⟨ws, w⟩, hrun, h⟩ := Option.bind_eq_some_iff.mp h
    cases h
    simp [run?, hfeed, ih hrun]

/-- Where the text may end, every other character than those two is taken as the first one of a
text, behind what was pending. -/
theorem feed?_of_finish {ts : List Token} (h : s.finish? = some ts) (hs : s.outside = .exact)
    (hc : c ≠ '?' ∧ c ≠ '\x7b') : s.feed? c = (start.feed? c).map fun r => (ts ++ r.1, r.2) := by
  obtain ⟨mode, classes, spacing, outer⟩ := s
  simp only [finish?, Bool.and_eq_true, List.isEmpty_iff] at h
  split at h
  · next hopen =>
    obtain ⟨rfl, rfl⟩ := hopen
    obtain rfl : spacing = .exact := hs
    split at h
    · cases h
      simp [start]
    · next least most counted _ =>
      cases h
      simp [feed?, settle?, pass?, emit, take?, start, hc.1]
    · next _ =>
      cases h
      simp [feed?, settle?, pass?, emit, take?, start, hc.2]
    · cases h
  · cases h

/-! Repetitions. -/

/-- The lexer has begun a repetition. -/
def Repeating (s : Lexer) : Prop :=
  s.spacing = .exact ∧
    ((∃ least most counted, s.mode = .repeated least most counted) ∨
      ∃ text, s.mode = .braces false text)

theorem repeating_start {ts : List Token} (hc : c = '?' ∨ c = '\x7b')
    (h : start.feed? c = some (ts, t)) : ts = [] ∧ t.Repeating := by
  rcases hc with rfl | rfl
  · cases h
    exact ⟨rfl, rfl, Or.inl ⟨0, some 1, false, rfl⟩⟩
  · cases h
    exact ⟨rfl, rfl, Or.inr ⟨[], rfl⟩⟩

/-- A repetition that has begun goes on or is the next token. -/
theorem repeating_feed (hs : s.Repeating) {ts : List Token} (h : s.feed? c = some (ts, t)) :
    (ts = [] ∧ t.Repeating) ∨
      ∃ least most greedy us, ts = .times least most greedy :: us := by
  obtain ⟨mode, classes, spacing, outer⟩ := s
  obtain ⟨rfl, ⟨least, most, counted, rfl⟩ | ⟨text, rfl⟩⟩ := hs
  · refine Or.inr ?_
    by_cases hc : c = '?'
    · simp only [feed?, pass?, settle?, take?, emit, hc, if_true, Option.bind_eq_bind,
        Option.bind_some, Option.pure_def, Option.some.injEq, Prod.mk.injEq] at h
      exact ⟨least, most, false, [], h.1.symm⟩
    · simp only [feed?, pass?, settle?, take?, emit, hc, if_false, Option.bind_eq_bind,
        Option.bind_some] at h
      obtain ⟨⟨us, u⟩, _, h⟩ := Option.bind_eq_some_iff.mp h
      cases h
      exact ⟨least, most, true, us, rfl⟩
  · refine Or.inl ?_
    simp only [feed?, pass?, settle?, take?, takeBraces?, Option.bind_eq_bind, Option.bind_some,
      Bool.false_and, Bool.false_eq_true, if_false] at h
    obtain ⟨⟨us, u⟩, htake, h⟩ := Option.bind_eq_some_iff.mp h
    cases h
    split_ifs at htake
    · cases htake
      exact ⟨rfl, rfl, Or.inr ⟨_, rfl⟩⟩
    · obtain ⟨bounds, _, hbounds⟩ := Option.map_eq_some_iff.mp htake
      cases hbounds
      exact ⟨rfl, rfl, Or.inl ⟨_, _, _, rfl⟩⟩

theorem repeating_run (hs : s.Repeating) {cs : List Char} {ts us : List Token}
    (h : s.run? cs = some (ts, t)) (hfinish : t.finish? = some us) :
    ∃ least most greedy vs, ts ++ us = .times least most greedy :: vs := by
  induction cs generalizing s ts with
  | nil =>
    cases h
    obtain ⟨mode, classes, spacing, outer⟩ := t
    obtain ⟨rfl, ⟨least, most, counted, rfl⟩ | ⟨text, rfl⟩⟩ := hs
    · simp only [finish?] at hfinish
      split at hfinish
      · cases hfinish
        exact ⟨least, most, true, [], rfl⟩
      · cases hfinish
    · simp [finish?] at hfinish
  | cons c cs ih =>
    obtain ⟨⟨vs, v⟩, hfeed, h⟩ := Option.bind_eq_some_iff.mp h
    obtain ⟨⟨ws, w⟩, hrun, h⟩ := Option.bind_eq_some_iff.mp h
    cases h
    rcases repeating_feed hs hfeed with ⟨rfl, hv⟩ | ⟨least, most, greedy, xs, rfl⟩
    · rw [List.nil_append]
      exact ih hv hrun
    · exact ⟨least, most, greedy, xs ++ ws ++ us, by simp⟩

end Lexer

namespace Token

/-- The text does not start with a character that could go on with what ends another text. -/
def StartsAnew (cs : List Char) : Prop := ∀ c, cs.head? = some c → c ≠ '?' ∧ c ≠ '\x7b'

theorem readAll?_eq_some_iff {cs : List Char} {ts : List Token} :
    readAll? cs = some ts ↔ ∃ us s vs, Lexer.start.run? cs = some (us, s) ∧ s.finish? = some vs ∧
      ts = us ++ vs := by
  constructor
  · intro h
    obtain ⟨⟨us, s⟩, hrun, h⟩ := Option.bind_eq_some_iff.mp h
    obtain ⟨vs, hfinish, h⟩ := Option.bind_eq_some_iff.mp h
    exact ⟨us, s, vs, hrun, hfinish, (Option.some.inj h).symm⟩
  · rintro ⟨us, s, vs, hrun, hfinish, rfl⟩
    simp [readAll?, hrun, hfinish]

theorem readAll?_append {cs ds : List Char} {ts us : List Token} (hds : StartsAnew ds)
    (hts : readAll? cs = some ts) (hflags : ts.any setsFlags = false)
    (hus : readAll? ds = some us) : readAll? (cs ++ ds) = some (ts ++ us) := by
  obtain ⟨ts, s, pending, hrun, hfinish, rfl⟩ := readAll?_eq_some_iff.mp hts
  obtain ⟨us, t, pending', hrun', hfinish', rfl⟩ := readAll?_eq_some_iff.mp hus
  rw [List.any_append, Bool.or_eq_false_iff] at hflags
  have hs : s.outside = .exact := Lexer.outside_run rfl hrun hflags.1
  cases ds with
  | nil =>
    cases hrun'
    cases hfinish'
    refine readAll?_eq_some_iff.mpr ⟨ts, s, pending, ?_, hfinish, ?_⟩
    · rw [List.append_nil, hrun]
    · simp
  | cons c ds =>
    obtain ⟨⟨vs, v⟩, hfeed, hrest⟩ := Option.bind_eq_some_iff.mp hrun'
    obtain ⟨⟨ws, w⟩, hds', hrest⟩ := Option.bind_eq_some_iff.mp hrest
    cases hrest
    have hgoes : s.run? (c :: ds) = some (pending ++ (vs ++ ws), t) := by
      rw [Lexer.run?, Lexer.feed?_of_finish hfinish hs (hds c rfl), hfeed]
      simp [hds']
    refine readAll?_eq_some_iff.mpr ⟨_, t, pending', Lexer.run?_append hrun hgoes, hfinish', ?_⟩
    simp only [List.append_assoc]

/-- A text that starts with one of the two characters starts with a repetition. -/
theorem head?_of_not_startsAnew {cs : List Char} {ts : List Token} (h : readAll? cs = some ts)
    (hcs : ¬StartsAnew cs) : ∃ least most greedy us, ts = times least most greedy :: us := by
  obtain ⟨ts, s, us, hrun, hfinish, rfl⟩ := readAll?_eq_some_iff.mp h
  cases cs with
  | nil => exact absurd nofun hcs
  | cons c cs =>
    have hc : c = '?' ∨ c = '\x7b' := by
      by_contra hne
      refine hcs fun d hd => ?_
      obtain rfl : c = d := Option.some.inj hd
      exact not_or.mp hne
    obtain ⟨⟨vs, v⟩, hfeed, h⟩ := Option.bind_eq_some_iff.mp hrun
    obtain ⟨⟨ws, w⟩, hrest, h⟩ := Option.bind_eq_some_iff.mp h
    cases h
    obtain ⟨rfl, hv⟩ := Lexer.repeating_start hc hfeed
    exact Lexer.repeating_run hv hrest hfinish

end Token
end ScriptAudit
