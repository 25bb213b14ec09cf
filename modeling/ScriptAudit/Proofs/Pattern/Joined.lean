import ScriptAudit.Proofs.Pattern.Renumbered
import ScriptAudit.Proofs.Pattern.Tokens

/-! # Reading a pattern behind other text

A reader that comes to the tokens of a pattern with other text behind it does what it does with
these tokens alone: its inner frames are the same up to the numbers of their groups. Only the
outermost frame also holds what was read before, so the first alternative of the pattern goes on
with the alternative that had begun. Main statements: `Reader.Behind.step`, `Reader.Behind.run` and
`Frame.Behind.alternatives`.
-/
namespace ScriptAudit

namespace Frame

/-- The frame with `n` added to the numbers of all groups. -/
def renumber (n : Nat) (f : Frame) : Frame where
  number := f.number.map (n + ·)
  outerFlags := f.outerFlags
  alternatives := f.alternatives.map (Pattern.renumber n)
  items := f.items.map (Pattern.renumber n)
  repeatable := f.repeatable

theorem renumber_push (n : Nat) (f : Frame) (p : Pattern) :
    (f.push p).renumber n = (f.renumber n).push (p.renumber n) := rfl

theorem renumber_endAlternative (n : Nat) (f : Frame) :
    f.endAlternative.renumber n = (f.renumber n).endAlternative := by
  simp [renumber, endAlternative, Pattern.renumber_seqAll]

theorem finish_renumber (n : Nat) (f : Frame) : (f.renumber n).finish = f.finish.renumber n := by
  have hbody : (f.renumber n).endAlternative.alternatives.reverse =
      f.endAlternative.alternatives.reverse.map (Pattern.renumber n) := by
    rw [← renumber_endAlternative, List.map_reverse]
    rfl
  unfold finish
  rw [hbody, ← Pattern.renumber_altAll]
  cases hnumber : f.number with
  | none => simp only [renumber, hnumber, Option.map_none]
  | some m => simp only [renumber, hnumber, Option.map_some, Pattern.renumber]

/-- How the outermost frame of a reader looks when the reader started with `n` groups, finished
alternatives and items, the last ones first. As long as the first alternative is being read, its
items follow those that were there, and afterwards it stands behind the finished ones. -/
structure Behind (n : Nat) (ended begun : List Pattern) (f f' : Frame) : Prop where
  number : f.number = none
  number' : f'.number = none
  repeatable : f.repeatable = true → f'.repeatable = true
  parts : (f.alternatives = [] ∧ f'.alternatives = ended ∧
      f'.items = f.items.map (Pattern.renumber n) ++ begun) ∨
    ∃ first later, f.alternatives = later ++ [Pattern.seqAll first] ∧
      f'.alternatives = later.map (Pattern.renumber n) ++
        Pattern.seqAll (begun.reverse ++ first.map (Pattern.renumber n)) :: ended ∧
      f'.items = f.items.map (Pattern.renumber n)

namespace Behind

variable {n : Nat} {ended begun : List Pattern} {f f' : Frame}

theorem push (h : Behind n ended begun f f') (p : Pattern) :
    Behind n ended begun (f.push p) (f'.push (p.renumber n)) where
  number := h.number
  number' := h.number'
  repeatable _ := rfl
  parts := by
    rcases h.parts with ⟨halternatives, hended, hitems⟩ | ⟨first, later, hfirst, hlater, hitems⟩
    · exact Or.inl ⟨halternatives, hended, congrArg (p.renumber n :: ·) hitems⟩
    · exact Or.inr ⟨first, later, hfirst, hlater, congrArg (p.renumber n :: ·) hitems⟩

/-- An alternative that ends is the first one, or one that has nothing to do with the text before. -/
theorem alternatives (h : Behind n ended begun f f') :
    ∃ first later, f.endAlternative.alternatives = later ++ [Pattern.seqAll first] ∧
      f'.endAlternative.alternatives = later.map (Pattern.renumber n) ++
        Pattern.seqAll (begun.reverse ++ first.map (Pattern.renumber n)) :: ended := by
  rcases h.parts with ⟨halternatives, hended, hitems⟩ | ⟨first, later, hfirst, hlater, hitems⟩
  · refine ⟨f.items.reverse, [], ?_, ?_⟩
    · rw [endAlternative, halternatives, List.nil_append]
    · rw [endAlternative, hended, hitems, List.reverse_append, List.map_reverse, List.map_nil,
        List.nil_append]
  · refine ⟨first, Pattern.seqAll f.items.reverse :: later, ?_, ?_⟩
    · rw [endAlternative, hfirst, List.cons_append]
    · rw [endAlternative, hlater, hitems, List.map_cons, Pattern.renumber_seqAll,
        List.map_reverse, List.cons_append]

theorem endAlternative (h : Behind n ended begun f f') :
    Behind n ended begun f.endAlternative f'.endAlternative where
  number := h.number
  number' := h.number'
  repeatable := nofun
  parts := by
    obtain ⟨first, later, hfirst, hlater⟩ := h.alternatives
    exact Or.inr ⟨first, later, hfirst, hlater, rfl⟩

/-- The last item may be replaced, as long as the same is done in both frames. -/
theorem replace (h : Behind n ended begun f f') {p : Pattern} {items : List Pattern}
    (hf : f.items = p :: items) (q : Pattern) :
    f'.items = p.renumber n :: f'.items.tail ∧
      Behind n ended begun { f with items := q :: items }
        { f' with items := q.renumber n :: f'.items.tail } := by
  rcases h.parts with ⟨halternatives, hended, hitems⟩ | ⟨first, later, hfirst, hlater, hitems⟩
  · rw [hf, List.map_cons, List.cons_append] at hitems
    rw [hitems, List.tail_cons]
    exact ⟨rfl, h.number, h.number', h.repeatable, Or.inl ⟨halternatives, hended, rfl⟩⟩
  · rw [hf, List.map_cons] at hitems
    rw [hitems, List.tail_cons]
    exact ⟨rfl, h.number, h.number', h.repeatable, Or.inr ⟨first, later, hfirst, hlater, rfl⟩⟩

end Behind
end Frame

namespace Flags

/-! Single characters have no groups. -/

theorem renumber_char? {flags : Flags} {c : Char} {byte : Bool} {p : Pattern}
    (h : flags.char? c byte = some p) (n : Nat) : p.renumber n = p := by
  unfold char? at h
  split at h
  · cases h
  · cases h
    rfl

theorem renumber_dot? {flags : Flags} {p : Pattern} (h : flags.dot? = some p) (n : Nat) :
    p.renumber n = p := by
  unfold dot? at h
  split at h
  · cases h
  · split at h <;> cases h <;> rfl

end Flags

namespace Reader

/-- Two readers of the same tokens, the second of which started behind other text. -/
structure Behind (n : Nat) (ended begun : List Pattern) (r r' : Reader) : Prop where
  flags : r'.flags = r.flags
  groups : r'.groups = n + r.groups
  frames : ∃ inner f f', r.frame :: r.outer = inner ++ [f] ∧
    r'.frame :: r'.outer = inner.map (Frame.renumber n) ++ [f'] ∧
    Frame.Behind n ended begun f f'

namespace Behind

variable {n : Nat} {ended begun : List Pattern} {r r' : Reader}

/-- Outside all groups the frames of both readers are their outermost ones. -/
theorem outermost (h : Behind n ended begun r r') (houter : r.outer = []) :
    r'.outer = [] ∧ Frame.Behind n ended begun r.frame r'.frame := by
  obtain ⟨inner, f, f', hframes, hframes', hf⟩ := h.frames
  cases inner with
  | nil =>
    obtain ⟨rfl, _⟩ := List.cons.inj hframes
    obtain ⟨rfl, houter'⟩ := List.cons.inj hframes'
    exact ⟨houter', hf⟩
  | cons g inner =>
    obtain ⟨_, hinner⟩ := List.cons.inj hframes
    rw [houter] at hinner
    simp at hinner

/-- The current frames may be exchanged, whether they are the outermost ones or not. -/
theorem change (h : Behind n ended begun r r') {flags flags' : Flags} (hflags : flags' = flags)
    {g g' : Frame}
    (hout : Frame.Behind n ended begun r.frame r'.frame → Frame.Behind n ended begun g g')
    (hin : r'.frame = r.frame.renumber n → g' = g.renumber n) :
    Behind n ended begun ⟨flags, r.groups, r.outer, g⟩ ⟨flags', r'.groups, r'.outer, g'⟩ where
  flags := hflags
  groups := h.groups
  frames := by
    obtain ⟨inner, f, f', hframes, hframes', hf⟩ := h.frames
    cases inner with
    | nil =>
      obtain ⟨rfl, houter⟩ := List.cons.inj hframes
      obtain ⟨rfl, houter'⟩ := List.cons.inj hframes'
      exact ⟨[], g, g', congrArg (g :: ·) houter, congrArg (g' :: ·) houter', hout hf⟩
    | cons top inner =>
      obtain ⟨rfl, houter⟩ := List.cons.inj hframes
      obtain ⟨htop, houter'⟩ := List.cons.inj hframes'
      refine ⟨g :: inner, f, f', congrArg (g :: ·) houter, ?_, hf⟩
      rw [hin htop]
      exact congrArg (g.renumber n :: ·) houter'

theorem push (h : Behind n ended begun r r') {p q : Pattern} (hq : q = p.renumber n) :
    Behind n ended begun (r.push p) (r'.push q) := by
  subst hq
  exact h.change h.flags (fun hf => hf.push p) fun hf => by rw [hf, Frame.renumber_push]

theorem openGroup (h : Behind n ended begun r r') (flags : Flags) (captures : Bool) :
    let count := fun r : Reader => if captures then r.groups + 1 else r.groups
    let number := fun r : Reader => if captures then some (count r) else none
    Behind n ended begun ⟨flags, count r, r.frame :: r.outer, .opened (number r) r.flags⟩
      ⟨flags, count r', r'.frame :: r'.outer, .opened (number r') r'.flags⟩ := by
  intro count number
  obtain ⟨inner, f, f', hframes, hframes', hf⟩ := h.frames
  have hcount : count r' = n + count r := by
    cases captures <;> simp [count, h.groups, Nat.add_assoc]
  have hnumber : number r' = (number r).map (n + ·) := by
    cases captures <;> simp [number, hcount]
  have hopened : Frame.opened (number r') r'.flags =
      (Frame.opened (number r) r.flags).renumber n := by
    rw [hnumber, h.flags]
    rfl
  refine ⟨rfl, hcount, .opened (number r) r.flags :: inner, f, f', congrArg _ hframes, ?_, hf⟩
  rw [hopened]
  exact congrArg _ hframes'

/-- Both readers leave a group together. -/
theorem close (h : Behind n ended begun r r') {f : Frame} {outer : List Frame}
    (houter : r.outer = f :: outer) : ∃ f' outer', r'.outer = f' :: outer' ∧
      Behind n ended begun ⟨r.frame.outerFlags, r.groups, outer, f.push r.frame.finish⟩
        ⟨r'.frame.outerFlags, r'.groups, outer', f'.push r'.frame.finish⟩ := by
  obtain ⟨inner, base, base', hframes, hframes', hbase⟩ := h.frames
  cases inner with
  | nil =>
    obtain ⟨_, hnil⟩ := List.cons.inj hframes
    rw [houter] at hnil
    cases hnil
  | cons top inner =>
    obtain ⟨rfl, hinner⟩ := List.cons.inj hframes
    obtain ⟨htop, hinner'⟩ := List.cons.inj hframes'
    rw [houter] at hinner
    obtain ⟨f', outer', houter'⟩ : ∃ f' outer', r'.outer = f' :: outer' := by
      cases hr' : r'.outer with
      | nil => rw [hr'] at hinner'; simp at hinner'
      | cons f' outer' => exact ⟨f', outer', rfl⟩
    rw [houter'] at hinner'
    have hleft : Behind n ended begun ⟨r.frame.outerFlags, r.groups, outer, f⟩
        ⟨r'.frame.outerFlags, r'.groups, outer', f'⟩ :=
      ⟨by rw [htop]; rfl, h.groups, inner, base, base', hinner, hinner', hbase⟩
    have hfinish : r'.frame.finish = r.frame.finish.renumber n := by
      rw [htop, Frame.finish_renumber]
    exact ⟨f', outer', houter', hleft.push hfinish⟩

/-- The last item may be repeated in both readers or in none. -/
theorem lastItem (h : Behind n ended begun r r') (hrepeatable : r.frame.repeatable = true)
    {p : Pattern} {items : List Pattern} (hitems : r.frame.items = p :: items) :
    r'.frame.repeatable = true ∧ r'.frame.items = p.renumber n :: r'.frame.items.tail := by
  obtain ⟨inner, f, f', hframes, hframes', hf⟩ := h.frames
  cases inner with
  | nil =>
    obtain ⟨rfl, _⟩ := List.cons.inj hframes
    obtain ⟨rfl, _⟩ := List.cons.inj hframes'
    exact ⟨hf.repeatable hrepeatable, (hf.replace hitems p).1⟩
  | cons top inner =>
    obtain ⟨rfl, _⟩ := List.cons.inj hframes
    obtain ⟨htop, _⟩ := List.cons.inj hframes'
    rw [htop]
    exact ⟨hrepeatable, by simp [Frame.renumber, hitems]⟩

theorem step (d : Dialect) (h : Behind n ended begun r r') {t : Token} {s : Reader}
    (hs : step? d r t = some s) : ∃ s', step? d r' t = some s' ∧ Behind n ended begun s s' := by
  have hflags := h.flags
  cases t with
  | char c byte =>
    obtain ⟨p, hp, rfl⟩ := Option.map_eq_some_iff.mp hs
    rw [step?, hflags, hp]
    exact ⟨_, rfl, h.push (Flags.renumber_char? hp n).symm⟩
  | set e =>
    obtain ⟨cs, hcs, rfl⟩ := Option.map_eq_some_iff.mp hs
    rw [step?, hflags, hcs]
    exact ⟨_, rfl, h.push rfl⟩
  | dot =>
    obtain ⟨p, hp, rfl⟩ := Option.map_eq_some_iff.mp hs
    rw [step?, hflags, hp]
    exact ⟨_, rfl, h.push (Flags.renumber_dot? hp n).symm⟩
  | anchor a =>
    cases hs
    exact ⟨_, rfl, h.push (by rw [hflags]; rfl)⟩
  | bar =>
    cases hs
    exact ⟨_, rfl, h.change hflags Frame.Behind.endAlternative fun hf => by
      rw [hf, Frame.renumber_endAlternative]⟩
  | openGroup kind change =>
    cases hs
    refine ⟨_, rfl, ?_⟩
    rw [hflags]
    exact hflags ▸ h.openGroup (change.foldl Flags.switch r.flags) kind.captures
  | setFlags change =>
    cases hs
    refine ⟨_, rfl, h.change (by rw [hflags]) (fun hf => ?_) fun hf => by rw [hf]; rfl⟩
    exact ⟨hf.number, hf.number', nofun, hf.parts⟩
  | close =>
    simp only [step?] at hs
    split at hs
    · cases hs
    · next f outer houter =>
      cases hs
      obtain ⟨f', outer', houter', hclosed⟩ := h.close houter
      refine ⟨⟨r'.frame.outerFlags, r'.groups, outer', f'.push r'.frame.finish⟩, ?_, hclosed⟩
      simp only [step?, houter']
  | times least most greedy =>
    simp only [step?] at hs
    split at hs
    · next p items hrepeatable hitems =>
      obtain ⟨q, hq, rfl⟩ := Option.map_eq_some_iff.mp hs
      obtain ⟨hrepeatable', hitems'⟩ := h.lastItem hrepeatable hitems
      have hq' : repeated? d (p.renumber n) least most (greedy != r.flags.swapGreed) =
          some (q.renumber n) := by
        rw [Pattern.repeated?_renumber, hq, Option.map_some]
      refine ⟨⟨r'.flags, r'.groups, r'.outer,
        { r'.frame with items := q.renumber n :: r'.frame.items.tail }⟩, ?_, ?_⟩
      · rw [step?, hrepeatable', hitems', hflags]
        simp only [hq', Option.map_some, List.tail_cons]
      · refine h.change hflags (fun hf => (hf.replace hitems q).2) fun hf => ?_
        rw [hf]
        simp [Frame.renumber, hitems]
    · cases hs

theorem run (d : Dialect) (h : Behind n ended begun r r') {ts : List Token} {s : Reader}
    (hs : ts.foldlM (step? d) r = some s) :
    ∃ s', ts.foldlM (step? d) r' = some s' ∧ Behind n ended begun s s' := by
  induction ts generalizing r r' with
  | nil =>
    cases hs
    exact ⟨r', rfl, h⟩
  | cons t ts ih =>
    rw [List.foldlM_cons] at hs ⊢
    obtain ⟨u, hu, hs⟩ := Option.bind_eq_some_iff.mp hs
    obtain ⟨u', hu', hbehind⟩ := h.step d hu
    obtain ⟨s', hs', hfinal⟩ := ih hbehind hs
    exact ⟨s', Option.bind_eq_some_iff.mpr ⟨u', hu', hs'⟩, hfinal⟩

end Behind
end Reader
end ScriptAudit
