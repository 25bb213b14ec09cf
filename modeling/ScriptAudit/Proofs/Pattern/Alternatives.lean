import ScriptAudit.Pattern.Call
import ScriptAudit.Proofs.Pattern.Joined

/-! # The alternatives of a written call

A bar outside all groups divides a written pattern into alternatives. In the written form of a call
nothing holds the alternatives of the function together, nor those of the argument: only the last one
of the function and the first one of the argument become parts of a call. Main statements:
`exists_alternatives`, by which a written pattern is the choice between its alternatives, and
`alternatives?_callNotation`.
-/
namespace ScriptAudit

namespace Reader

/-- The flags in force outside all groups, to which the reader comes back when it has closed those
that are open. -/
def outsideFlags (flags : Flags) (frame : Frame) : List Frame → Flags
  | [] => flags
  | f :: outer => outsideFlags frame.outerFlags f outer

theorem outsideFlags_congr {f g : Frame} (h : g.outerFlags = f.outerFlags) (flags : Flags)
    (outer : List Frame) : outsideFlags flags g outer = outsideFlags flags f outer := by
  cases outer with
  | nil => rfl
  | cons f outer => rw [outsideFlags, outsideFlags, h]

theorem outsideFlags_push (r : Reader) (p : Pattern) :
    outsideFlags (r.push p).flags (r.push p).frame (r.push p).outer =
      outsideFlags r.flags r.frame r.outer :=
  outsideFlags_congr (by rfl) r.flags r.outer

variable {d : Dialect} {r s : Reader}

theorem outsideFlags_step {t : Token} (ht : t.setsFlags = false) (hs : step? d r t = some s) :
    outsideFlags s.flags s.frame s.outer = outsideFlags r.flags r.frame r.outer := by
  cases t with
  | char c byte | set e | dot =>
    obtain ⟨p, _, rfl⟩ := Option.map_eq_some_iff.mp hs
    exact outsideFlags_push r _
  | anchor a =>
    cases hs
    exact outsideFlags_push r _
  | bar =>
    cases hs
    exact outsideFlags_congr (by rfl) r.flags r.outer
  | openGroup kind change =>
    cases hs
    rfl
  | setFlags change => cases ht
  | close =>
    simp only [step?] at hs
    split at hs
    · cases hs
    · next f outer houter =>
      cases hs
      rw [houter]
      exact outsideFlags_congr (by rfl) r.frame.outerFlags outer
  | times least most greedy =>
    simp only [step?] at hs
    split at hs
    · obtain ⟨p, _, rfl⟩ := Option.map_eq_some_iff.mp hs
      exact outsideFlags_congr (by rfl) r.flags r.outer
    · cases hs

theorem outsideFlags_foldlM {ts : List Token} (hts : ts.any Token.setsFlags = false)
    (hs : ts.foldlM (step? d) r = some s) :
    outsideFlags s.flags s.frame s.outer = outsideFlags r.flags r.frame r.outer := by
  induction ts generalizing r with
  | nil =>
    cases hs
    rfl
  | cons t ts ih =>
    rw [List.any_cons, Bool.or_eq_false_iff] at hts
    rw [List.foldlM_cons] at hs
    obtain ⟨u, hu, hs⟩ := Option.bind_eq_some_iff.mp hs
    rw [ih hts.2 hs, outsideFlags_step hts.1 hu]

theorem run?_eq_some_iff {flags : Flags} {ts : List Token} :
    run? d flags ts = some r ↔ ts.foldlM (step? d) (start flags) = some r ∧ r.outer = [] := by
  rw [run?, Option.bind_eq_bind, Option.bind_eq_some_iff]
  constructor
  · rintro ⟨s, hs, h⟩
    split at h
    · next houter =>
      cases h
      exact ⟨hs, List.isEmpty_iff.mp houter⟩
    · cases h
  · rintro ⟨hr, houter⟩
    exact ⟨r, hr, if_pos (List.isEmpty_iff.mpr houter)⟩

/-- Without switches the flags at the end are those of the start. -/
theorem flags_run {flags : Flags} {ts : List Token} (hts : ts.any Token.setsFlags = false)
    (h : run? d flags ts = some r) : r.flags = flags := by
  obtain ⟨hr, houter⟩ := run?_eq_some_iff.mp h
  have houtside := outsideFlags_foldlM hts hr
  rw [houter] at houtside
  exact houtside

theorem behind_start (flags : Flags) : Behind 0 [] [] (start flags) (start flags) where
  flags := rfl
  groups := rfl
  frames := ⟨[], _, _, rfl, rfl, rfl, rfl, fun h => h, Or.inl ⟨rfl, rfl, rfl⟩⟩

/-- The outermost frame does not belong to a group. -/
theorem number_of_run {flags : Flags} {ts : List Token} (h : run? d flags ts = some r) :
    r.frame.number = none := by
  obtain ⟨hr, houter⟩ := run?_eq_some_iff.mp h
  obtain ⟨_, _, hbehind⟩ := (behind_start flags).run d hr
  exact (hbehind.outermost houter).2.number

end Reader

namespace Pattern

/-- Whether a written pattern switches flags other than for a group. -/
def setsFlags (written : String) : Bool :=
  (Token.readAll? written.toList).any fun tokens => tokens.any Token.setsFlags

/-- The alternatives of a written pattern that stand outside all groups. -/
def alternatives? (d : Dialect) (written : String) (ignoreCase : Bool) : Option (List Pattern) := do
  let tokens ← Token.readAll? written.toList
  let r ← Reader.run? d (.start ignoreCase) tokens
  return r.frame.endAlternative.alternatives.reverse

variable {d : Dialect}

theorem alternatives?_eq_some_iff {written : String} {ignoreCase : Bool} {ps : List Pattern} :
    alternatives? d written ignoreCase = some ps ↔ ∃ tokens r,
      Token.readAll? written.toList = some tokens ∧
      Reader.run? d (.start ignoreCase) tokens = some r ∧
      ps = r.frame.endAlternative.alternatives.reverse := by
  constructor
  · intro h
    obtain ⟨tokens, htokens, h⟩ := Option.bind_eq_some_iff.mp h
    obtain ⟨r, hr, h⟩ := Option.bind_eq_some_iff.mp h
    exact ⟨tokens, r, htokens, hr, (Option.some.inj h).symm⟩
  · rintro ⟨tokens, r, htokens, hr, rfl⟩
    exact Option.bind_eq_some_iff.mpr ⟨tokens, htokens, Option.bind_eq_some_iff.mpr ⟨r, hr, rfl⟩⟩

/-- A written pattern is the choice between its alternatives. -/
theorem exists_alternatives {written : String} {ignoreCase : Bool} {p : Pattern}
    (h : read? d written ignoreCase = some p) :
    ∃ ps, alternatives? d written ignoreCase = some ps ∧ p = altAll ps := by
  obtain ⟨tokens, htokens, h⟩ := Option.bind_eq_some_iff.mp h
  obtain ⟨r, hr, h⟩ := Option.bind_eq_some_iff.mp h
  have hfinish : r.frame.finish = altAll r.frame.endAlternative.alternatives.reverse := by
    rw [Frame.finish, Reader.number_of_run hr]
  refine ⟨_, alternatives?_eq_some_iff.mpr ⟨tokens, r, htokens, hr, rfl⟩, ?_⟩
  dsimp only at h
  split at h
  · rw [← hfinish]
    exact (Option.some.inj h).symm
  · cases h

/-- Of several alternatives the first one counts that can be read. -/
theorem run_altAll {ps : List Pattern} (hps : ps ≠ []) (k : Continuation) (s : Cursor) :
    (altAll ps).run k s = ps.findSome? fun p => p.run k s := by
  induction ps with
  | nil => exact absurd rfl hps
  | cons p ps ih =>
    cases ps with
    | nil => cases hp : p.run k s <;> simp [altAll, hp]
    | cons q ps =>
      have hrest := ih (List.cons_ne_nil q ps)
      have hrun : (altAll (p :: q :: ps)).run k s = (p.run k s <|> (altAll (q :: ps)).run k s) := rfl
      rw [hrun, hrest]
      cases hp : p.run k s <;> simp [List.findSome?_cons, hp]

/-- A pattern that is valid on its own does not start with a repetition. -/
theorem startsAnew_of_alternatives {written : String} {ignoreCase : Bool} {ps : List Pattern}
    (h : alternatives? d written ignoreCase = some ps) : Token.StartsAnew written.toList := by
  obtain ⟨tokens, r, htokens, hr, _⟩ := alternatives?_eq_some_iff.mp h
  by_contra hnot
  obtain ⟨least, most, greedy, us, rfl⟩ := Token.head?_of_not_startsAnew htokens hnot
  obtain ⟨hr, _⟩ := Reader.run?_eq_some_iff.mp hr
  rw [List.foldlM_cons] at hr
  obtain ⟨s, hs, _⟩ := Option.bind_eq_some_iff.mp hr
  cases hs

/-! Calls. -/

/-- The class of the separators of a call, as it is written. -/
def separatorClass : CharClass :=
  .brackets false (.unionAll [.escape .blank false, .char ',', .char '('])

theorem readAll?_gap :
    Token.readAll? "[\\s,(]*".toList = some [.set separatorClass, .times 0 none true] := by
  decide +kernel

theorem foldlM_gap {r : Reader} (h : r.flags = .start false) :
    [Token.set separatorClass, .times 0 none true].foldlM (Reader.step? d) r =
      some (r.push gap) := by
  have hset : Reader.step? d r (.set separatorClass) =
      some (r.push (set (.unionAll [.blank, .one ',', .one '(']))) := by
    rw [Reader.step?, h]
    rfl
  have hgap : Reader.repeated? d (set (.unionAll [.blank, .one ',', .one '('])) 0 none true =
      some gap := rfl
  have htimes : Reader.step? d (r.push (set (.unionAll [.blank, .one ',', .one '('])))
      (.times 0 none true) = some (r.push gap) := by
    simp only [Reader.step?, Reader.push, Frame.push, h]
    rw [show (true != (Flags.start false).swapGreed) = true from rfl, hgap]
    rfl
  rw [List.foldlM_cons, hset, Option.bind_eq_bind, Option.bind_some, List.foldlM_cons, htimes]
  rfl

theorem alternatives?_callNotation {function argument : String} {ps qs : List Pattern}
    (hf : alternatives? d function false = some ps) (hflags : setsFlags function = false)
    (ha : alternatives? d argument false = some qs) :
    ∃ n ended last first rest, ps = ended ++ [seqAll last] ∧ qs = seqAll first :: rest ∧
      alternatives? d (callNotation function argument) false =
        some (ended ++ seqAll (last ++ gap :: first.map (renumber n)) :: rest.map (renumber n)) := by
  have hanew := startsAnew_of_alternatives ha
  obtain ⟨ts, r, hts, hr, rfl⟩ := alternatives?_eq_some_iff.mp hf
  obtain ⟨us, s, hus, hs, rfl⟩ := alternatives?_eq_some_iff.mp ha
  have hsets : ts.any Token.setsFlags = false := by
    rw [setsFlags, hts] at hflags
    exact hflags
  -- behind the function the flags are again those at the start of the text
  have hrflags : r.flags = .start false := Reader.flags_run hsets hr
  have htokens : Token.readAll? (callNotation function argument).toList =
      some (ts ++ ([.set separatorClass, .times 0 none true] ++ us)) := by
    rw [callNotation, String.toList_append, String.toList_append, List.append_assoc]
    exact Token.readAll?_append (by simp [Token.StartsAnew]) hts hsets
      (Token.readAll?_append hanew readAll?_gap rfl hus)
  obtain ⟨hrun, houter⟩ := Reader.run?_eq_some_iff.mp hr
  obtain ⟨hrun', houter'⟩ := Reader.run?_eq_some_iff.mp hs
  have hgap := foldlM_gap (d := d) hrflags
  have hnumber : r.frame.number = none := Reader.number_of_run hr
  have hbehind : Reader.Behind r.groups r.frame.alternatives (gap :: r.frame.items)
      (Reader.start (.start false)) (r.push gap) :=
    ⟨hrflags, rfl, [], _, _, rfl, congrArg _ houter, rfl, hnumber, fun _ => rfl,
      Or.inl ⟨rfl, rfl, rfl⟩⟩
  obtain ⟨s', hs', hfinal⟩ := hbehind.run d hrun'
  obtain ⟨houter'', hframes⟩ := hfinal.outermost houter'
  obtain ⟨first, later, hfirst, hlater⟩ := hframes.alternatives
  refine ⟨r.groups, r.frame.alternatives.reverse, r.frame.items.reverse, first, later.reverse, ?_,
    ?_, ?_⟩
  · rw [Frame.endAlternative, List.reverse_cons]
  · rw [hfirst, List.reverse_append, List.reverse_singleton, List.singleton_append]
  · refine alternatives?_eq_some_iff.mpr ⟨_, s', htokens,
      Reader.run?_eq_some_iff.mpr ⟨?_, houter''⟩, ?_⟩
    · rw [List.foldlM_append, hrun, Option.bind_eq_bind, Option.bind_some, List.foldlM_append, hgap]
      exact hs'
    · rw [hlater]
      simp

end Pattern
end ScriptAudit
