import ScriptAudit.Proofs.Pattern.Characters
import ScriptAudit.Proofs.Rules.Fillings

/-! # Calls that a long match hides

A rule that reports the name of an IRC message looks for a call with a quoted argument, and leaves
out what spans more than two lines only after the search has gone over it. A quotation that is not
closed for some lines is closed by the next quotation mark, which may be the one that opens the
argument of another call. Main statements: `stop_of_startsInside`, and `accounts_iff`, by which
nothing else keeps a call on two lines from being reported.
-/
namespace ScriptAudit

namespace Text

def isQuote (c : Char) : Bool := c == '"' || c == '\''

/-- The first quotation mark from index `i` on stands at index `k`. -/
structure FirstQuote (cs : List Char) (i k : Nat) : Prop where
  before : Covers cs (!isQuote ·) i k
  quote : ∃ c, cs[k]? = some c ∧ isQuote c = true

namespace FirstQuote
variable {cs : List Char} {i j k n : Nat}

theorem le_of_quote (h : FirstQuote cs i k) (hin : i ≤ n) {c : Char} (hc : cs[n]? = some c)
    (hquote : isQuote c = true) : k ≤ n := by
  have htest : (!isQuote c) = false := by rw [hquote]; rfl
  rcases h.before.ne_of_getElem? htest hc with hlt | hle
  · exact absurd hin (Nat.not_le_of_lt hlt)
  · exact hle

theorem unique (h : FirstQuote cs i k) (h' : FirstQuote cs i n) : k = n := by
  obtain ⟨c, hc, hquote⟩ := h.quote
  obtain ⟨c', hc', hquote'⟩ := h'.quote
  exact Nat.le_antisymm (h.le_of_quote h'.before.le hc' hquote')
    (h'.le_of_quote h.before.le hc hquote)

theorem later (h : FirstQuote cs i k) (hij : i ≤ j) (hjk : j ≤ k) : FirstQuote cs j k where
  before := ⟨hjk, fun n hjn hnk => h.before.passes n (Nat.le_trans hij hjn) hnk⟩
  quote := h.quote

end FirstQuote
end Text

namespace Pattern
variable {p q : Pattern} {word : String} {text : List Char} {m n : Occurrence}

/-- The pattern reads no quotation mark. -/
def Unquoted (p : Pattern) : Prop := ∀ c, Text.isQuote c = true → p.admits c = false

theorem unquoted_iff : p.Unquoted ↔ p.admits '"' = false ∧ p.admits '\'' = false := by
  constructor
  · intro h
    exact ⟨h '"' rfl, h '\'' rfl⟩
  · rintro ⟨h, h'⟩ c hc
    rcases Bool.or_eq_true_iff.mp hc with hc | hc
    · rwa [eq_of_beq hc]
    · rwa [eq_of_beq hc]

instance (p : Pattern) : Decidable p.Unquoted := decidable_of_iff _ unquoted_iff.symm

theorem Unquoted.covers {i j : Nat} (hp : p.Unquoted) (h : Text.Covers text p.admits i j) :
    Text.Covers text (!Text.isQuote ·) i j := by
  apply h.mono
  intro c hc
  cases hquote : Text.isQuote c with
  | false => rfl
  | true =>
    rw [hp c hquote] at hc
    cases hc

theorem reads_quote {i : Nat} {t : Cursor} {ms : List Mark}
    (h : quote.Reads (.ofIndex text i) t ms) :
    t = .ofIndex text (i + 1) ∧ ∃ c, text[i]? = some c ∧ Text.isQuote c = true := by
  obtain ⟨ht, c, hc, hquote⟩ := reads_set h
  refine ⟨ht, c, hc, ?_⟩
  rw [CharSet.contains_ofList] at hquote
  simpa [Text.isQuote] using hquote

/-- A call of a function with an argument in quotation marks. -/
structure IsQuotedCall (p : Pattern) (word : String) (q : Pattern) : Prop where
  eq_call : p = call (literal word) (quoted q)
  name : ∃ others, word.toList = 'h' :: others ∧ 'h' ∉ others
  name_unquoted : (literal word).Unquoted
  argument_unquoted : q.Unquoted

namespace IsQuotedCall

/-- An occurrence has two quotation marks, one behind the name and the gap and one at its end. -/
theorem exists_quotes (hp : p.IsQuotedCall word q) (h : p.OccursAs text m) : ∃ a b,
    Text.occursAt word.toList text m.first = true ∧
    Text.Covers text gap.admits (m.first + word.toList.length) a ∧
    Text.FirstQuote text m.first a ∧ Text.FirstQuote text (a + 1) b ∧ m.stop = b + 1 := by
  obtain ⟨ms, hread⟩ := exists_reads_of_occursAs h
  rw [hp.eq_call] at hread
  obtain ⟨u, _, _, hname, ⟨v, _, _, hgap, ⟨w, _, _, hopen, ⟨x, _, _, harg, hclose, _⟩, _⟩, _⟩, _⟩ :=
    hread
  obtain ⟨hoccurs, hu⟩ := occursAt_of_reads_literal hname
  obtain ⟨_, hu', hnameCovers⟩ := covers_of_reads text _ _ _ _ hname
  obtain rfl : _ = m.first + word.toList.length := congrArg Cursor.index (hu'.symm.trans hu)
  subst hu
  obtain ⟨a, rfl, hgapCovers⟩ := covers_of_reads text _ _ _ _ hgap
  obtain ⟨rfl, hquoteOpen⟩ := reads_quote hopen
  obtain ⟨b, rfl, hargCovers⟩ := covers_of_reads text _ _ _ _ harg
  obtain ⟨hstop, hquoteClose⟩ := reads_quote hclose
  have hunquoted : gap.Unquoted := by decide
  exact ⟨a, b, hoccurs, hgapCovers,
    ⟨(hp.name_unquoted.covers hnameCovers).trans (hunquoted.covers hgapCovers), hquoteOpen⟩,
    ⟨hp.argument_unquoted.covers hargCovers, hquoteClose⟩, congrArg Cursor.index hstop⟩

theorem first_lt_stop (hp : p.IsQuotedCall word q) (h : p.OccursAs text m) :
    m.first < m.stop := by
  obtain ⟨a, b, _, _, hopen, hclose, hstop⟩ := hp.exists_quotes h
  have hle := hopen.before.le
  have hle' := hclose.before.le
  omega

/-- An occurrence over the start of another one ends with the quotation mark that opens the
argument of the other one. -/
theorem stop_of_startsInside (hp : p.IsQuotedCall word q) (hm : p.OccursAs text m)
    (hn : p.OccursAs text n) (h : m.StartsInside n) :
    ∃ k, Text.FirstQuote text m.first k ∧ n.stop = k + 1 := by
  obtain ⟨others, hword, hothers⟩ := hp.name
  obtain ⟨a, _, hoccurs, _, hopen, _, _⟩ := hp.exists_quotes hm
  obtain ⟨a', b', hoccurs', hgap, hopen', hclose', hstop⟩ := hp.exists_quotes hn
  obtain ⟨hlt, hinside⟩ := h
  have hfirst : text[m.first]? = some 'h' := by
    rw [hword] at hoccurs
    exact (Text.occursAt_cons.mp hoccurs).1
  -- the name, the gap and the quotation marks of the outer call hold no second start of a name
  have hname : n.first + word.toList.length ≤ m.first := by
    rw [hword] at hoccurs hoccurs' ⊢
    exact (Text.unbordered_cons hothers).add_length_le hoccurs' hoccurs hlt
  have hbehind : a' ≤ m.first := by
    rcases hgap.ne_of_getElem? (by decide) hfirst with hlt' | hle
    · omega
    · exact hle
  have hnotQuote : ∀ i, (∃ c, text[i]? = some c ∧ Text.isQuote c = true) → m.first ≠ i := by
    rintro i ⟨c, hc, hquote⟩ rfl
    obtain rfl : 'h' = c := Option.some.inj (hfirst.symm.trans hc)
    cases hquote
  have hopenNe := hnotQuote a' hopen'.quote
  refine ⟨b', hclose'.later ?_ ?_, hstop⟩
  · omega
  · omega

end IsQuotedCall
end Pattern

open Rules Pattern

theorem RuleName.exists_isQuotedCall {name : RuleName} {p : Pattern}
    (h : name.messagePattern? = some p) : ∃ word q, p.IsQuotedCall word q := by
  cases name <;> cases h
  · exact ⟨"hook_modifier", _, rfl, ⟨"ook_modifier".toList, rfl, by decide⟩, by decide, by decide⟩
  · exact ⟨"hook_signal", _, rfl, ⟨"ook_signal".toList, rfl, by decide⟩, by decide, by decide⟩
  · exact ⟨"hook_signal", _, rfl, ⟨"ook_signal".toList, rfl, by decide⟩, by decide, by decide⟩

namespace Source
variable {s : Source} {p q : Pattern} {word : String} {m n : Occurrence}

/-- What a search for at most two lines takes and keeps. -/
def kept (s : Source) (p : Pattern) : List Occurrence :=
  (p.taken s.chars).filter fun m => m.lineSpan s.chars ≤ 2

/-- What such a search takes but leaves out in the end. -/
def dropped (s : Source) (p : Pattern) : List Occurrence :=
  (p.taken s.chars).filter fun m => 2 < m.lineSpan s.chars

/-- The occurrence is kept, or has characters in common with one that is. -/
def Accounts (s : Source) (p : Pattern) (m : Occurrence) : Prop :=
  m ∈ s.kept p ∨ ∃ n ∈ s.kept p, m.Overlaps n

instance (s : Source) (p : Pattern) (m : Occurrence) : Decidable (s.Accounts p m) :=
  inferInstanceAs (Decidable (_ ∨ _))

/-- An occurrence that is dropped runs over the start of this one up to its first quotation mark,
and nothing that is kept starts in the rest of it. -/
def Hides (s : Source) (p : Pattern) (m : Occurrence) : Prop :=
  ∃ n ∈ s.dropped p, m.StartsInside n ∧ (∃ k, Text.FirstQuote s.chars m.first k ∧ n.stop = k + 1) ∧
    ∀ r ∈ s.kept p, n.stop ≤ r.first → m.stop ≤ r.first

theorem search_two_eq (s : Source) (p : Pattern) :
    s.search p 2 = (s.kept p).map (p.matchAs s.text (.ofText s.text)) :=
  Pattern.search_eq p s.text _ 2

theorem not_accounts_of_hides (hp : p.IsQuotedCall word q) (h : s.Hides p m) :
    ¬ s.Accounts p m := by
  obtain ⟨n, hn, hinside, _, hrest⟩ := h
  obtain ⟨hn, hlong⟩ := List.mem_filter.mp hn
  have hlong := of_decide_eq_true hlong
  have hnot : ∀ r ∈ s.kept p, ¬ m.Overlaps r := by
    intro r hr hoverlaps
    obtain ⟨htaken, hshort⟩ := List.mem_filter.mp hr
    have hshort := of_decide_eq_true hshort
    have hrest := hrest r hr
    unfold Occurrence.Overlaps at hoverlaps
    unfold Occurrence.StartsInside at hinside
    rcases disjoint_of_mem_taken hn htaken with rfl | hle | hle
    · omega
    · have := hrest hle
      omega
    · omega
  rintro (hm | ⟨r, hr, hoverlaps⟩)
  · have hlt := hp.first_lt_stop (occursAs_of_mem_taken (List.mem_filter.mp hm).1)
    exact hnot m hm ⟨hlt, hlt⟩
  · exact hnot r hr hoverlaps

theorem hides_of_not_accounts (hp : p.IsQuotedCall word q) (hm : p.OccursAs s.chars m)
    (hshort : m.lineSpan s.chars ≤ 2) (h : ¬ s.Accounts p m) : s.Hides p m := by
  obtain ⟨hkept, hoverlaps⟩ := not_or.mp h
  have hlt := hp.first_lt_stop hm
  rcases mem_taken_or_covered hm hlt with htaken | ⟨n, hn, hinside⟩
  · exact absurd (List.mem_filter.mpr ⟨htaken, decide_eq_true hshort⟩) hkept
  · have hlong : 2 < n.lineSpan s.chars := by
      apply Nat.lt_of_not_le
      intro hle
      have hmem : n ∈ s.kept p := List.mem_filter.mpr ⟨hn, decide_eq_true hle⟩
      exact hoverlaps ⟨n, hmem, hinside.2, Nat.lt_trans hinside.1 hlt⟩
    refine ⟨n, List.mem_filter.mpr ⟨hn, decide_eq_true hlong⟩, hinside, ?_, ?_⟩
    · exact hp.stop_of_startsInside hm (occursAs_of_mem_taken hn) hinside
    · intro r hr hle
      apply Nat.le_of_not_lt
      intro hrm
      have hinside := hinside.2
      have hrlt := hp.first_lt_stop (occursAs_of_mem_taken (List.mem_filter.mp hr).1)
      exact hoverlaps ⟨r, hr, by omega, hrm⟩

theorem accounts_iff (hp : p.IsQuotedCall word q) (hm : p.OccursAs s.chars m)
    (hshort : m.lineSpan s.chars ≤ 2) : s.Accounts p m ↔ ¬ s.Hides p m := by
  constructor
  · intro h hhides
    exact not_accounts_of_hides hp hhides h
  · intro h
    by_contra hnot
    exact h (hides_of_not_accounts hp hm hshort hnot)

end Source

namespace Rule

/-- The hit on an occurrence: the line on which it starts, and the name that it captures. -/
def messageHit (s : Source) (p : Pattern) (m : Occurrence) : Hit :=
  ⟨Text.lineOf s.chars m.first, .message (messageName (p.matchAs s.text (.ofText s.text) m))⟩

theorem messageHits_eq_kept {p : Pattern} (h : p.passes 1 = true) (s : Source) :
    messageHits p s = .ok ((s.kept p).map (messageHit s p)) := by
  rw [messageHits_eq h, s.search_two_eq, List.map_map]
  congr 2
  funext m
  have hline : (p.matchAs s.text (.ofText s.text) m).line = Text.lineOf s.chars m.first :=
    Cursor.lineAt_ofIndex s.text m.first
  simp only [Function.comp_apply, messageHit, hline]

/-- A rule on the names of IRC messages has a hit for each occurrence of its pattern that the
search keeps. An occurrence on at most two lines is among these or overlaps one of them, unless
a quotation on more than two lines runs over its start up to its first quotation mark and nothing
behind this mark makes up for it. -/
theorem detect_accounts {r : Rule} (hr : r ∈ table) {p : Pattern}
    (hp : r.name.messagePattern? = some p) (s : Source) :
    r.detect s = .ok ((s.kept p).map (messageHit s p)) ∧
    ∀ m, p.OccursAs s.chars m → m.lineSpan s.chars ≤ 2 → (s.Accounts p m ↔ ¬ s.Hides p m) := by
  constructor
  · cases shape_of_mem_table hr with
    | plain hnone _ _ =>
      rw [hnone] at hp
      cases hp
    | message p' hp' hd =>
      rw [hp] at hp'
      cases hp'
      rw [hd]
      exact messageHits_eq_kept (RuleName.passes_of_messagePattern? hp) s
    | link _ hnone _ _ =>
      rw [hnone] at hp
      cases hp
  · intro m hm hshort
    obtain ⟨word, q, hq⟩ := RuleName.exists_isQuotedCall hp
    exact Source.accounts_iff hq hm hshort

theorem detect_accounts_behind_dropped :
    let r : Rule := ⟨.modifierIrcIn, .warning, none, modifierIrcIn⟩
    let s : Source := ⟨Path.ofString "a.py",
      "hook_modifier(\"irc_in_a\n\nhook_modifier('irc_in_b')\nhook_modifier('irc_in_c')"⟩
    let m : Occurrence := ⟨51, 75, [.opened 1 73, .closed 1 74]⟩
    r ∈ table ∧ r.name.messagePattern? = some modifierPattern ∧
      modifierPattern.OccursAs s.chars m ∧ m.lineSpan s.chars ≤ 2 ∧
      r.detect s = .ok ((s.kept modifierPattern).map (messageHit s modifierPattern)) ∧
      (s.Accounts modifierPattern m ↔ ¬ s.Hides modifierPattern m) := by
  intro r s m
  have hr : r ∈ table := by simp [table, r]
  have hm : modifierPattern.OccursAs s.chars m := by decide
  have hshort : m.lineSpan s.chars ≤ 2 := by decide
  obtain ⟨hdetect, haccounts⟩ := detect_accounts hr rfl s
  exact ⟨hr, rfl, hm, hshort, hdetect, haccounts m hm hshort⟩

/-- A quotation that is left open three lines above hides a call that stands on a single line. -/
theorem not_accounts_of_open_quotation :
    let s : Source := ⟨Path.ofString "a.py", "hook_modifier(\"irc_in_a\n\nhook_modifier('irc_in_b')"⟩
    let m : Occurrence := ⟨25, 49, [.opened 1 47, .closed 1 48]⟩
    modifierPattern.OccursAs s.chars m ∧ m.lineSpan s.chars = 1 ∧
      modifierIrcIn s = .ok [] ∧ ¬ s.Accounts modifierPattern m := by
  decide

end Rule
end ScriptAudit
