import ScriptAudit.Proofs.Analysis.Findings
import ScriptAudit.Proofs.Pattern.LineEnds
import ScriptAudit.Proofs.Rules.Quotation

/-! # What is captured of a call

Three rules report the name of an IRC message, which is a part of the argument of a call. For a
modifier it is all that follows `irc_in_`. For a signal it is what follows the last mark in a list
of signals that has something before it and something behind it. Main statements:
`MessageRule.occursAs_iff` and `MessageRule.detect_captures`.
-/
namespace ScriptAudit

namespace Text

/-- A text that has a mark in it, with something before the mark and something behind it. -/
structure Parted (mark whole before behind : List Char) : Prop where
  eq : whole = before ++ mark ++ behind
  before_ne : before ≠ []
  behind_ne : behind ≠ []

/-- What follows the last mark that has something before it and something behind it. -/
def BehindLast (mark whole behind : List Char) : Prop :=
  ∃ before, Parted mark whole before behind ∧
    ∀ before' behind', Parted mark whole before' behind' → before'.length ≤ before.length

/-- The name of a function, separators, and an argument in quotation marks that holds none. -/
def QuotedCall (function : String) (piece argument : List Char) : Prop :=
  ∃ gap opening closing,
    piece = function.toList ++ gap ++ [opening] ++ argument ++ [closing] ∧
      (∀ c ∈ gap, isSeparator c = true) ∧ isQuote opening = true ∧ isQuote closing = true ∧
        ∀ c ∈ argument, isQuote c = false

variable {text mark before behind : List Char} {i j b : Nat}

/-- A piece of a text with a mark in it and something behind the mark. -/
theorem slice_eq_append_iff (hb : b ≤ text.length) :
    (slice text j b = before ++ mark ++ behind ∧ behind ≠ []) ↔
      ∃ e, j ≤ e ∧ occursAt mark text e = true ∧ e + mark.length < b ∧
        before = slice text j e ∧ behind = slice text (e + mark.length) b := by
  constructor
  · rintro ⟨heq, hbehind⟩
    have hlength := congrArg List.length heq
    rw [length_slice hb, List.length_append, List.length_append] at hlength
    have hpos := List.length_pos_iff.mpr hbehind
    have hdrop : text.drop j = before ++ (mark ++ (behind ++ text.drop b)) := by
      rw [← slice_append_drop (Nat.le_of_lt (show j < b by omega)), heq]
      simp
    have hmark := drop_of_drop_eq_append hdrop
    have hrest := drop_of_drop_eq_append hmark
    have hstop : b = j + before.length + mark.length + behind.length := by omega
    refine ⟨j + before.length, by omega, occursAt_of_drop_eq_append hmark, by omega,
      (slice_of_drop_eq_append hdrop).symm, ?_⟩
    rw [hstop]
    exact (slice_of_drop_eq_append hrest).symm
  · rintro ⟨e, hje, hoccurs, hlt, rfl, rfl⟩
    have hwhole : slice text j e ++ slice text e (e + mark.length) ++
        slice text (e + mark.length) b = slice text j b := by
      rw [slice_append (by omega) (by omega), slice_append (by omega) (by omega)]
    refine ⟨by rw [← hwhole, slice_of_occursAt hoccurs], ?_⟩
    rw [← List.length_pos_iff, length_slice hb]
    omega

theorem parted_slice_iff (hb : b ≤ text.length) : Parted mark (slice text j b) before behind ↔
    ∃ e, j < e ∧ occursAt mark text e = true ∧ e + mark.length < b ∧
      before = slice text j e ∧ behind = slice text (e + mark.length) b := by
  constructor
  · rintro ⟨heq, hbefore, hbehind⟩
    obtain ⟨e, hje, hoccurs, hlt, rfl, rfl⟩ := (slice_eq_append_iff hb).mp ⟨heq, hbehind⟩
    rw [← List.length_pos_iff, length_slice (by omega)] at hbefore
    exact ⟨e, by omega, hoccurs, hlt, rfl, rfl⟩
  · rintro ⟨e, hje, hoccurs, hlt, rfl, rfl⟩
    obtain ⟨heq, hbehind⟩ :=
      (slice_eq_append_iff hb).mpr ⟨e, Nat.le_of_lt hje, hoccurs, hlt, rfl, rfl⟩
    refine ⟨heq, ?_, hbehind⟩
    rw [← List.length_pos_iff, length_slice (by omega)]
    omega

/-- A call of the function stands at an index, its argument between the quotation marks at `a` and
at `b`. -/
structure CallAt (function : String) (text : List Char) (i a b : Nat) : Prop where
  occurs : occursAt function.toList text i = true
  opening_eq : a = argumentAt text (i + function.toList.length)
  opening : text[a]?.any isQuote = true
  closing : FirstQuote text (a + 1) b

namespace FirstQuote

theorem lt_length (h : FirstQuote text i j) : j < text.length := by
  obtain ⟨c, hc, _⟩ := h.quote
  exact (List.getElem?_eq_some_iff.mp hc).1

theorem runEnd_eq (h : FirstQuote text i j) : runEnd (!isQuote ·) text i = j := by
  rw [h.before.runEnd_eq]
  apply runEnd_of_stops
  intro c hc
  obtain ⟨d, hd, hquote⟩ := h.quote
  obtain rfl : c = d := Option.some.inj (hc.symm.trans hd)
  rw [hquote]
  rfl

theorem of_runEnd (h : text[runEnd (!isQuote ·) text i]?.any isQuote = true) :
    FirstQuote text i (runEnd (!isQuote ·) text i) where
  before := covers_runEnd _ text i
  quote := (Option.any_eq_true _ _).mp h

/-- Characters in front that are no quotation marks make no difference. -/
theorem earlier (h : FirstQuote text j b) (hcovers : Covers text (!isQuote ·) i j) :
    FirstQuote text i b where
  before := hcovers.trans h.before
  quote := h.quote

end FirstQuote

theorem quotedCall_iff {function : String} {piece argument : List Char} :
    (piece <+: text.drop i ∧ QuotedCall function piece argument) ↔
      ∃ a b, CallAt function text i a b ∧ piece = slice text i (b + 1) ∧
        argument = slice text (a + 1) b := by
  constructor
  · rintro ⟨⟨rest, hrest⟩, gap, opening, closing, rfl, hgap, hopening, hclosing, hargument⟩
    have hdrop : text.drop i =
        function.toList ++ (gap ++ opening :: (argument ++ closing :: rest)) := by
      rw [← hrest]
      simp
    have hbehind := drop_of_drop_eq_append hdrop
    have hquote := drop_of_drop_eq_append hbehind
    have hopen : text[i + function.toList.length + gap.length]? = some opening := by
      rw [← List.head?_drop, hquote]
      rfl
    have hinside : text.drop (i + function.toList.length + gap.length + 1) =
        argument ++ closing :: rest := by
      rw [← List.drop_drop, hquote]
      rfl
    have hclose : text[i + function.toList.length + gap.length + 1 + argument.length]? =
        some closing := by
      rw [← List.head?_drop, drop_of_drop_eq_append hinside]
      rfl
    refine ⟨_, _, ⟨occursAt_of_drop_eq_append hdrop, ?_, ?_, ?_, ⟨closing, hclose, hclosing⟩⟩, ?_,
      (slice_of_drop_eq_append hinside).symm⟩
    · refine (runEnd_of_append hbehind hgap ?_).symm
      cases hseparator : isSeparator opening with
      | false => rfl
      | true =>
        rw [isQuote_eq_false_of_isSeparator hseparator] at hopening
        cases hopening
    · rw [hopen]
      exact hopening
    · refine Covers.of_occursAt (occursAt_of_drop_eq_append hinside) fun c hc => ?_
      rw [hargument c hc]
      rfl
    · have hpiece := slice_of_drop_eq_append hrest.symm
      simp only [List.length_append, List.length_singleton, ← Nat.add_assoc] at hpiece
      exact hpiece.symm
  · rintro ⟨a, b, h, rfl, rfl⟩
    obtain ⟨opening, hopen, hopening⟩ := (Option.any_eq_true _ _).mp h.opening
    obtain ⟨closing, hclose, hclosing⟩ := h.closing.quote
    obtain rfl := h.opening_eq
    refine ⟨List.take_prefix _ _,
      slice text (i + function.toList.length) (argumentAt text (i + function.toList.length)),
      opening, closing, ?_, fun c hc => test_of_mem_slice_runEnd hc, hopening, hclosing,
      fun c hc => ?_⟩
    · have hle := h.closing.before.le
      have hle' := le_argumentAt text (i + function.toList.length)
      rw [← slice_append (by omega) (Nat.le_succ b), ← slice_append (by omega) hle,
        slice_argumentAt h.occurs hopen, slice_of_getElem? hclose]
    · rw [← h.closing.runEnd_eq] at hc
      have htest := test_of_mem_slice_runEnd hc
      simpa using htest

end Text

namespace Pattern
open Cursor (ofIndex)
variable {k : Continuation} {text : List Char} {i j : Nat} {o : Outcome}

theorem contains_unquoted : (CharSet.compl (.ofList ['"', '\''])).contains = (!Text.isQuote ·) := by
  funext c
  rw [← contains_quotes]
  rfl

/-- An argument is read up to the next quotation mark, and the group holds all of it. -/
theorem run_message_iff :
    (group 1 unquotedText).run (quote.run Cursor.finish) (ofIndex text j) = some o ↔
      ∃ b, Text.FirstQuote text j b ∧ j < b ∧ o = ⟨b + 1, [.opened 1 j, .closed 1 b]⟩ := by
  let close : Continuation := fun t =>
    (quote.run Cursor.finish t).map (·.passing (.closed 1 t.index))
  have hclose (n : Nat) : close (ofIndex text n) =
      if text[n]?.any Text.isQuote then some ⟨n + 1, [.closed 1 n]⟩ else none := by
    simp only [close]
    rw [run_quote]
    split <;> rfl
  have hshut : ∀ n, j < n →
      n < Text.runEnd (CharSet.compl (.ofList ['"', '\''])).contains text j →
        close (ofIndex text n) = none := by
    intro n hjn hn
    obtain ⟨c, hc, hquote⟩ := (Text.covers_runEnd _ text j).passes n (Nat.le_of_lt hjn) hn
    rw [contains_unquoted, Bool.not_eq_true'] at hquote
    rw [hclose, hc, Option.any_some, hquote]
    rfl
  have hrun : (group 1 unquotedText).run (quote.run Cursor.finish) (ofIndex text j) =
      (unquotedText.run close (ofIndex text j)).map (·.passing (.opened 1 j)) := rfl
  rw [hrun, unquotedText, run_plus_set_of_shut hshut, contains_unquoted, hclose]
  constructor
  · intro h
    obtain ⟨r, hr, rfl⟩ := Option.map_eq_some_iff.mp h
    rw [Option.ite_none_right_eq_some, Option.ite_none_right_eq_some] at hr
    obtain ⟨hlt, hquote, hr⟩ := hr
    obtain rfl := Option.some.inj hr
    exact ⟨_, .of_runEnd hquote, hlt, rfl⟩
  · rintro ⟨b, hb, hlt, rfl⟩
    rw [hb.runEnd_eq, if_pos hlt, if_pos ((Option.any_eq_true _ _).mpr hb.quote)]
    rfl

/-- A call is read up to the quotation mark of its argument, and the argument from there on. -/
theorem run_quotedCall_iff {function : String} {q : Pattern} :
    (call (literal function) (seq quote q)).run k (ofIndex text i) = some o ↔
      Text.occursAt function.toList text i = true ∧
        text[Text.argumentAt text (i + function.toList.length)]?.any Text.isQuote = true ∧
          q.run k (ofIndex text (Text.argumentAt text (i + function.toList.length) + 1)) =
            some o := by
  rw [run_call_quote, run_literal, run_gap_quote, Option.ite_none_right_eq_some,
    Option.ite_none_right_eq_some]

/-- The mark and the message behind it, read at a place within the argument that starts at `j`. -/
def markAndMessage (mark : String) : Continuation :=
  (literal mark).run ((group 1 unquotedText).run (quote.run Cursor.finish))

theorem markAndMessage_iff {mark : String} (hmark : mark.toList.all (!Text.isQuote ·) = true)
    {e : Nat} (hje : j ≤ e) (hle : e ≤ Text.runEnd (!Text.isQuote ·) text j) :
    markAndMessage mark (ofIndex text e) = some o ↔
      Text.occursAt mark.toList text e = true ∧
        ∃ b, Text.FirstQuote text j b ∧ e + mark.toList.length < b ∧
          o = ⟨b + 1, [.opened 1 (e + mark.toList.length), .closed 1 b]⟩ := by
  rw [markAndMessage, run_literal, Option.ite_none_right_eq_some, run_message_iff]
  refine and_congr_right fun hoccurs => exists_congr fun b => and_congr_left fun ⟨hlt, _⟩ => ?_
  constructor
  · intro hb
    have hcovers : Text.Covers text (!Text.isQuote ·) j e :=
      ⟨hje, fun n hjn hne =>
        (Text.covers_runEnd _ text j).passes n hjn (Nat.lt_of_lt_of_le hne hle)⟩
    exact hb.earlier (hcovers.trans (.of_occursAt hoccurs (List.all_eq_true.mp hmark)))
  · intro hb
    exact hb.later (Nat.le_add_right_of_le hje) (Nat.le_of_lt hlt)

/-- Goes on from the start of an argument to the quotation mark behind it, and captures of it what
`names` says. -/
def Captures (p : Pattern) (names : List Char → List Char → Prop) : Prop :=
  ∀ text j o, (seq p quote).run Cursor.finish (ofIndex text j) = some o ↔
    ∃ b message, Text.FirstQuote text j b ∧ names (Text.slice text j b) message ∧
      o = ⟨b + 1, [.opened 1 (b - message.length), .closed 1 b]⟩

theorem captures_mark {mark : String} (hmark : mark.toList.all (!Text.isQuote ·) = true) :
    Captures (seq (literal mark) (group 1 unquotedText))
      fun argument message => argument = mark.toList ++ message ∧ message ≠ [] := by
  intro text j o
  have hrun : (seq (seq (literal mark) (group 1 unquotedText)) quote).run Cursor.finish
      (ofIndex text j) = markAndMessage mark (ofIndex text j) := rfl
  rw [hrun, markAndMessage_iff hmark (Nat.le_refl j) (Text.le_runEnd _ text j)]
  constructor
  · rintro ⟨hoccurs, b, hb, hlt, rfl⟩
    have hle := Nat.le_of_lt hb.lt_length
    obtain ⟨heq, hne⟩ :=
      (Text.slice_eq_append_iff hle).mpr ⟨j, Nat.le_refl j, hoccurs, hlt, rfl, rfl⟩
    rw [Text.slice_self, List.nil_append] at heq
    refine ⟨b, _, hb, ⟨heq, hne⟩, ?_⟩
    rw [Text.length_slice hle, Nat.sub_sub_self (Nat.le_of_lt hlt)]
  · rintro ⟨b, message, hb, hparts, rfl⟩
    have hle := Nat.le_of_lt hb.lt_length
    rw [← List.nil_append mark.toList] at hparts
    obtain ⟨e, hje, hoccurs, hlt, hbefore, rfl⟩ := (Text.slice_eq_append_iff hle).mp hparts
    have hlength := congrArg List.length hbefore
    rw [List.length_nil, Text.length_slice (by omega)] at hlength
    obtain rfl : j = e := by omega
    refine ⟨hoccurs, b, hb, hlt, ?_⟩
    rw [Text.length_slice hle, Nat.sub_sub_self (Nat.le_of_lt hlt)]

/-- Of all marks at which the argument can be read on, greedy reading takes the last one. -/
theorem captures_lastMark {mark : String} (hmark : mark.toList.all (!Text.isQuote ·) = true) :
    Captures (seqAll [unquotedText, literal mark, group 1 unquotedText])
      (Text.BehindLast mark.toList) := by
  intro text j o
  have hrun : (seq (seqAll [unquotedText, literal mark, group 1 unquotedText]) quote).run
      Cursor.finish (ofIndex text j) =
        unquotedText.run (markAndMessage mark) (ofIndex text j) := rfl
  rw [hrun, unquotedText, run_plus_set_eq_some_iff, contains_unquoted]
  constructor
  · rintro ⟨e, hje, hrunEnd, hmarked, hlater⟩
    obtain ⟨hoccurs, b, hb, hlt, rfl⟩ :=
      (markAndMessage_iff hmark (Nat.le_of_lt hje) hrunEnd).mp hmarked
    have hle := Nat.le_of_lt hb.lt_length
    have hparted := (Text.parted_slice_iff hle).mpr ⟨e, hje, hoccurs, hlt, rfl, rfl⟩
    refine ⟨b, _, hb, ⟨_, hparted, ?_⟩, ?_⟩
    · intro before behind hparted'
      obtain ⟨e', hje', hoccurs', hlt', rfl, rfl⟩ := (Text.parted_slice_iff hle).mp hparted'
      have hrunEnd' : e' ≤ Text.runEnd (!Text.isQuote ·) text j := by
        rw [hb.runEnd_eq]
        omega
      have hmarked' := (markAndMessage_iff hmark (Nat.le_of_lt hje') hrunEnd').mpr
        ⟨hoccurs', b, hb, hlt', rfl⟩
      have hnot : ¬ e < e' := by
        intro hee'
        rw [hlater e' hee' hrunEnd'] at hmarked'
        cases hmarked'
      rw [Text.length_slice (by omega), Text.length_slice (by omega)]
      omega
    · rw [Text.length_slice hle, Nat.sub_sub_self (Nat.le_of_lt hlt)]
  · rintro ⟨b, message, hb, ⟨before, hparted, hlast⟩, rfl⟩
    have hle := Nat.le_of_lt hb.lt_length
    obtain ⟨e, hje, hoccurs, hlt, rfl, rfl⟩ := (Text.parted_slice_iff hle).mp hparted
    have hrunEnd : e ≤ Text.runEnd (!Text.isQuote ·) text j := by
      rw [hb.runEnd_eq]
      omega
    refine ⟨e, hje, hrunEnd, (markAndMessage_iff hmark (Nat.le_of_lt hje) hrunEnd).mpr
      ⟨hoccurs, b, hb, hlt, ?_⟩, ?_⟩
    · rw [Text.length_slice hle, Nat.sub_sub_self (Nat.le_of_lt hlt)]
    · intro e' hee' hrunEnd'
      cases hmarked : markAndMessage mark (ofIndex text e') with
      | none => rfl
      | some o =>
        obtain ⟨hoccurs', b', hb', hlt', _⟩ :=
          (markAndMessage_iff hmark (by omega) hrunEnd').mp hmarked
        obtain rfl := hb.unique hb'
        have hshorter := hlast _ _
          ((Text.parted_slice_iff hle).mpr ⟨e', by omega, hoccurs', hlt', rfl, rfl⟩)
        rw [Text.length_slice (by omega), Text.length_slice (by omega)] at hshorter
        omega

end Pattern

open Pattern

namespace Occurrence

def piece (m : Occurrence) (text : List Char) : List Char := Text.slice text m.first m.stop

end Occurrence

theorem Rules.messageName_matchAs {p : Pattern} (hp : 0 < p.groupCount) {text : String}
    {lines : LineIndex} {m : Occurrence} (h : p.OccursAs text.toList m) :
    messageName (p.matchAs text lines m) = String.ofList (m.captured text.toList) := by
  rw [messageName, matchAs, group_matchOf hp, Occurrence.captured]
  cases hgroup : m.outcome.group 1 with
  | none => rfl
  | some span =>
    have hle := Outcome.le_of_group (first_le_index_of_occursAs h) hgroup
    exact Cursor.slice_ofIndex hle span.2

/-- The rules that report the name of an IRC message. -/
inductive MessageRule where
  | modifierIrcIn
  | signalIrcOut
  | signalIrcOuttags
  deriving DecidableEq, Repr

namespace MessageRule

def rule : MessageRule → Rule
  | modifierIrcIn => ⟨.modifierIrcIn, .warning, none, Rules.modifierIrcIn⟩
  | signalIrcOut => ⟨.signalIrcOut, .warning, none, Rules.signalIrcOut⟩
  | signalIrcOuttags => ⟨.signalIrcOuttags, .warning, none, Rules.signalIrcOuttags⟩

def pattern : MessageRule → Pattern
  | modifierIrcIn => Rules.modifierPattern
  | signalIrcOut => Rules.signalPattern "irc_out_"
  | signalIrcOuttags => Rules.signalPattern "irc_outtags_"

def function : MessageRule → String
  | modifierIrcIn => "hook_modifier"
  | signalIrcOut | signalIrcOuttags => "hook_signal"

/-- The message that an argument names. -/
def Names : MessageRule → List Char → List Char → Prop
  | modifierIrcIn => fun argument message =>
    argument = "irc_in_".toList ++ message ∧ message ≠ []
  | signalIrcOut => Text.BehindLast ",irc_out_".toList
  | signalIrcOuttags => Text.BehindLast ",irc_outtags_".toList

/-- The piece of a text is a call of the function with an argument that names the message. -/
def Calls (r : MessageRule) (piece message : List Char) : Prop :=
  ∃ argument, Text.QuotedCall r.function piece argument ∧ r.Names argument message

def kind : MessageRule → String
  | modifierIrcIn => "modifier"
  | signalIrcOut | signalIrcOuttags => "signal"

def oldName : MessageRule → String
  | modifierIrcIn => "irc_in_"
  | signalIrcOut => "irc_out_"
  | signalIrcOuttags => "irc_outtags_"

def newName : MessageRule → String
  | modifierIrcIn => "irc_in2_"
  | signalIrcOut | signalIrcOuttags => "irc_out1_"

/-- The text of a finding on a message. -/
def report (r : MessageRule) (message : String) : String :=
  r.kind ++ " " ++ r.oldName ++ message ++ " should be replaced by " ++ r.newName ++ message ++
    " which sends only valid UTF-8 data"

theorem exists_captures (r : MessageRule) :
    ∃ q : Pattern, r.pattern = call (literal r.function) (quoted q) ∧ q.Captures r.Names := by
  cases r with
  | modifierIrcIn => exact ⟨_, rfl, captures_mark rfl⟩
  | signalIrcOut => exact ⟨_, rfl, captures_lastMark rfl⟩
  | signalIrcOuttags => exact ⟨_, rfl, captures_lastMark rfl⟩

variable {r : MessageRule} {text argument message : List Char} {i j b : Nat} {o : Outcome}

theorem run_iff : r.pattern.run Cursor.finish (.ofIndex text i) = some o ↔
    ∃ a b message, Text.CallAt r.function text i a b ∧
      r.Names (Text.slice text (a + 1) b) message ∧
        o = ⟨b + 1, [.opened 1 (b - message.length), .closed 1 b]⟩ := by
  obtain ⟨q, hpattern, hq⟩ := r.exists_captures
  have hquoted : quoted q = seq quote (seq q quote) := rfl
  rw [hpattern, hquoted, run_quotedCall_iff, hq]
  constructor
  · rintro ⟨hoccurs, hopening, b, message, hclosing, hnames, ho⟩
    exact ⟨_, b, message, ⟨hoccurs, rfl, hopening, hclosing⟩, hnames, ho⟩
  · rintro ⟨a, b, message, ⟨hoccurs, rfl, hopening, hclosing⟩, hnames, ho⟩
    exact ⟨hoccurs, hopening, b, message, hclosing, hnames, ho⟩

/-- A message is the end of the argument that names it. -/
theorem Names.exists_eq (h : r.Names argument message) :
    ∃ before mark, argument = before ++ mark ++ message ∧ message ≠ [] := by
  cases r with
  | modifierIrcIn => exact ⟨[], _, h⟩
  | signalIrcOut | signalIrcOuttags =>
    obtain ⟨before, hparted, _⟩ := h
    exact ⟨before, _, hparted.eq, hparted.behind_ne⟩

theorem Names.slice_eq (h : r.Names (Text.slice text j b) message) (hb : b ≤ text.length) :
    Text.slice text (b - message.length) b = message := by
  obtain ⟨before, mark, hparts⟩ := h.exists_eq
  obtain ⟨e, _, _, hlt, _, rfl⟩ := (Text.slice_eq_append_iff hb).mp hparts
  rw [Text.length_slice hb, Nat.sub_sub_self (Nat.le_of_lt hlt)]

/-- An occurrence is a call, and the group holds the message that its argument names. -/
theorem calls_of_occursAs {m : Occurrence} (h : r.pattern.OccursAs text m) :
    r.Calls (m.piece text) (m.captured text) := by
  obtain ⟨i, o⟩ := m
  obtain ⟨a, b, message, hcall, hnames, rfl⟩ := run_iff.mp h.2
  have hb := Nat.le_of_lt hcall.closing.lt_length
  have hcaptured : Occurrence.captured
      ⟨i, ⟨b + 1, [.opened 1 (b - message.length), .closed 1 b]⟩⟩ text = message :=
    hnames.slice_eq hb
  rw [hcaptured]
  exact ⟨_, (Text.quotedCall_iff.mpr ⟨a, b, hcall, rfl, rfl⟩).2, hnames⟩

/-- The pattern occurs wherever such a call is written. -/
theorem exists_occursAs_iff : (∃ o, r.pattern.OccursAs text ⟨i, o⟩) ↔
    ∃ piece message, piece <+: text.drop i ∧ r.Calls piece message := by
  constructor
  · rintro ⟨o, h⟩
    exact ⟨_, _, List.take_prefix _ _, calls_of_occursAs h⟩
  · rintro ⟨piece, message, hpiece, argument, hquoted, hnames⟩
    obtain ⟨a, b, hcall, _, rfl⟩ := Text.quotedCall_iff.mp ⟨hpiece, hquoted⟩
    have hlt := hcall.closing.lt_length
    have hle := hcall.closing.before.le
    have hopening := Text.le_argumentAt text (i + r.function.toList.length)
    have hi : i ≤ text.length := by
      rw [← hcall.opening_eq] at hopening
      omega
    exact ⟨_, hi, run_iff.mpr ⟨a, b, message, hcall, hnames, rfl⟩⟩

theorem fill_template (r : MessageRule) (message : String) :
    Template.fill r.rule.name.entry.template (.message message) = .ok (r.report message) := by
  have htemplate : r.rule.name.entry.template = renamedTemplate r.kind r.oldName r.newName := by
    cases r <;> rfl
  have hbare : '\x7b' ∉ (r.kind ++ " " ++ r.oldName).toList ∧
      '\x7b' ∉ (" should be replaced by " ++ r.newName).toList := by
    cases r <;> decide
  have hname : Text.IsLowerName "message" := ⟨by decide, by simp⟩
  have hwritten : (renamedTemplate r.kind r.oldName r.newName).toList =
      (r.kind ++ " " ++ r.oldName).toList ++ (Text.braced "message" ++
        ((" should be replaced by " ++ r.newName).toList ++ (Text.braced "message" ++
          " which sends only valid UTF-8 data".toList))) := by
    simp [renamedTemplate, Text.braced]
  have hreport : (r.report message).toList =
      (r.kind ++ " " ++ r.oldName).toList ++ (message.toList ++
        ((" should be replaced by " ++ r.newName).toList ++ (message.toList ++
          " which sends only valid UTF-8 data".toList))) := by
    simp [report]
  rw [Template.fill_eq_ok_iff, htemplate, hwritten, hreport]
  refine .next (Text.bare_of_not_mem hbare.1) hname rfl ?_
  refine .next (Text.bare_of_not_mem hbare.2) hname rfl ?_
  exact .done (Text.bare_of_not_mem (by decide))

theorem ofRule_eq (r : MessageRule) (line : Nat) (message : String) :
    Finding.ofRule r.rule.name line (.message message) =
      .ok ⟨.warning, r.rule.name, line, r.report message, -5⟩ := by
  rw [Finding.ofRule_eq_ok_iff]
  refine ⟨_, r.fill_template message, ?_⟩
  cases r <;> rfl

theorem rule_mem_table (r : MessageRule) : r.rule ∈ Rule.table := by
  cases r <;> simp [rule, Rule.table]

theorem passes_pattern (r : MessageRule) : r.pattern.passes 1 = true := by
  cases r <;> decide

/-- A rule has a hit on each call that the search keeps, with the message that the call names. -/
theorem detect_eq (r : MessageRule) (s : Source) :
    r.rule.detect s = .ok ((s.kept r.pattern).map fun m =>
      ⟨Text.lineOf s.chars m.first, .message (String.ofList (m.captured s.chars))⟩) := by
  have hdetect : r.rule.detect = Rules.messageHits r.pattern := by cases r <;> rfl
  rw [hdetect, Rule.messageHits_eq_kept r.passes_pattern]
  refine congrArg Except.ok (List.map_congr_left fun m hm => ?_)
  have hoccurs := occursAs_of_mem_taken (List.mem_filter.mp hm).1
  rw [Rule.messageHit, Rules.messageName_matchAs (le_groupCount_of_passes r.passes_pattern) hoccurs]
  rfl

theorem findings_eq (r : MessageRule) (s : Source) :
    r.rule.findings s = .ok ((s.kept r.pattern).map fun m =>
      ⟨.warning, r.rule.name, Text.lineOf s.chars m.first,
        r.report (String.ofList (m.captured s.chars)), -5⟩) := by
  have happlies : r.rule.appliesTo s = true := by cases r <;> rfl
  have hseverity : r.rule.name.entry.severity = r.rule.severity := by cases r <;> rfl
  simp only [Rule.findings, happlies, hseverity, r.detect_eq, Bool.not_true, Bool.false_eq_true,
    ne_eq, not_true_eq_false, if_false]
  rw [List.mapM_map]
  exact mapM_eq_ok_map fun m _ => r.ofRule_eq _ _

theorem count_piece_le {s : Source} {m : Occurrence} (h : m ∈ s.kept r.pattern) :
    (m.piece s.chars).count '\n' ≤ 1 :=
  Nat.le_of_succ_le_succ (of_decide_eq_true (List.mem_filter.mp h).2)

/-- A rule reports the message of each call that the search keeps, twice in the text of the finding.
The piece of the text is a call on at most two lines whose argument names this message, and the
pattern of the rule occurs nowhere but where such a call is written. -/
theorem detect_captures (r : MessageRule) (s : Source) :
    r.rule ∈ Rule.table ∧
    r.rule.detect s = .ok ((s.kept r.pattern).map fun m =>
      ⟨Text.lineOf s.chars m.first, .message (String.ofList (m.captured s.chars))⟩) ∧
    r.rule.findings s = .ok ((s.kept r.pattern).map fun m =>
      ⟨.warning, r.rule.name, Text.lineOf s.chars m.first,
        r.report (String.ofList (m.captured s.chars)), -5⟩) ∧
    (∀ m ∈ s.kept r.pattern, r.Calls (m.piece s.chars) (m.captured s.chars) ∧
      (m.piece s.chars).count '\n' ≤ 1) ∧
    ∀ i, (∃ o, r.pattern.OccursAs s.chars ⟨i, o⟩) ↔
      ∃ piece message, piece <+: s.chars.drop i ∧ r.Calls piece message :=
  ⟨r.rule_mem_table, r.detect_eq s, r.findings_eq s,
    fun _ hm => ⟨calls_of_occursAs (occursAs_of_mem_taken (List.mem_filter.mp hm).1),
      count_piece_le hm⟩,
    fun _ => exists_occursAs_iff⟩

-- the mark at the very end does not count, so it is a part of the message
example : Rules.signalIrcOut ⟨Path.ofString "a.py", "hook_signal('irc_raw,irc_out_a,irc_out_')"⟩ =
    .ok [⟨1, .message "a,irc_out_"⟩] := by decide +kernel

end MessageRule
end ScriptAudit
