import ScriptAudit.Proofs.Rules.Quotation

/-! # Calls as they are written

A call is written with a name of the function, separators and an argument in quotation marks. Some
rules look for such calls with separators on at most two lines, and have a hit for every one of
them: the separators and the argument are forced, and no call starts inside another one. Main
statements: `CallForm.lines_search` and `detect_calls`.
-/
namespace ScriptAudit.Rules
open Pattern
open Cursor (ofIndex)

/-- How a call is written: the names of the function, and what may stand behind the quotation mark
that opens its first argument. -/
structure CallForm where
  names : List String
  arguments : List String

namespace CallForm

/-- Whether a text goes on as a call does behind the name: with separators that hold at most one
line feed, a quotation mark and an argument. -/
def goesOn (f : CallForm) (behind : List Char) : Bool :=
  (behind.takeWhile Text.isSeparator).count '\n' ≤ 1 &&
    match behind.dropWhile Text.isSeparator with
    | [] => false
    | c :: rest => Text.isQuote c && f.arguments.any (·.toList.isPrefixOf rest)

def isAt (f : CallForm) (cs : List Char) (i : Nat) : Bool :=
  f.names.any fun name =>
    Text.occursAt name.toList cs i && f.goesOn (cs.drop (i + name.toList.length))

/-- All places at which a call is written, from left to right. -/
def places (f : CallForm) (cs : List Char) : List Nat :=
  (List.range (cs.length + 1)).filter (f.isAt cs)

/-- Where the first argument of a call by this name is. -/
def argumentOf (cs : List Char) (i : Nat) (name : String) : Nat :=
  Text.argumentAt cs (i + name.toList.length)

/-- Where a call by this name with this argument ends. -/
def stopOf (cs : List Char) (i : Nat) (name argument : String) : Nat :=
  argumentOf cs i name + 1 + argument.toList.length

/-- A call with this name and this argument, however many lines lie between the two. -/
structure Spelled (f : CallForm) (cs : List Char) (i : Nat) (name argument : String) : Prop where
  name_mem : name ∈ f.names
  name_occurs : Text.occursAt name.toList cs i = true
  quote : cs[argumentOf cs i name]?.any Text.isQuote = true
  argument_mem : argument ∈ f.arguments
  argument_occurs : Text.occursAt argument.toList cs (argumentOf cs i name + 1) = true

variable {f : CallForm} {cs : List Char} {i j : Nat} {name argument name' argument' : String}

theorem goesOn_drop_iff (f : CallForm) (cs : List Char) (j : Nat) :
    f.goesOn (cs.drop j) = true ↔
      (Text.slice cs j (Text.argumentAt cs j)).count '\n' ≤ 1 ∧
        cs[Text.argumentAt cs j]?.any Text.isQuote = true ∧
          ∃ argument ∈ f.arguments,
            Text.occursAt argument.toList cs (Text.argumentAt cs j + 1) = true := by
  rw [goesOn, Bool.and_eq_true, decide_eq_true_iff, ← Text.slice_runEnd, ← Text.drop_runEnd]
  refine and_congr_right fun _ => ?_
  change (match cs.drop (Text.argumentAt cs j) with
    | [] => false
    | c :: rest => Text.isQuote c && f.arguments.any (·.toList.isPrefixOf rest)) = true ↔ _
  rw [← List.head?_drop]
  cases hrest : cs.drop (Text.argumentAt cs j) with
  | nil => simp
  | cons c rest =>
    have hnext : cs.drop (Text.argumentAt cs j + 1) = rest := by rw [← List.drop_drop, hrest]; rfl
    rw [Bool.and_eq_true, List.any_eq_true, List.head?_cons, Option.any_some]
    unfold Text.occursAt
    rw [hnext]

theorem isAt_iff : f.isAt cs i = true ↔ ∃ name argument, f.Spelled cs i name argument ∧
    (Text.slice cs (i + name.toList.length) (argumentOf cs i name)).count '\n' ≤ 1 := by
  rw [isAt, List.any_eq_true]
  constructor
  · rintro ⟨name, hname, h⟩
    obtain ⟨hoccurs, h⟩ := Bool.and_eq_true_iff.mp h
    obtain ⟨hfeeds, hquote, argument, hmem, hargument⟩ := (f.goesOn_drop_iff cs _).mp h
    exact ⟨name, argument, ⟨hname, hoccurs, hquote, hmem, hargument⟩, hfeeds⟩
  · rintro ⟨name, argument, h, hfeeds⟩
    refine ⟨name, h.name_mem, Bool.and_eq_true_iff.mpr ⟨h.name_occurs, ?_⟩⟩
    exact (f.goesOn_drop_iff cs _).mpr
      ⟨hfeeds, h.quote, argument, h.argument_mem, h.argument_occurs⟩

/-- No line feed is in a name or in an argument, and no name starts inside a call. -/
structure WellFormed (f : CallForm) : Prop where
  names : ∀ name ∈ f.names, '\n' ∉ name.toList ∧
    name.toList.head?.any (fun c => !Text.isSeparator c && !Text.isQuote c) = true ∧
      ∀ other ∈ f.names, Text.Apart 1 name.toList other.toList
  arguments : ∀ argument ∈ f.arguments, '\n' ∉ argument.toList ∧
    ∀ name ∈ f.names, Text.Apart 0 argument.toList name.toList

namespace Spelled

/-- The first character of a name is none of those between the name and the argument. -/
theorem exists_first (hf : f.WellFormed) (h : f.Spelled cs i name argument) :
    ∃ c, cs[i]? = some c ∧ Text.isSeparator c = false ∧ Text.isQuote c = false := by
  obtain ⟨_, hfirst, _⟩ := hf.names name h.name_mem
  obtain ⟨c, hc, hnot⟩ := (Option.any_eq_true _ _).mp hfirst
  obtain ⟨rest, hrest⟩ := List.head?_eq_some_iff.mp hc
  have hoccurs := h.name_occurs
  rw [hrest, Text.occursAt_cons] at hoccurs
  exact ⟨c, hoccurs.1, by simpa using hnot⟩

theorem exists_quote (h : f.Spelled cs i name argument) :
    ∃ c, cs[argumentOf cs i name]? = some c ∧ Text.isQuote c = true :=
  (Option.any_eq_true _ _).mp h.quote

theorem lt_stopOf (i : Nat) : i < stopOf cs i name argument := by
  have hle := Text.le_runEnd Text.isSeparator cs (i + name.toList.length)
  unfold stopOf argumentOf Text.argumentAt
  omega

/-- A call ends before another one starts. -/
theorem stopOf_le (hf : f.WellFormed) (h : f.Spelled cs i name argument)
    (h' : f.Spelled cs j name' argument') (hlt : i < j) : stopOf cs i name argument ≤ j := by
  obtain ⟨c, hc, hseparator, hnotQuote⟩ := h'.exists_first hf
  obtain ⟨d, hd, hquote⟩ := h.exists_quote
  have hapart := (hf.names name h.name_mem).2.2 name' h'.name_mem
  have hname : i + name.toList.length ≤ j := hapart.add_length_le h.name_occurs h'.name_occurs hlt
  have hgap : argumentOf cs i name ≤ j :=
    ((Text.covers_runEnd _ cs _).ne_of_getElem? hseparator hc).resolve_left (Nat.not_lt_of_le hname)
  have hne : argumentOf cs i name ≠ j := by
    rintro rfl
    obtain rfl : c = d := Option.some.inj (hc.symm.trans hd)
    rw [hquote] at hnotQuote
    cases hnotQuote
  exact ((hf.arguments argument h.argument_mem).2 name' h'.name_mem).add_length_le
    h.argument_occurs h'.name_occurs (by omega)

/-- All line feeds of a call are between its name and its argument. -/
theorem count_slice (hf : f.WellFormed) (h : f.Spelled cs i name argument) :
    (Text.slice cs i (stopOf cs i name argument)).count '\n' =
      (Text.slice cs (i + name.toList.length) (argumentOf cs i name)).count '\n' := by
  obtain ⟨c, hc, hquote⟩ := h.exists_quote
  have hfeed : '\n' ∉ [c] := by
    rintro hmem
    rw [← List.mem_singleton.mp hmem] at hquote
    cases hquote
  have hwhole : Text.slice cs i (stopOf cs i name argument) =
      name.toList ++ Text.slice cs (i + name.toList.length) (argumentOf cs i name) ++ [c] ++
        argument.toList := by
    have hle : i ≤ argumentOf cs i name + 1 :=
      Nat.le_succ_of_le (Nat.le_trans (Nat.le_add_right i _) (Text.le_argumentAt cs _))
    have hargument : Text.slice cs (argumentOf cs i name + 1) (stopOf cs i name argument) =
        argument.toList := Text.slice_of_occursAt h.argument_occurs
    have hstop : argumentOf cs i name + 1 ≤ stopOf cs i name argument := Nat.le_add_right _ _
    rw [← Text.slice_append hle hstop, hargument]
    exact congrArg (· ++ argument.toList) (Text.slice_argumentAt h.name_occurs hc)
  rw [hwhole, List.count_append, List.count_append, List.count_append,
    List.count_eq_zero_of_not_mem (hf.names name h.name_mem).1,
    List.count_eq_zero_of_not_mem (hf.arguments argument h.argument_mem).1,
    List.count_eq_zero_of_not_mem hfeed]
  omega

end Spelled

/-- The pattern reads the calls of this form and nothing else. -/
def Denotes (f : CallForm) (p : Pattern) : Prop :=
  ∀ text i o, p.run Cursor.finish (ofIndex text i) = some o ↔
    ∃ name argument, f.Spelled text i name argument ∧ o = ⟨stopOf text i name argument, []⟩

variable {p : Pattern}

theorem Denotes.separate (hp : f.Denotes p) (hf : f.WellFormed) (text : List Char) :
    p.Separate text := by
  intro m n hm hn hlt
  obtain ⟨name, argument, h, hstop⟩ := (hp text _ _).mp hm.2
  obtain ⟨name', argument', h', hstop'⟩ := (hp text _ _).mp hn.2
  have hle := h.stopOf_le hf h' hlt
  have hlt' : n.first < stopOf text n.first name' argument' := Spelled.lt_stopOf n.first
  simp only [Occurrence.stop, hstop, hstop']
  omega

/-- A search on at most two lines finds each call of the form, and nothing else. -/
theorem lines_search (hp : f.Denotes p) (hf : f.WellFormed) (s : Source) :
    (s.search p 2).map (·.line) = (f.places s.chars).map (Text.lineOf s.chars) := by
  rw [Source.lines_search_of_separate (hp.separate hf s.chars), places]
  congr 1
  apply List.filter_congr
  intro i _
  rw [Bool.eq_iff_iff, Option.any_eq_true, isAt_iff]
  constructor
  · rintro ⟨o, ho, hspan⟩
    obtain ⟨name, argument, h, rfl⟩ := (hp s.chars i o).mp ho
    refine ⟨name, argument, h, ?_⟩
    rw [← h.count_slice hf]
    exact Nat.le_of_succ_le_succ (of_decide_eq_true hspan)
  · rintro ⟨name, argument, h, hfeeds⟩
    refine ⟨_, (hp s.chars i _).mpr ⟨name, argument, h, rfl⟩, decide_eq_true ?_⟩
    rw [← h.count_slice hf] at hfeeds
    exact Nat.succ_le_succ hfeeds

/-- A pattern denotes a form if what stands in front of the separators reads the names, and what
follows the quotation mark reads the arguments. -/
theorem denotes_call {q : Pattern}
    (hp : ∀ text i o, p.run ((seq gap (seq quote q)).run Cursor.finish) (ofIndex text i) = some o ↔
      ∃ name ∈ f.names, Text.occursAt name.toList text i = true ∧
        (seq gap (seq quote q)).run Cursor.finish
          (ofIndex text (i + name.toList.length)) = some o)
    (hq : ∀ text i o, q.run Cursor.finish (ofIndex text i) = some o ↔
      ∃ argument ∈ f.arguments, Text.occursAt argument.toList text i = true ∧
        o = ⟨i + argument.toList.length, []⟩) :
    f.Denotes (call p (seq quote q)) := by
  intro text i o
  rw [run_call_quote, hp]
  simp only [run_gap_quote, Option.ite_none_right_eq_some, hq]
  constructor
  · rintro ⟨name, hname, hoccurs, hquote, argument, hargument, hoccurs', rfl⟩
    exact ⟨name, argument, ⟨hname, hoccurs, hquote, hargument, hoccurs'⟩, rfl⟩
  · rintro ⟨name, argument, h, rfl⟩
    exact ⟨name, h.name_mem, h.name_occurs, h.quote, argument, h.argument_mem,
      h.argument_occurs, rfl⟩

end CallForm

/-! The calls that the rules look for. -/

/-- The word with a quotation mark of either kind behind it. -/
def closed (word : String) : List String := ['"', '\''].map word.push

def infoForm (info : String) : CallForm := ⟨["info_get"], closed info⟩

def processUrlForm : CallForm := ⟨["hook_process", "hook_process_hashtable"], ["url:"]⟩

-- a call over two lines, between quotation marks that are not alike
example : (infoForm "python2_bin").places "x = info_get (,\n\"python2_bin')".toList = [4] := by
  decide

theorem mem_closed_iff {word argument : String} :
    argument ∈ closed word ↔ ∃ c, Text.isQuote c = true ∧ word.push c = argument := by
  simp [closed, Text.isQuote, or_and_right, exists_or, eq_comm (a := argument)]

theorem run_literal_eq_some_iff {word : String} {k : Continuation} {text : List Char} {i : Nat}
    {o : Outcome} : (literal word).run k (ofIndex text i) = some o ↔
      Text.occursAt word.toList text i = true ∧
        k (ofIndex text (i + word.toList.length)) = some o := by
  rw [run_literal, Option.ite_none_right_eq_some]

theorem run_closed_iff {word : String} {text : List Char} {i : Nat} {o : Outcome} :
    (seq (literal word) quote).run Cursor.finish (ofIndex text i) = some o ↔
      ∃ argument ∈ closed word, Text.occursAt argument.toList text i = true ∧
        o = ⟨i + argument.toList.length, []⟩ := by
  have hrun : (seq (literal word) quote).run Cursor.finish (ofIndex text i) =
      (literal word).run (quote.run Cursor.finish) (ofIndex text i) := rfl
  rw [hrun, run_literal_eq_some_iff, run_quote, Option.ite_none_right_eq_some, Option.any_eq_true]
  constructor
  · rintro ⟨hword, ⟨c, hc, hquote⟩, h⟩
    refine ⟨_, mem_closed_iff.mpr ⟨c, hquote, rfl⟩, ?_⟩
    rw [String.toList_push, Text.occursAt_append, Text.occursAt_singleton, List.length_append]
    exact ⟨⟨hword, hc⟩, (Option.some.inj h).symm⟩
  · rintro ⟨argument, hmem, hoccurs, rfl⟩
    obtain ⟨c, hquote, rfl⟩ := mem_closed_iff.mp hmem
    rw [String.toList_push, Text.occursAt_append, Text.occursAt_singleton] at hoccurs
    rw [String.toList_push, List.length_append]
    exact ⟨hoccurs.1, ⟨c, hoccurs.2, hquote⟩, rfl⟩

theorem denotes_infoGet (info : String) : (infoForm info).Denotes (infoGet info) := by
  refine CallForm.denotes_call (fun text i o => ?_) fun _ _ _ => run_closed_iff
  rw [run_literal_eq_some_iff]
  simp only [infoForm, List.mem_singleton, exists_eq_left]

/-- Neither a separator nor a quotation mark follows the shorter name within the longer one. -/
theorem run_gap_quote_of_hashtable {q : Pattern} {k : Continuation} {text : List Char} {i : Nat}
    (h : Text.occursAt "_hashtable".toList text i = true) :
    (seq gap (seq quote q)).run k (ofIndex text i) = none := by
  have hc : text[i]? = some '_' := (Text.occursAt_cons.mp h).1
  rw [run_gap_quote, Text.argumentAt_of_not_isSeparator hc (by decide), hc]
  rfl

theorem run_hook_process_iff {q : Pattern} {k : Continuation} {text : List Char} {i : Nat}
    {o : Outcome} :
    (seq (literal "hook_process") ((literal "_hashtable").optional true)).run
        ((seq gap (seq quote q)).run k) (ofIndex text i) = some o ↔
      ∃ name ∈ processUrlForm.names, Text.occursAt name.toList text i = true ∧
        (seq gap (seq quote q)).run k (ofIndex text (i + name.toList.length)) = some o := by
  have hlong : "hook_process_hashtable".toList = "hook_process".toList ++ "_hashtable".toList := rfl
  have hrun : (seq (literal "hook_process") ((literal "_hashtable").optional true)).run
        ((seq gap (seq quote q)).run k) (ofIndex text i) =
      (literal "hook_process").run (fun s =>
        ((literal "_hashtable").run ((seq gap (seq quote q)).run k) s <|>
          (seq gap (seq quote q)).run k s)) (ofIndex text i) := rfl
  simp only [processUrlForm, List.mem_cons, List.not_mem_nil, or_false, exists_eq_or_imp,
    exists_eq_left, hlong, Text.occursAt_append, List.length_append]
  rw [hrun, run_literal_eq_some_iff, run_literal]
  cases hashtable : Text.occursAt "_hashtable".toList text (i + "hook_process".toList.length) with
  | true =>
    rw [run_gap_quote_of_hashtable hashtable]
    simp [Nat.add_assoc]
  | false => simp

theorem denotes_processUrl : processUrlForm.Denotes processUrlPattern := by
  refine CallForm.denotes_call (fun text i o => run_hook_process_iff) fun text i o => ?_
  rw [run_literal_eq_some_iff, Cursor.finish, Option.some.injEq]
  simp only [processUrlForm, List.mem_singleton, exists_eq_left, Cursor.index_ofIndex,
    eq_comm (a := o)]

/-- The calls that rules report or count. -/
inductive SoughtCall where
  | python2Bin
  | ircNickColor
  | nickColor
  | ircNickColorName
  | nickColorName
  | processUrl
  deriving DecidableEq, Repr

namespace SoughtCall

def pattern : SoughtCall → Pattern
  | python2Bin => infoGet "python2_bin"
  | ircNickColor => infoGet "irc_nick_color"
  | nickColor => infoGet "nick_color"
  | ircNickColorName => infoGet "irc_nick_color_name"
  | nickColorName => infoGet "nick_color_name"
  | processUrl => processUrlPattern

def form : SoughtCall → CallForm
  | python2Bin => infoForm "python2_bin"
  | ircNickColor => infoForm "irc_nick_color"
  | nickColor => infoForm "nick_color"
  | ircNickColorName => infoForm "irc_nick_color_name"
  | nickColorName => infoForm "nick_color_name"
  | processUrl => processUrlForm

def places (c : SoughtCall) (s : Source) : List Nat := c.form.places s.chars

/-- A hit on the line of each call. -/
def hits (c : SoughtCall) (s : Source) : List Hit :=
  (c.places s).map fun i => Hit.at (Text.lineOf s.chars i)

/-- The calls, unless there are as many of `new`. -/
def hitsUnless (old new : SoughtCall) (s : Source) : List Hit :=
  if (old.places s).length = (new.places s).length then [] else old.hits s

theorem denotes (c : SoughtCall) : c.form.Denotes c.pattern := by
  cases c with
  | processUrl => exact denotes_processUrl
  | _ => exact denotes_infoGet _

set_option maxRecDepth 2000 in
theorem wellFormed (c : SoughtCall) : c.form.WellFormed := by
  cases c <;> exact ⟨by decide, by decide⟩

theorem lines_search (c : SoughtCall) (s : Source) :
    (s.search c.pattern 2).map (·.line) = (c.places s).map (Text.lineOf s.chars) :=
  CallForm.lines_search c.denotes c.wellFormed s

theorem hits_eq (c : SoughtCall) (s : Source) : s.hits c.pattern 2 = c.hits s := by
  have hlines := congrArg (List.map Hit.at) (c.lines_search s)
  rwa [List.map_map, List.map_map] at hlines

theorem deprecated_eq (old new : SoughtCall) (s : Source) :
    deprecated old.pattern new.pattern 2 s = .ok (old.hitsUnless new s) := by
  have hlength (c : SoughtCall) : (s.search c.pattern 2).length = (c.places s).length := by
    simpa using congrArg List.length (c.lines_search s)
  unfold deprecated hitsUnless
  simp only [hlength, ← hits_eq]
  rfl

end SoughtCall

open SoughtCall in
/-- The calls that rules report or count are found where they are written, each of them once and
on its line, and the rules report these. -/
theorem detect_calls (s : Source) :
    (∀ c : SoughtCall,
      (s.search c.pattern 2).map (·.line) = (c.places s).map (Text.lineOf s.chars)) ∧
    Rules.python2Bin s = .ok (SoughtCall.python2Bin.hits s) ∧
    Rules.ircNickColor s = .ok (SoughtCall.ircNickColor.hitsUnless nickColor s) ∧
    Rules.ircNickColorName s = .ok (SoughtCall.ircNickColorName.hitsUnless nickColorName s) ∧
    hookProcessUrl s = .ok (processUrl.hits s) :=
  ⟨fun c => c.lines_search s, congrArg Except.ok (SoughtCall.python2Bin.hits_eq s),
    SoughtCall.ircNickColor.deprecated_eq nickColor s,
    SoughtCall.ircNickColorName.deprecated_eq nickColorName s,
    congrArg Except.ok (processUrl.hits_eq s)⟩

end ScriptAudit.Rules
