import ScriptAudit.Pattern.CharSet

/-! # Patterns and their meaning

A pattern reads a text from a cursor on and says where it stops. Of the ways to read it the first
in order of preference counts: the left alternative before the right one, one more round before
none where a repetition is greedy, none before one more where it is not. `Pattern.run` gives this
meaning by continuations: `p.run k s` is the outcome of the first way to read `p` at `s` after
which `k` succeeds. Groups leave marks in the outcome; the last pass through a group decides what
it captured.
-/
namespace ScriptAudit

/-- A place in a text: the characters and the bytes before it, the character just before it, and
all that follows. -/
structure Cursor where
  index : Nat
  offset : Nat
  last : Option Char
  rest : List Char
  deriving DecidableEq, Repr

namespace Cursor

def start (text : List Char) : Cursor := ⟨0, 0, none, text⟩

/-- The cursor behind `c`, when `c` is the next character and `rest` follows it. -/
def advance (s : Cursor) (c : Char) (rest : List Char) : Cursor :=
  ⟨s.index + 1, s.offset + c.utf8Size, some c, rest⟩

end Cursor

/-- What can be asked about words at a place: whether one starts or ends there, either or neither,
or just that none goes on from before or begins. -/
inductive WordEdge where
  | boundary
  | noBoundary
  | start
  | stop
  | startHalf
  | stopHalf
  deriving DecidableEq, Repr

/-- The answer, given whether the characters before and behind the place belong to words. -/
def WordEdge.holds : WordEdge → Bool → Bool → Bool
  | boundary, before, behind => before != behind
  | noBoundary, before, behind => before == behind
  | start, before, behind => !before && behind
  | stop, before, behind => before && !behind
  | startHalf, before, _ => !before
  | stopHalf, _, behind => !behind

inductive Assertion where
  | textStart
  | textEnd
  /-- Lines end with a line feed, or also with a carriage return, alone or before a line feed. -/
  | lineStart (returns : Bool)
  | lineEnd (returns : Bool)
  /-- Words of all scripts, or of ASCII characters only. -/
  | word (edge : WordEdge) (ascii : Bool)
  deriving DecidableEq, Repr

namespace Assertion

def isWordIn (ascii : Bool) (c : Char) : Bool := Unicode.isWord c && (!ascii || c.toNat < 0x80)

def holds : Assertion → Cursor → Bool
  | textStart, s => s.last.isNone
  | textEnd, s => s.rest.isEmpty
  | lineStart returns, s =>
    s.last.all fun c => c == '\n' || (returns && c == '\r' && s.rest.head? != some '\n')
  | lineEnd returns, s =>
    s.rest.head?.all fun c =>
      if returns then c == '\r' || (c == '\n' && s.last != some '\r') else c == '\n'
  | word edge ascii, s => edge.holds (s.last.any (isWordIn ascii)) (s.rest.head?.any (isWordIn ascii))

end Assertion

inductive Pattern where
  | empty
  | set (s : CharSet)
  | check (a : Assertion)
  | seq (p q : Pattern)
  | alt (p q : Pattern)
  | plus (greedy : Bool) (p : Pattern)
  | group (n : Nat) (p : Pattern)
  deriving DecidableEq, Repr

/-- The passing of a group's first or last edge at a character index. -/
inductive Mark where
  | opened (group index : Nat)
  | closed (group index : Nat)
  deriving DecidableEq, Repr

/-- Where a reading stops, and the group edges passed on the way in order. -/
structure Outcome where
  stop : Nat
  marks : List Mark
  deriving DecidableEq, Repr

namespace Outcome

def passing (m : Mark) (o : Outcome) : Outcome := { o with marks := m :: o.marks }

def lastOpened (o : Outcome) (n : Nat) : Option Nat :=
  o.marks.foldl (fun found m => match m with
    | .opened g i => if g = n then some i else found
    | .closed _ _ => found) none

def lastClosed (o : Outcome) (n : Nat) : Option Nat :=
  o.marks.foldl (fun found m => match m with
    | .closed g i => if g = n then some i else found
    | .opened _ _ => found) none

/-- The indices between which group `n` was last passed; `none` when it took no part. -/
def group (o : Outcome) (n : Nat) : Option (Nat × Nat) :=
  match o.lastOpened n, o.lastClosed n with
  | some i, some j => some (i, j)
  | _, _ => none

end Outcome

/-- What is still to be read: the outcome from a cursor on, if there is one. -/
abbrev Continuation := Cursor → Option Outcome

def Cursor.finish (s : Cursor) : Option Outcome := some ⟨s.index, []⟩

namespace Pattern

/-- Chooses between going round once more and going on. -/
def prefer (greedy : Bool) (more on : Option Outcome) : Option Outcome :=
  if greedy then more <|> on else on <|> more

/-- Further rounds of a repetition, each of which has to read something. -/
def again (greedy : Bool) (body : Continuation → Continuation) (k : Continuation) :
    Nat → Continuation
  | 0, s => k s
  | rounds + 1, s =>
    prefer greedy
      (body (fun t => if s.index < t.index then again greedy body k rounds t else none) s) (k s)

/-- The outcome of the preferred reading. Only the first round of a repetition may read nothing,
and then it is the only one. -/
def run : Pattern → Continuation → Continuation
  | empty, k, s => k s
  | set cs, k, s =>
    match s.rest with
    | [] => none
    | c :: rest => if cs.contains c then k (s.advance c rest) else none
  | check a, k, s => if a.holds s then k s else none
  | seq p q, k, s => p.run (q.run k) s
  | alt p q, k, s => p.run k s <|> q.run k s
  | plus greedy p, k, s =>
    p.run (fun t => if s.index < t.index then again greedy p.run k t.rest.length t else k t) s
  | group n p, k, s =>
    (p.run (fun t => (k t).map (·.passing (.closed n t.index))) s).map
      (·.passing (.opened n s.index))

def groupCount : Pattern → Nat
  | empty | set _ | check _ => 0
  | seq p q | alt p q => max p.groupCount q.groupCount
  | plus _ p => p.groupCount
  | group n p => max n p.groupCount

def size : Pattern → Nat
  | empty | set _ | check _ => 1
  | seq p q | alt p q => p.size + q.size + 1
  | plus _ p | group _ p => p.size + 1

/-! Derived forms. -/

def seqAll : List Pattern → Pattern
  | [] => empty
  | [p] => p
  | p :: ps => seq p (seqAll ps)

def altAll : List Pattern → Pattern
  | [] => empty
  | [p] => p
  | p :: ps => alt p (altAll ps)

def char (c : Char) : Pattern := set (.one c)

def literal (s : String) : Pattern := seqAll (s.toList.map char)

/-- The text `s` in any mixture of cases. -/
def literalAnyCase (s : String) : Pattern :=
  seqAll (s.toList.map fun c => set (CharSet.one c).closeCase)

def optional (p : Pattern) (greedy : Bool) : Pattern :=
  if greedy then alt p empty else alt empty p

def star (p : Pattern) (greedy : Bool) : Pattern := (plus greedy p).optional greedy

/-- At most `n` copies, each of which may follow only after the one before it. -/
def upTo (p : Pattern) (greedy : Bool) : Nat → Pattern
  | 0 => empty
  | 1 => p.optional greedy
  | n + 1 => (seq p (p.upTo greedy n)).optional greedy

def atLeast (p : Pattern) (greedy : Bool) : Nat → Pattern
  | 0 => p.star greedy
  | n + 1 => seqAll (List.replicate n p ++ [plus greedy p])

/-- From `least` to `most` copies, without an upper limit when there is no `most`. -/
def times (p : Pattern) (least : Nat) (most : Option Nat) (greedy : Bool) : Pattern :=
  match most with
  | none => p.atLeast greedy least
  | some m =>
    if m = least then seqAll (List.replicate least p)
    else seqAll (List.replicate least p ++ [p.upTo greedy (m - least)])

/-- Whether the pattern can read nothing but the empty text. -/
def zeroWidth : Pattern → Bool
  | empty | check _ => true
  | set _ => false
  | seq p q | alt p q => p.zeroWidth && q.zeroWidth
  | plus _ p | group _ p => p.zeroWidth

end Pattern
end ScriptAudit
