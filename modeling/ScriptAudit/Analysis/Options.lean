import ScriptAudit.Message.RuleName

/-! # Options of an analysis

Which rules are ignored, down to which severity findings are kept, and whether reports are
colored.
-/
namespace ScriptAudit

structure Options where
  ignored : List RuleName
  level : Severity
  colors : Bool
  deriving DecidableEq, Repr

namespace Options

def standard : Options := ⟨[], .info, true⟩

def withIgnoreList (o : Options) (list : String) : Options :=
  { o with ignored := RuleName.parseList list }

def withLevel (o : Options) (level : Severity) : Options := { o with level := level }

def withColors (o : Options) (colors : Bool) : Options := { o with colors := colors }

def keeps (o : Options) (rule : RuleName) (severity : Severity) : Bool :=
  !o.ignored.contains rule && severity.isShownAt o.level

end Options
end ScriptAudit
