import ScriptAudit.Main
import ScriptAudit.Session
import ScriptAudit.Proofs.Analysis.Totality
import ScriptAudit.Proofs.Analysis.Filter
import ScriptAudit.Proofs.Analysis.Report
import ScriptAudit.Proofs.Rules.Deprecated
import ScriptAudit.Proofs.Rules.HiddenCalls
import ScriptAudit.Proofs.Run.Verdict
import ScriptAudit.Proofs.Discovery.ResolvedNames
import ScriptAudit.Proofs.Discovery.Listing
import ScriptAudit.Proofs.Pattern.Length
import ScriptAudit.Proofs.Rules.HitCount
import ScriptAudit.Proofs.Analysis.States
import ScriptAudit.Proofs.Summary.Totals
import ScriptAudit.Proofs.Run.Complaints
import ScriptAudit.Proofs.Text.LineEnds
import ScriptAudit.Proofs.Pattern.LineEnds
import ScriptAudit.Proofs.Rules.LineEnds
import ScriptAudit.Proofs.Analysis.LineEnds
import ScriptAudit.Proofs.Run.Results
import ScriptAudit.Proofs.Run.Story
import ScriptAudit.Proofs.Run.Composition
import ScriptAudit.Proofs.File.Canonical
import ScriptAudit.Proofs.Run.PathOrder
import ScriptAudit.Proofs.Run.Narrowing
import ScriptAudit.Proofs.Text.Bytes
import ScriptAudit.Proofs.Analysis.ByRule
import ScriptAudit.Proofs.Rules.Forms
import ScriptAudit.Proofs.Analysis.Paths
import ScriptAudit.Proofs.Rules.Positions
import ScriptAudit.Proofs.Analysis.Arrangement
import ScriptAudit.Proofs.Analysis.RawBytes
import ScriptAudit.Proofs.Session.Steps
import ScriptAudit.Proofs.Session.History
import ScriptAudit.Proofs.Discovery.Walk
import ScriptAudit.Proofs.Discovery.CreationOrder
import ScriptAudit.Proofs.Discovery.ExactLists
import ScriptAudit.Proofs.Message.ControlSequences
import ScriptAudit.Proofs.Message.JsonText
import ScriptAudit.Proofs.Run.NoColors
import ScriptAudit.Proofs.Run.Colors
import ScriptAudit.Proofs.Discovery.ScriptNames
import ScriptAudit.Proofs.Pattern.Layout
import ScriptAudit.Proofs.Pattern.Greedy
import ScriptAudit.Proofs.Rules.Quotation
import ScriptAudit.Proofs.Rules.Calls
import ScriptAudit.Proofs.Rules.Captures
import ScriptAudit.Proofs.Pattern.Placement
import ScriptAudit.Proofs.Rules.SingleLines
import ScriptAudit.Proofs.Rules.BlankLines
import ScriptAudit.Proofs.Rules.Indentation
import ScriptAudit.Proofs.Summary.Grouping
import ScriptAudit.Proofs.Message.IgnoreLists
import ScriptAudit.Proofs.Message.Substitution
import ScriptAudit.Proofs.Summary.WordLimits
import ScriptAudit.Proofs.Text.LineStarts
import ScriptAudit.Proofs.Rules.WrittenCalls
