import PlainForm.Command
import PlainForm.FileTree
import PlainForm.Main
import PlainForm.Proofs.Appended
import PlainForm.Proofs.Command.Conversions
import PlainForm.Proofs.Command.FailedRun
import PlainForm.Proofs.Command.Verbatim
import PlainForm.Proofs.Decode.Context
import PlainForm.Proofs.Decode.References
import PlainForm.Proofs.Decode.Unread
import PlainForm.Proofs.DecodingOnly
import PlainForm.Proofs.Distinct
import PlainForm.Proofs.Escaping
import PlainForm.Proofs.GivingUp
import PlainForm.Proofs.Idempotence
import PlainForm.Proofs.IllFormed
import PlainForm.Proofs.LifeCycle
import PlainForm.Proofs.LineEnds
import PlainForm.Proofs.Log
import PlainForm.Proofs.LoneSurrogates
import PlainForm.Proofs.PlaceValue
import PlainForm.Proofs.Recovery
import PlainForm.Proofs.RuleLine.Comment
import PlainForm.Proofs.RuleLine.Escaped
import PlainForm.Proofs.RuleLine.Printed
import PlainForm.Proofs.RuleLine.Ranges
import PlainForm.Proofs.RuleLine.Turns
import PlainForm.Proofs.RuleOrder
import PlainForm.RulesFile
