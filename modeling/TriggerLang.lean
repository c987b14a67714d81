import TriggerLang.Fragment.Equality
import TriggerLang.Main
import TriggerLang.Proofs.Render.RoundTrip
import TriggerLang.Proofs.Script.Rebuild
import TriggerLang.Script.Inline
import TriggerLang.Proofs.Lexing.Place
import TriggerLang.Proofs.Script.Tokens
import TriggerLang.Proofs.Diagnostic.Order
import TriggerLang.Proofs.Script.Found
import TriggerLang.Proofs.Script.Rejected
import TriggerLang.Proofs.Parse.Failure
import TriggerLang.Proofs.Script.Pointing
import TriggerLang.Proofs.Script.Location
import TriggerLang.Proofs.Document.Steps
import TriggerLang.Proofs.Script.Lockstep
import TriggerLang.Proofs.Script.Concatenation
import TriggerLang.Proofs.Lexing.Lossless
import TriggerLang.Proofs.Lexing.Literal
import TriggerLang.Proofs.Catalog.Extension
import TriggerLang.Proofs.Document.Conservation
import TriggerLang.Proofs.Grammar.Completion
import TriggerLang.Proofs.Lexing.Break
import TriggerLang.Proofs.Parse.Refusal
import TriggerLang.Proofs.Script.Total
import TriggerLang.Proofs.Script.BareWord
import TriggerLang.Proofs.Script.Undefined
import TriggerLang.Proofs.Parse.Expectation
import TriggerLang.Proofs.Typing.WellTyped
import TriggerLang.Proofs.Document.Bound
import TriggerLang.Proofs.Typing.Processed
import TriggerLang.Proofs.Typing.Heads
import TriggerLang.Proofs.Grammar.Shape
import TriggerLang.Proofs.Script.Conditions
import TriggerLang.Proofs.Render.Numeral
import TriggerLang.Proofs.Parse.Spacing
import TriggerLang.Proofs.Lexing.Locality
import TriggerLang.Proofs.Text.Position
import TriggerLang.Proofs.Script.Published
import TriggerLang.Proofs.Script.Inline
import TriggerLang.Proofs.Lexing.SingleLine
import TriggerLang.Proofs.Script.Trimmed
import TriggerLang.Proofs.Document.Visited
import TriggerLang.Proofs.Parse.Descent
import TriggerLang.Proofs.Text.Index
import TriggerLang.Proofs.Document.InPlace
