import StyleCalls.Engine
import StyleCalls.Pattern.Source
import StyleCalls.Proofs.Engine.Dispatch
import StyleCalls.Proofs.Engine.Nested
import StyleCalls.Proofs.Engine.Offsets
import StyleCalls.Proofs.Engine.Concat
import StyleCalls.Proofs.Registry.History
import StyleCalls.Proofs.Engine.Cache
import StyleCalls.Proofs.Pattern.Recognition
import StyleCalls.Proofs.Pattern.Symbols
import StyleCalls.Proofs.Engine.Equivalence
import StyleCalls.Proofs.Engine.Failure
import StyleCalls.Proofs.Engine.Resolution
import StyleCalls.Proofs.Registry.Order
import StyleCalls.Proofs.Engine.Replacement
import StyleCalls.Proofs.Rule.Value
import StyleCalls.Proofs.Rule.Run
import StyleCalls.Proofs.Rule.Snapshot
import StyleCalls.Proofs.Rule.Interference
import StyleCalls.Proofs.Arith.Grammar
import StyleCalls.Proofs.Arith.Viability
import StyleCalls.Proofs.Rule.Links
import StyleCalls.Proofs.Selector.Ordinary
import StyleCalls.Proofs.Query.References
import StyleCalls.Proofs.Nesting.Group
import StyleCalls.Proofs.Arguments.Agreement
import StyleCalls.Proofs.Arguments.Join
import StyleCalls.Proofs.Arguments.Refinement
import StyleCalls.Proofs.Engine.Record
import StyleCalls.Proofs.Registry.Activation
import StyleCalls.Proofs.Selector.Slack
import StyleCalls.Proofs.Query.Fallback
import StyleCalls.Proofs.Rule.Components
import StyleCalls.Proofs.Rule.Spelling
import StyleCalls.Proofs.Math.Filter
import StyleCalls.Proofs.Query.Top
import StyleCalls.Proofs.Arguments.Uncons
import StyleCalls.Proofs.Arith.Munch
import StyleCalls.Proofs.Color.Numeral
import StyleCalls.Proofs.ColorAdjust.Pipeline
import StyleCalls.Proofs.ColorAdjust.Stable
