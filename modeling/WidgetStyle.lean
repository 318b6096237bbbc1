import WidgetStyle.Text.Position
import WidgetStyle.Number.Rounding
import WidgetStyle.Number.Numeral
import WidgetStyle.Number.Layout
import WidgetStyle.Number.Reading
import WidgetStyle.Value
import WidgetStyle.Attribute
import WidgetStyle.Selector
import WidgetStyle.Selector.Matching
import WidgetStyle.Selector.Slots
import WidgetStyle.Sheet.Fault
import WidgetStyle.Text.Characters
import WidgetStyle.Sheet.Token
import WidgetStyle.Sheet.Tokens
import WidgetStyle.Sheet.Scan
import WidgetStyle.Sheet.Written
import WidgetStyle.Rule
import WidgetStyle.Sheet
import WidgetStyle.Style
import WidgetStyle.Flag
import WidgetStyle.Formula
import WidgetStyle.Formula.Token
import WidgetStyle.Formula.Reading
import WidgetStyle.Flag.Registry
import WidgetStyle.Switch
import WidgetStyle.Json
import WidgetStyle.Json.Token
import WidgetStyle.Json.Reading
import WidgetStyle.Style.Exchange
import WidgetStyle.Flag.Call
import WidgetStyle.Engine
import WidgetStyle.Proofs.Memo
import WidgetStyle.Proofs.Embedding
import WidgetStyle.Proofs.Slots
import WidgetStyle.Proofs.RuleIndex
import WidgetStyle.Proofs.Parsed
import WidgetStyle.Proofs.Weight
import WidgetStyle.Proofs.Cascade
import WidgetStyle.Proofs.Precedence
import WidgetStyle.Proofs.Alternatives
import WidgetStyle.Proofs.Grammar
import WidgetStyle.Proofs.Offsets
import WidgetStyle.Proofs.Tokens
import WidgetStyle.Proofs.GrammarSoundness
import WidgetStyle.Proofs.Characters
import WidgetStyle.Proofs.GrammarCompleteness
import WidgetStyle.Proofs.SameStart
import WidgetStyle.Proofs.Lookahead
import WidgetStyle.Proofs.Seam
import WidgetStyle.Proofs.Concatenation
import WidgetStyle.Proofs.Scan
import WidgetStyle.Proofs.Merging
import WidgetStyle.Proofs.Domain
import WidgetStyle.Proofs.WellFormed
import WidgetStyle.Proofs.Placement
import WidgetStyle.Proofs.Declarations
import WidgetStyle.Proofs.Diagnostics
import WidgetStyle.Proofs.Fronts
import WidgetStyle.Proofs.Spans
import WidgetStyle.Proofs.Lines
import WidgetStyle.Proofs.Places
import WidgetStyle.Proofs.Removal
import WidgetStyle.Proofs.FormulaGrammar
import WidgetStyle.Proofs.FormulaTokens
import WidgetStyle.Proofs.FormulaReading
import WidgetStyle.Proofs.Registry
import WidgetStyle.Proofs.Binding
import WidgetStyle.Proofs.Identifiers
import WidgetStyle.Proofs.Interning
import WidgetStyle.Proofs.FlagValues
import WidgetStyle.Proofs.Truth
import WidgetStyle.Proofs.Regrouping
import WidgetStyle.Proofs.Printing
import WidgetStyle.Proofs.Independence
import WidgetStyle.Proofs.Collapse
import WidgetStyle.Proofs.Squeezing
import WidgetStyle.Proofs.BlankRuns
import WidgetStyle.Proofs.ChainText
import WidgetStyle.Proofs.Dependence
import WidgetStyle.Proofs.NearMisses
import WidgetStyle.Proofs.Rounding
import WidgetStyle.Proofs.Numerals
import WidgetStyle.Proofs.ShortestDigits
import WidgetStyle.Proofs.Narrowing
import WidgetStyle.Proofs.ReadingBack
import WidgetStyle.Proofs.JsonText
import WidgetStyle.Proofs.Overflow
import WidgetStyle.Proofs.Exchange
import WidgetStyle.Proofs.Computed
import WidgetStyle.Proofs.Underflow
import WidgetStyle.Proofs.Parentheses
import WidgetStyle.Proofs.Equality
import WidgetStyle.Proofs.Interchange
import WidgetStyle.Proofs.Openings
import WidgetStyle.Proofs.Unmatched
import WidgetStyle.Proofs.PrintedChains
