import ItemMapper.Json.Printer
import ItemMapper.Proofs.Aliases.Failure
import ItemMapper.Proofs.Aliases.Runs
import ItemMapper.Proofs.Key.Text
import ItemMapper.Proofs.Number.Order
import ItemMapper.Proofs.Values.Recursion
import ItemMapper.Proofs.Writer.Calls
import ItemMapper.Proofs.Codec.Rewriting
import ItemMapper.Proofs.Expression.KeyCondition
import ItemMapper.Sample.Converters
import ItemMapper.Wire.Datum
import ItemMapper.Wire.Expression
import ItemMapper.Wire.Options
import ItemMapper.Wire.Schema
import ItemMapper.Wire.Table
import ItemMapper.Proofs.Writer.Canonical
import ItemMapper.Proofs.Codec.Placing
import ItemMapper.Proofs.Codec.Legible
import ItemMapper.Proofs.Codec.Variants
import ItemMapper.Proofs.Writer.Grammar
import ItemMapper.Proofs.Values.Literals
import ItemMapper.Proofs.Table.Claims
import ItemMapper.Proofs.Key.Parts
import ItemMapper.Proofs.Writer.Uniform
import ItemMapper.Proofs.Key.Items
import ItemMapper.Proofs.Number.Rounding
import ItemMapper.Proofs.Number.Integers
import ItemMapper.Proofs.Number.Reading
import ItemMapper.Proofs.Key.Order
import ItemMapper.Proofs.Number.Printing
import ItemMapper.Proofs.Key.Integers
import ItemMapper.Proofs.Key.Casting
import ItemMapper.Proofs.Key.Presence
import ItemMapper.Proofs.Table.Places
import ItemMapper.Proofs.Table.Definitions
import ItemMapper.Proofs.Table.Updates
import ItemMapper.Proofs.Table.NewAttributes
import ItemMapper.Proofs.Key.Types
import ItemMapper.Proofs.Json.RoundTrip
import ItemMapper.Proofs.Wire.AttributeValue
import ItemMapper.Proofs.Table.Acceptance
import ItemMapper.Proofs.Table.Selection
import ItemMapper.Proofs.Values.Settled
import ItemMapper.Proofs.Codec.Recursion
import ItemMapper.Proofs.Number.Tangles
import ItemMapper.Proofs.Values.Reordering
import ItemMapper.Proofs.Codec.Reordering
import ItemMapper.Proofs.Table.Names
import ItemMapper.Proofs.Table.KeySchemas
import ItemMapper.Proofs.Expression.Comparison
import ItemMapper.Proofs.Number.Scaling
import ItemMapper.Proofs.Number.Numerals
import ItemMapper.Proofs.Number.Rationals
import ItemMapper.Proofs.Codec.Integers
import ItemMapper.Proofs.Expression.Truth
import ItemMapper.Proofs.Assignment.Compilation
import ItemMapper.Proofs.Codec.Enumerations
import ItemMapper.Proofs.Agreement
import ItemMapper.Proofs.Schema.Lookup
import ItemMapper.Proofs.Schema.Nesting
import ItemMapper.Proofs.Expression.VariantLiterals
import ItemMapper.Proofs.Expression.VariantNames
import ItemMapper.Proofs.Expression.Paths
import ItemMapper.Proofs.Expression.Calls
import ItemMapper.Proofs.Expression.Respelling
import ItemMapper.Proofs.Expression.Interchange
import ItemMapper.Proofs.Expression.LiteralPlaces
import ItemMapper.Proofs.Expression.StoredVariants
import ItemMapper.Proofs.Codec.VariantMembers
import ItemMapper.Proofs.Key.Variants
import ItemMapper.Proofs.Aliases.Repetition
import ItemMapper.Proofs.Bytes.Order
import ItemMapper.Proofs.Writer.SetMarked
import ItemMapper.Proofs.Codec.Shapes
import ItemMapper.Proofs.Expression.Shapes
import ItemMapper.Proofs.Codec.Registry
import ItemMapper.Proofs.Time.Spans
import ItemMapper.Proofs.Values.Untyped
import ItemMapper.Proofs.Codec.Locating
import ItemMapper.Proofs.Clauses.Sections
import ItemMapper.Proofs.Codec.Interception
import ItemMapper.Proofs.Writer.Failures
import ItemMapper.Proofs.Text.Paths
import ItemMapper.Proofs.Values.Sameness
