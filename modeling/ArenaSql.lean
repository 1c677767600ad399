import ArenaSql.AliasTable
import ArenaSql.ColumnRef
import ArenaSql.Compile
import ArenaSql.Compile.Document
import ArenaSql.Compiler
import ArenaSql.Config
import ArenaSql.Decimal.Binary64
import ArenaSql.Decimal.Notation
import ArenaSql.Decimal.Shortest
import ArenaSql.Decode.Checked
import ArenaSql.Decode.Numeral
import ArenaSql.Decode.Record
import ArenaSql.Decode.Scalar
import ArenaSql.Dialect.Basic
import ArenaSql.Dialect.Registry
import ArenaSql.Document.Reader
import ArenaSql.Draft.Basic
import ArenaSql.Draft.Clauses
import ArenaSql.Draft.Rendering
import ArenaSql.Error
import ArenaSql.Proofs.Arena
import ArenaSql.Proofs.Overlay
import ArenaSql.Proofs.Reading
import ArenaSql.Proofs.View
import ArenaSql.Query.Basic
import ArenaSql.Query.Document
import ArenaSql.Query.Edit
import ArenaSql.Query.FieldName
import ArenaSql.Query.NodeRef
import ArenaSql.Query.Operator
import ArenaSql.Query.Paging
import ArenaSql.Query.RecordIndex
import ArenaSql.Query.Sources
import ArenaSql.Query.Tree
import ArenaSql.Resolution
import ArenaSql.Schema.Basic
import ArenaSql.Schema.Catalog
import ArenaSql.Schema.Document
import ArenaSql.Schema.Inference
import ArenaSql.Schema.Reference
import ArenaSql.Session.Basic
import ArenaSql.Session.Step
import ArenaSql.Sql
import ArenaSql.Text.Blank
import ArenaSql.Text.DecimalDigit
import ArenaSql.Text.Numeral
import ArenaSql.Text.Order
import ArenaSql.Text.Printable
import ArenaSql.Text.Quoted
import ArenaSql.Value.Basic
import ArenaSql.Value.Equality
import ArenaSql.Value.Printer
import ArenaSql.Proofs.Leaves
import ArenaSql.Proofs.Harvest
import ArenaSql.Proofs.Drafting
import ArenaSql.Proofs.Resolved
import ArenaSql.Proofs.Outline
import ArenaSql.Proofs.Literals
import ArenaSql.Proofs.Names
import ArenaSql.Proofs.Synchrony
import ArenaSql.Proofs.Placeholders
import ArenaSql.Proofs.Reach
import ArenaSql.Proofs.Renders
import ArenaSql.Proofs.Clauses
import ArenaSql.Proofs.Loaded
import ArenaSql.Proofs.Compilable
import ArenaSql.Proofs.Success
import ArenaSql.Proofs.Recompile
import ArenaSql.Proofs.Masking
import ArenaSql.Proofs.Noninterference
import ArenaSql.Proofs.Joins
import ArenaSql.Proofs.Growth
import ArenaSql.Proofs.JoinOrder
import ArenaSql.Proofs.LaidOut
import ArenaSql.Proofs.InScope
import ArenaSql.Proofs.Alike
import ArenaSql.Proofs.Matching
import ArenaSql.Proofs.Unfolding
import ArenaSql.Proofs.Spelling
import ArenaSql.Proofs.ReadBack
import ArenaSql.Proofs.Later
import ArenaSql.Proofs.SourceNames
import ArenaSql.Proofs.Mirroring
import ArenaSql.Proofs.Following
import ArenaSql.Proofs.Keeping
import ArenaSql.Proofs.Footprint
import ArenaSql.Proofs.Stocked
import ArenaSql.Proofs.AliasUse
import ArenaSql.Proofs.Respelling
import ArenaSql.Proofs.Dialects
import ArenaSql.Proofs.Reloading
import ArenaSql.Proofs.Extension
import ArenaSql.Proofs.Sessions
import ArenaSql.Proofs.OneQuery
import ArenaSql.Proofs.Aliasing
import ArenaSql.Proofs.DistinctAliases
import ArenaSql.Proofs.AliasNumbers
import ArenaSql.Proofs.Embedded
import ArenaSql.Proofs.Numbering
import ArenaSql.Proofs.Occurrences
import ArenaSql.Proofs.NumberedText
import ArenaSql.Proofs.OtherEnd
import ArenaSql.Proofs.Inference
import ArenaSql.Proofs.Hollow
import ArenaSql.Proofs.FirstUnplaced
import ArenaSql.Proofs.Numerals
import ArenaSql.Proofs.Limits
import ArenaSql.Proofs.LookupKeys
import ArenaSql.Proofs.Valueless
import ArenaSql.Proofs.CanonicalText
import ArenaSql.Proofs.AliasRenewal
import ArenaSql.Proofs.Qualified
