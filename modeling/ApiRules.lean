import ApiRules.Archive.Bytes
import ApiRules.Archive.Layout
import ApiRules.Archive.Table
import ApiRules.Check
import ApiRules.Command.Arguments
import ApiRules.Command.Bake
import ApiRules.Command.DotEnv
import ApiRules.Command.Invocation
import ApiRules.Command.Lint
import ApiRules.Command.Outcome
import ApiRules.Command.Report
import ApiRules.Config
import ApiRules.Constant.Literal
import ApiRules.Constant.Name
import ApiRules.Constant.Typedef
import ApiRules.Container
import ApiRules.Dataset.Basic
import ApiRules.Dataset.Index
import ApiRules.Dataset.Load
import ApiRules.Dictionary
import ApiRules.FileError
import ApiRules.FilePath
import ApiRules.FileSystem
import ApiRules.FileTree
import ApiRules.Json.Number
import ApiRules.Json.Parts
import ApiRules.Json.Reader
import ApiRules.Json.Token
import ApiRules.Json.Value
import ApiRules.Json.Writer
import ApiRules.Linter
import ApiRules.LoadError
import ApiRules.Log
import ApiRules.Main
import ApiRules.Merge.Basic
import ApiRules.Merge.Event
import ApiRules.Merge.State
import ApiRules.Partial.Basic
import ApiRules.Partial.Encoding
import ApiRules.Pattern
import ApiRules.Proofs.Archive.Bytes
import ApiRules.Proofs.Archive.Layout
import ApiRules.Proofs.Archive.Order
import ApiRules.Proofs.Archive.Table
import ApiRules.Proofs.Check
import ApiRules.Proofs.Constant.Literal
import ApiRules.Proofs.Constant.Narrowing
import ApiRules.Proofs.Constant.Reading
import ApiRules.Proofs.Constant.Typedef
import ApiRules.Proofs.Container
import ApiRules.Proofs.Dataset.Acceptance
import ApiRules.Proofs.Dataset.Ancestry
import ApiRules.Proofs.Dataset.Contents
import ApiRules.Proofs.Dataset.Declared
import ApiRules.Proofs.Dataset.Index
import ApiRules.Proofs.Dataset.Loading
import ApiRules.Proofs.Dataset.Positions
import ApiRules.Proofs.Dataset.Rows
import ApiRules.Proofs.Dataset.Stored
import ApiRules.Proofs.Dictionary
import ApiRules.Proofs.Integrity
import ApiRules.Proofs.Json.Number
import ApiRules.Proofs.Json.Parts
import ApiRules.Proofs.Json.Reader
import ApiRules.Proofs.Json.Token
import ApiRules.Proofs.Json.Value
import ApiRules.Proofs.Linter
import ApiRules.Proofs.Merge.Accounting
import ApiRules.Proofs.Merge.Arrival
import ApiRules.Proofs.Merge.Contributions
import ApiRules.Proofs.Merge.Declarations
import ApiRules.Proofs.Merge.Keys
import ApiRules.Proofs.Merge.Loading
import ApiRules.Proofs.Merge.Policy
import ApiRules.Proofs.Merge.Precedence
import ApiRules.Proofs.Merge.Records
import ApiRules.Proofs.Merge.Repetition
import ApiRules.Proofs.Merge.Steps
import ApiRules.Proofs.Merge.Survivors
import ApiRules.Proofs.Partial.Encoding
import ApiRules.Proofs.Query.Arrangement
import ApiRules.Proofs.Query.Bounds
import ApiRules.Proofs.Query.Candidates
import ApiRules.Proofs.Query.Coverage
import ApiRules.Proofs.Query.Flags
import ApiRules.Proofs.Query.Merged
import ApiRules.Proofs.Query.OwnLiteral
import ApiRules.Proofs.Query.Replacement
import ApiRules.Proofs.Query.Resolution
import ApiRules.Proofs.Query.Selection
import ApiRules.Proofs.Query.Shape
import ApiRules.Proofs.Query.Tiers
import ApiRules.Proofs.Query.Walk
import ApiRules.Proofs.Reordering
import ApiRules.Proofs.Results
import ApiRules.Proofs.Rule.Comparison
import ApiRules.Proofs.Rule.Encoding
import ApiRules.Proofs.Sequences
import ApiRules.Proofs.Signature.Ancestry
import ApiRules.Proofs.Signature.Brackets
import ApiRules.Proofs.Signature.Canonical
import ApiRules.Proofs.Signature.Characters
import ApiRules.Proofs.Signature.Constructors
import ApiRules.Proofs.Signature.Descriptor
import ApiRules.Proofs.Signature.Order
import ApiRules.Proofs.Signature.Owner
import ApiRules.Proofs.Signature.Params
import ApiRules.Proofs.Signature.Parts
import ApiRules.Proofs.Signature.Spelling
import ApiRules.Proofs.Table.Arrangement
import ApiRules.Proofs.Table.Canonical
import ApiRules.Proofs.Table.Rows
import ApiRules.Proofs.Text.Cut
import ApiRules.Proofs.Text.Number
import ApiRules.Proofs.Text.Trim
import ApiRules.Proofs.Tracker
import ApiRules.Query.Argument
import ApiRules.Query.Context
import ApiRules.Query.Encoding
import ApiRules.Query.Finding
import ApiRules.Query.Lookup
import ApiRules.Rule.Encoding
import ApiRules.Rule.Kind
import ApiRules.Rule.Payload
import ApiRules.Rule.Record
import ApiRules.Rule.Source
import ApiRules.Sha256
import ApiRules.Signature.Basic
import ApiRules.Signature.Descriptor
import ApiRules.Signature.Error
import ApiRules.Signature.Nesting
import ApiRules.Signature.Order
import ApiRules.Signature.Owner
import ApiRules.Signature.Parse
import ApiRules.Signature.TypeName
import ApiRules.Table
import ApiRules.Text.Alphanumeric
import ApiRules.Text.Blank
import ApiRules.Text.Cut
import ApiRules.Text.Hex
import ApiRules.Text.Number
import ApiRules.Tracker
import ApiRules.Word
