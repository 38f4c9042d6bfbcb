import TypeRules.Annotation
import TypeRules.Annotation.Reader
import TypeRules.Annotation.Value
import TypeRules.CommandLine.Command
import TypeRules.CommandLine.Run
import TypeRules.CommandLine.Words
import TypeRules.DataType
import TypeRules.DataType.Json
import TypeRules.Decimal.Binary
import TypeRules.Decimal.Shortest
import TypeRules.Document
import TypeRules.Document.Entry
import TypeRules.Document.Field
import TypeRules.Document.Notice
import TypeRules.Document.Reader
import TypeRules.Document.Repository
import TypeRules.Document.Rules
import TypeRules.Document.Version
import TypeRules.Error
import TypeRules.HttpMethod
import TypeRules.Json
import TypeRules.Level
import TypeRules.Loading
import TypeRules.Lookup
import TypeRules.Main
import TypeRules.Matcher
import TypeRules.Options
import TypeRules.Phrase
import TypeRules.Phrase.Reader
import TypeRules.Proofs.Annotation.Balance
import TypeRules.Proofs.Annotation.Merged
import TypeRules.Proofs.Annotation.Parameters
import TypeRules.Proofs.Annotation.Values
import TypeRules.Proofs.Annotation.Written
import TypeRules.Proofs.DataType.Pieces
import TypeRules.Proofs.DataType.Text
import TypeRules.Proofs.Document.Annotations
import TypeRules.Proofs.Document.Entries
import TypeRules.Proofs.Document.Flags
import TypeRules.Proofs.Document.Generics
import TypeRules.Proofs.Document.Ignored
import TypeRules.Proofs.Document.Levels
import TypeRules.Proofs.Document.Repository
import TypeRules.Proofs.Document.Version
import TypeRules.Proofs.Document.WellFormed
import TypeRules.Proofs.Except
import TypeRules.Proofs.Lookup.Named
import TypeRules.Proofs.Lookup.Nearest
import TypeRules.Proofs.Lookup.NonInterference
import TypeRules.Proofs.Lookup.Record
import TypeRules.Proofs.Lookup.Setting
import TypeRules.Proofs.Lookup.Settled
import TypeRules.Proofs.Lookup.Single
import TypeRules.Proofs.Lookup.Stacked
import TypeRules.Proofs.Lookup.Topic
import TypeRules.Proofs.Lookup.Tracing
import TypeRules.Proofs.Lookup.Walk
import TypeRules.Proofs.Matcher
import TypeRules.Proofs.Phrase.Annotation
import TypeRules.Proofs.Phrase.Operator
import TypeRules.Proofs.Phrase.Reading
import TypeRules.Proofs.Phrase.Sides
import TypeRules.Proofs.Phrase.Spacing
import TypeRules.Proofs.Phrase.Spelled
import TypeRules.Proofs.Phrase.Target
import TypeRules.Proofs.Repository.Exclusion
import TypeRules.Proofs.Repository.Scopes
import TypeRules.Proofs.Repository.Update
import TypeRules.Proofs.Rule.Format
import TypeRules.Proofs.Rule.Names
import TypeRules.Proofs.Rule.RoundTrip
import TypeRules.Proofs.Rule.Shown
import TypeRules.Proofs.Rule.Subject
import TypeRules.Proofs.Source
import TypeRules.Proofs.Text.Cut
import TypeRules.Proofs.Text.Nesting
import TypeRules.Proofs.Text.Replace
import TypeRules.Proofs.Text.Splitting
import TypeRules.Proofs.Text.Trim
import TypeRules.Proofs.Trace.Leaves
import TypeRules.Proofs.Trace.Listing
import TypeRules.Proofs.Trace.Operations
import TypeRules.Proofs.TypeRef.Dotted
import TypeRules.Proofs.TypeRef.Grammar
import TypeRules.Proofs.TypeRef.Name
import TypeRules.Proofs.TypeRef.Text
import TypeRules.Proofs.Wrapper.NoContent
import TypeRules.Proofs.Wrapper.Payload
import TypeRules.Proofs.Wrapper.Plain
import TypeRules.Proofs.Wrapper.Step
import TypeRules.Proofs.Wrapper.Suffix
import TypeRules.Query
import TypeRules.Question
import TypeRules.Repository
import TypeRules.Rule
import TypeRules.Rule.Json
import TypeRules.Source
import TypeRules.Summary
import TypeRules.Text.Blank
import TypeRules.Text.Cut
import TypeRules.Text.Nesting
import TypeRules.Text.Replace
import TypeRules.Text.Word
import TypeRules.Trace
import TypeRules.TypeRef
import TypeRules.TypeRef.Name
import TypeRules.TypeRef.Reader
import TypeRules.Wrapper
import TypeRules.Yaml.Directive
import TypeRules.Yaml.Mark
import TypeRules.Yaml.Meaning
import TypeRules.Yaml.Node
import TypeRules.Yaml.Scalar
import TypeRules.Yaml.Tag
import TypeRules.Yaml.Token
import TypeRules.Yaml.Value
import TypeRules.Yaml.Value.Page
import TypeRules.Yaml.Value.Printer
import TypeRules.Yaml.Value.Style
