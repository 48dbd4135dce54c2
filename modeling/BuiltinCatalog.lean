import BuiltinCatalog.Builtin
import BuiltinCatalog.Cache.Basic
import BuiltinCatalog.Cache.Entry
import BuiltinCatalog.Cache.Image
import BuiltinCatalog.Cache.Migration
import BuiltinCatalog.Cache.Store
import BuiltinCatalog.Collection
import BuiltinCatalog.Collection.Pool
import BuiltinCatalog.Command.Line
import BuiltinCatalog.Command.Places
import BuiltinCatalog.Command.Run
import BuiltinCatalog.Comment
import BuiltinCatalog.Copyright
import BuiltinCatalog.Declaration.Head
import BuiltinCatalog.Declaration.Span
import BuiltinCatalog.Digest.Sha256
import BuiltinCatalog.Extraction
import BuiltinCatalog.Files.Changes
import BuiltinCatalog.Files.Disk
import BuiltinCatalog.Files.Glob
import BuiltinCatalog.Files.Path
import BuiltinCatalog.Files.Tree
import BuiltinCatalog.Files.Walk
import BuiltinCatalog.Framework
import BuiltinCatalog.Json.Basic
import BuiltinCatalog.Json.Read
import BuiltinCatalog.Json.Slot
import BuiltinCatalog.Json.Write
import BuiltinCatalog.Log.Event
import BuiltinCatalog.Log.Level
import BuiltinCatalog.Main
import BuiltinCatalog.Manifest.Basic
import BuiltinCatalog.Manifest.Document
import BuiltinCatalog.Manifest.Format
import BuiltinCatalog.Manifest.Listing
import BuiltinCatalog.Manifest.SourceTable
import BuiltinCatalog.ParseError
import BuiltinCatalog.Project
import BuiltinCatalog.Proofs.Collection.Agree
import BuiltinCatalog.Proofs.Collection.Valid
import BuiltinCatalog.Proofs.Comment
import BuiltinCatalog.Proofs.Declaration.Heads
import BuiltinCatalog.Proofs.Declaration.Scan
import BuiltinCatalog.Proofs.Declaration.Spans
import BuiltinCatalog.Proofs.Extraction.Sound
import BuiltinCatalog.Proofs.Extraction.Step
import BuiltinCatalog.Proofs.Extraction.Transparency
import BuiltinCatalog.Proofs.Files.Disk
import BuiltinCatalog.Proofs.Script.Parse
import BuiltinCatalog.Proofs.Script.Scan
import BuiltinCatalog.Proofs.Script.Syntax
import BuiltinCatalog.Proofs.Text.Order
import BuiltinCatalog.Proofs.Text.Search
import BuiltinCatalog.Proofs.Text.Trim
import BuiltinCatalog.Proofs.Text.Utf8
import BuiltinCatalog.Proofs.Text.Valid
import BuiltinCatalog.Settings.Basic
import BuiltinCatalog.Settings.Read
import BuiltinCatalog.Settings.Write
import BuiltinCatalog.Signature
import BuiltinCatalog.Text.Base64
import BuiltinCatalog.Text.Basic
import BuiltinCatalog.Text.Blank
import BuiltinCatalog.Text.Distance
import BuiltinCatalog.Text.Hex
import BuiltinCatalog.Text.Keyed
import BuiltinCatalog.Text.Letter
import BuiltinCatalog.Text.Order
import BuiltinCatalog.Text.Printable
import BuiltinCatalog.Text.Quoted
import BuiltinCatalog.Text.Utf8
import BuiltinCatalog.Yaml.Meaning
import BuiltinCatalog.Yaml.Node
import BuiltinCatalog.Yaml.Number
import BuiltinCatalog.Yaml.Record
import BuiltinCatalog.Yaml.Scalar
import BuiltinCatalog.Yaml.Spot
import BuiltinCatalog.Yaml.Timestamp
import BuiltinCatalog.Yaml.Token
import BuiltinCatalog.Yaml.Token.Scan
import BuiltinCatalog.Yaml.Write
import BuiltinCatalog.Proofs.Collection.Merge
import BuiltinCatalog.Proofs.Collection.Pool
import BuiltinCatalog.Proofs.Builtin.Order
import BuiltinCatalog.Proofs.Signature.Parameters
import BuiltinCatalog.Proofs.Collection.Permutation
import BuiltinCatalog.Proofs.Files.Path
import BuiltinCatalog.Proofs.Files.Frame
import BuiltinCatalog.Proofs.Cache.Purity
import BuiltinCatalog.Proofs.Command.Purity
import BuiltinCatalog.Proofs.Files.Walk
import BuiltinCatalog.Proofs.Script.Interior
import BuiltinCatalog.Proofs.Signature.OwnHead
import BuiltinCatalog.Proofs.Files.Content
import BuiltinCatalog.Proofs.Command.Output
import BuiltinCatalog.Proofs.Collection.Scrub
import BuiltinCatalog.Proofs.Files.Within
import BuiltinCatalog.Proofs.Extraction.Files
import BuiltinCatalog.Proofs.Extraction.Prune
import BuiltinCatalog.Proofs.Extraction.Attempts
import BuiltinCatalog.Proofs.Extraction.Remains
import BuiltinCatalog.Proofs.Extraction.Repeat
import BuiltinCatalog.Proofs.Comment.Header
import BuiltinCatalog.Proofs.Declaration.Append
import BuiltinCatalog.Proofs.Declaration.FinalNewline
import BuiltinCatalog.Proofs.Signature.Outcome
import BuiltinCatalog.Proofs.Comment.Reduced
import BuiltinCatalog.Proofs.Signature.Source
import BuiltinCatalog.Proofs.Copyright
import BuiltinCatalog.Proofs.Copyright.Merge
import BuiltinCatalog.Proofs.Files.Visit
import BuiltinCatalog.Proofs.Extraction.Accounting
import BuiltinCatalog.Proofs.Copyright.Lines
import BuiltinCatalog.Proofs.Manifest.Header
import BuiltinCatalog.Proofs.Cache.Preparation
import BuiltinCatalog.Proofs.Command.Rejection
import BuiltinCatalog.Proofs.Json.Grammar
import BuiltinCatalog.Proofs.Json.Written
import BuiltinCatalog.Proofs.Json.Slot
import BuiltinCatalog.Proofs.Manifest.Document
import BuiltinCatalog.Proofs.Cache.Image
import BuiltinCatalog.Proofs.Cache.Store
import BuiltinCatalog.Proofs.Declaration.Faults
import BuiltinCatalog.Proofs.Manifest.Lexeme
import BuiltinCatalog.Proofs.Manifest.SourceTable
import BuiltinCatalog.Proofs.Yaml.Spot
import BuiltinCatalog.Proofs.Yaml.Scalar
import BuiltinCatalog.Proofs.Yaml.Scan
import BuiltinCatalog.Proofs.Yaml.Node
import BuiltinCatalog.Proofs.Yaml.Outline
import BuiltinCatalog.Proofs.Yaml.Record
import BuiltinCatalog.Proofs.Files.ReadBack
import BuiltinCatalog.Proofs.Settings.RoundTrip
