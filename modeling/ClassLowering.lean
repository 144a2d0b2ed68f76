import ClassLowering.Bundle
import ClassLowering.Class
import ClassLowering.Codec.Class
import ClassLowering.Codec.Record
import ClassLowering.Codec.Settings
import ClassLowering.Codec.Tree
import ClassLowering.Command.Arguments
import ClassLowering.Command.Execute
import ClassLowering.Double
import ClassLowering.Fault
import ClassLowering.Files.Path
import ClassLowering.Files.Storage
import ClassLowering.Files.Workspace
import ClassLowering.Hierarchy.ClassMap
import ClassLowering.Hierarchy.Lineage
import ClassLowering.Json.Basic
import ClassLowering.Json.Number
import ClassLowering.Json.Reader
import ClassLowering.Json.Writer
import ClassLowering.Layout.Dispatch
import ClassLowering.Layout.Instance
import ClassLowering.Layout.Unit
import ClassLowering.Lowering
import ClassLowering.Main
import ClassLowering.NameSet
import ClassLowering.Naming
import ClassLowering.Printing.Context
import ClassLowering.Printing.Declaration
import ClassLowering.Printing.Expression
import ClassLowering.Printing.Render
import ClassLowering.Printing.Statement
import ClassLowering.Printing.TypeText
import ClassLowering.Proofs.Codec.RecordForms
import ClassLowering.Proofs.Codec.RoundTrip
import ClassLowering.Proofs.Hierarchy.Lineage
import ClassLowering.Proofs.Hierarchy.Order
import ClassLowering.Proofs.Hierarchy.Stages
import ClassLowering.Proofs.Hierarchy.Walk
import ClassLowering.Proofs.Json.Grammar
import ClassLowering.Proofs.Json.RoundTrip
import ClassLowering.Proofs.Json.Tokens
import ClassLowering.Proofs.Layout.Content
import ClassLowering.Proofs.Layout.Dependence
import ClassLowering.Proofs.Layout.Dispatch
import ClassLowering.Proofs.Layout.Header
import ClassLowering.Proofs.Layout.Parameters
import ClassLowering.Proofs.Layout.Reading
import ClassLowering.Proofs.Lowering
import ClassLowering.Proofs.Naming
import ClassLowering.Proofs.Outcome
import ClassLowering.Proofs.Printing.Balance
import ClassLowering.Proofs.Printing.Brackets
import ClassLowering.Proofs.Printing.Grouping
import ClassLowering.Proofs.Printing.Header
import ClassLowering.Proofs.Printing.Levels
import ClassLowering.Proofs.Printing.Likeness
import ClassLowering.Proofs.Printing.Locality
import ClassLowering.Proofs.Printing.MemberNames
import ClassLowering.Proofs.Printing.Members
import ClassLowering.Proofs.Printing.Names
import ClassLowering.Proofs.Printing.Nesting
import ClassLowering.Proofs.Printing.Occasions
import ClassLowering.Proofs.Printing.Outline
import ClassLowering.Proofs.Printing.Program
import ClassLowering.Proofs.Printing.Reach
import ClassLowering.Proofs.Printing.Replace
import ClassLowering.Proofs.Printing.Run
import ClassLowering.Proofs.Printing.Scope
import ClassLowering.Proofs.Printing.Script
import ClassLowering.Proofs.Printing.Sheet
import ClassLowering.Proofs.Printing.Slots
import ClassLowering.Proofs.Printing.Spelling
import ClassLowering.Proofs.Printing.Terminator
import ClassLowering.Proofs.Printing.TypeNames
import ClassLowering.Proofs.Printing.TypeText
import ClassLowering.Proofs.Printing.Units
import ClassLowering.Proofs.Printing.Wrapper
import ClassLowering.Proofs.Tree.Parents
import ClassLowering.Proofs.Tree.Row
import ClassLowering.Proofs.Tree.Worklist
import ClassLowering.Settings
import ClassLowering.Text
import ClassLowering.Toml.Basic
import ClassLowering.Toml.Reader
import ClassLowering.Toml.Scalar
import ClassLowering.Toml.Table
import ClassLowering.Toml.Text
import ClassLowering.Tree.Basic
import ClassLowering.Tree.Build
import ClassLowering.Tree.Kind
import ClassLowering.Tree.Parents
