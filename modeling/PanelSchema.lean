import PanelSchema.Call
import PanelSchema.Catalog
import PanelSchema.Command.Arguments
import PanelSchema.Command.Run
import PanelSchema.Declaration.Grammar
import PanelSchema.Declaration.Json
import PanelSchema.Declaration.Line
import PanelSchema.Declaration.Record
import PanelSchema.Declaration.Scan
import PanelSchema.Dict
import PanelSchema.Extract
import PanelSchema.Files.Path
import PanelSchema.Files.Pattern
import PanelSchema.Files.Search
import PanelSchema.Files.Tree
import PanelSchema.Grammar.Attempts
import PanelSchema.Grammar.Basic
import PanelSchema.Grammar.Match
import PanelSchema.Json.Decode
import PanelSchema.Json.Document
import PanelSchema.Json.Fault
import PanelSchema.Json.Token
import PanelSchema.Json.Value
import PanelSchema.Layout
import PanelSchema.Main
import PanelSchema.Model.Basic
import PanelSchema.Model.Json
import PanelSchema.Note
import PanelSchema.Number.Decimal
import PanelSchema.Number.Exact
import PanelSchema.Problem
import PanelSchema.Project
import PanelSchema.Proofs.Extract
import PanelSchema.Proofs.Grammar.Leaves
import PanelSchema.Proofs.Layout
import PanelSchema.Proofs.Module
import PanelSchema.Proofs.Overflow
import PanelSchema.Proofs.Policy
import PanelSchema.Proofs.Rooted
import PanelSchema.Proofs.Renaming.Tree
import PanelSchema.Proofs.Roster
import PanelSchema.Proofs.Source.Outline
import PanelSchema.Proofs.Syntax.Build
import PanelSchema.Proofs.Syntax.Declaration
import PanelSchema.Proofs.Syntax.Expression
import PanelSchema.Proofs.Syntax.Fault
import PanelSchema.Proofs.Syntax.Parse
import PanelSchema.Proofs.Syntax.Role
import PanelSchema.Proofs.Syntax.Statement
import PanelSchema.Proofs.Traced
import PanelSchema.Proofs.Values
import PanelSchema.Proofs.Visibility.Domain
import PanelSchema.Proofs.Visibility.Exact
import PanelSchema.Proofs.Visibility.Hiding
import PanelSchema.Proofs.Visibility.Meaning
import PanelSchema.Proofs.Visibility.Outcome
import PanelSchema.Proofs.Visibility.Truth
import PanelSchema.Proofs.Walk.Branches
import PanelSchema.Proofs.Walk.Drawing
import PanelSchema.Proofs.Walk.Effects
import PanelSchema.Proofs.Walk.Ending
import PanelSchema.Proofs.Walk.Equations
import PanelSchema.Proofs.Walk.Frames
import PanelSchema.Proofs.Walk.History
import PanelSchema.Proofs.Walk.Lockstep
import PanelSchema.Proofs.Walk.Point
import PanelSchema.Proofs.Walk.Range
import PanelSchema.Proofs.Walk.Return
import PanelSchema.Proofs.Walk.Stack
import PanelSchema.Proofs.Walk.Steps
import PanelSchema.Roster
import PanelSchema.Settings
import PanelSchema.Settings.Json
import PanelSchema.Settings.Load
import PanelSchema.Source.Grammar
import PanelSchema.Source.Mismatch
import PanelSchema.Source.Rule
import PanelSchema.SourceFile
import PanelSchema.Summary
import PanelSchema.Syntax.Dump
import PanelSchema.Syntax.Literal
import PanelSchema.Syntax.Parse
import PanelSchema.Syntax.Reading
import PanelSchema.Syntax.Tree
import PanelSchema.Text.Blank
import PanelSchema.Text.Location
import PanelSchema.Text.Quoted
import PanelSchema.Text.Unprintable
import PanelSchema.Text.Width
import PanelSchema.Traced
import PanelSchema.Visibility.Basic
import PanelSchema.Visibility.Binding
import PanelSchema.Visibility.Test
import PanelSchema.Walk.Routine
import PanelSchema.Walk.State
import PanelSchema.Walk.Step
import PanelSchema.Proofs.Syntax.Literal
import PanelSchema.Proofs.Renaming.Branches
import PanelSchema.Proofs.Renaming.Modules
import PanelSchema.Proofs.Roster.Conditions
import PanelSchema.Proofs.Walk.Parameters
import PanelSchema.Proofs.Json.Scalars
import PanelSchema.Proofs.Json.Text
import PanelSchema.Proofs.Json.Records
import PanelSchema.Proofs.Json.Model
import PanelSchema.Proofs.Layout.Placements
import PanelSchema.Proofs.Visibility.Canonical
import PanelSchema.Proofs.Walk.Conditions
import PanelSchema.Proofs.Visibility.Listing
import PanelSchema.Proofs.Walk.Cases
import PanelSchema.Proofs.Walk.Mirroring
import PanelSchema.Proofs.Grammar.Answers
import PanelSchema.Proofs.Grammar.Bound
import PanelSchema.Proofs.Grammar.Glance
import PanelSchema.Proofs.Grammar.Takes
import PanelSchema.Proofs.Source.Tokens
import PanelSchema.Proofs.Syntax.Formula
import PanelSchema.Proofs.Syntax.Field
import PanelSchema.Proofs.Syntax.Chains
import PanelSchema.Proofs.Syntax.Precedence
import PanelSchema.Proofs.Syntax.Quotation
import PanelSchema.Proofs.Grammar.Places
import PanelSchema.Proofs.Syntax.Provenance
import PanelSchema.Proofs.Syntax.Verbatim
import PanelSchema.Proofs.Catalog.Lookup
import PanelSchema.Proofs.Catalog.Members
import PanelSchema.Proofs.Catalog.Numbers
import PanelSchema.Proofs.Catalog.Constants
import PanelSchema.Proofs.Catalog.Order
import PanelSchema.Proofs.Catalog.Independence
import PanelSchema.Proofs.Number.Rounding
import PanelSchema.Proofs.Catalog.EnumValues
import PanelSchema.Proofs.Declaration.Comment
import PanelSchema.Proofs.Declaration.Numeral
import PanelSchema.Proofs.Declaration.Scan
import PanelSchema.Proofs.Grammar.Parts
import PanelSchema.Proofs.Declaration.Frame
import PanelSchema.Proofs.Declaration.Acceptance
import PanelSchema.Proofs.Declaration.Defaults
import PanelSchema.Proofs.Walk.Toggles
import PanelSchema.Proofs.Walk.Drafts
import PanelSchema.Proofs.Syntax.Spacing
