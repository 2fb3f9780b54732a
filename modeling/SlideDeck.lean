import SlideDeck.Text.CodeRanges
import SlideDeck.Text.Blank
import SlideDeck.Text.Cased
import SlideDeck.Text.CaseIgnorable
import SlideDeck.Text.LowerMapping
import SlideDeck.Text.LowerCase
import SlideDeck.Text.Hidden
import SlideDeck.Text.Quoted
import SlideDeck.Number.Double
import SlideDeck.Number.Shortest
import SlideDeck.Number.Layout
import SlideDeck.Keyed
import SlideDeck.Json.Value
import SlideDeck.Json.Printer
import SlideDeck.Json.Fault
import SlideDeck.Json.Numeral
import SlideDeck.Json.StringBody
import SlideDeck.Json.Reader
import SlideDeck.Json.Skim
import SlideDeck.Props
import SlideDeck.Import
import SlideDeck.Node.Basic
import SlideDeck.Node.Edit
import SlideDeck.Node.Equality
import SlideDeck.Node.Order
import SlideDeck.Node.Markup
import SlideDeck.Node.Outline
import SlideDeck.Walk.Basic
import SlideDeck.Walk.Trace
import SlideDeck.Walk.Rule
import SlideDeck.Slides.SkipMode
import SlideDeck.Slides.SkipComment
import SlideDeck.Slides.Plan
import SlideDeck.Slides.Cutter
import SlideDeck.Slides.Document
import SlideDeck.Node.Binding
import SlideDeck.Options.Basic
import SlideDeck.Options.Reader
import SlideDeck.Options.Load
import SlideDeck.Plugin
import SlideDeck.Pipeline
import SlideDeck.Proofs.Node.Basic
import SlideDeck.Proofs.Node.Context
import SlideDeck.Proofs.Node.Imports
import SlideDeck.Proofs.Walk.Subtree
import SlideDeck.Proofs.Walk.InStep
import SlideDeck.Proofs.Walk.Calls
import SlideDeck.Proofs.Slides.Piece
import SlideDeck.Proofs.Slides.Level
import SlideDeck.Proofs.Slides.Steps
import SlideDeck.Proofs.Slides.Stands
import SlideDeck.Proofs.Slides.Agreement
import SlideDeck.Proofs.Slides.Arrival
import SlideDeck.Proofs.Slides.Reference
import SlideDeck.Proofs.Slides.Thinned
import SlideDeck.Proofs.Slides.Tally
import SlideDeck.Proofs.Slides.Counting
import SlideDeck.Proofs.Slides.Passing
import SlideDeck.Proofs.Slides.Blanks
import SlideDeck.Proofs.Slides.Whole
import SlideDeck.Proofs.Slides.Layout
import SlideDeck.Proofs.Slides.Survival
import SlideDeck.Proofs.Slides.Shape
import SlideDeck.Proofs.Slides.Confinement
import SlideDeck.Proofs.Slides.Nesting
import SlideDeck.Proofs.Slides.Inert
import SlideDeck.Proofs.Slides.Relabelling
import SlideDeck.Proofs.Slides.LookAhead
import SlideDeck.Proofs.Slides.Region
import SlideDeck.Proofs.Slides.Skipping
import SlideDeck.Proofs.Slides.Label
import SlideDeck.Proofs.Slides.Preamble
import SlideDeck.Proofs.Slides.Leaf
import SlideDeck.Proofs.Slides.Soundness
import SlideDeck.Proofs.Slides.Upkeep
import SlideDeck.Proofs.Slides.Callbacks
import SlideDeck.Proofs.Node.Leaves
import SlideDeck.Proofs.Node.Filled
import SlideDeck.Proofs.Node.Minified
import SlideDeck.Proofs.Text.Delimited
import SlideDeck.Proofs.Text.Lines
import SlideDeck.Proofs.Node.Markup
import SlideDeck.Proofs.Node.Outline
import SlideDeck.Proofs.Props
import SlideDeck.Proofs.Text.Blank
import SlideDeck.Proofs.Text.LowerCase
import SlideDeck.Proofs.Slides.SkipComment
import SlideDeck.Proofs.Slides.Course
import SlideDeck.Proofs.Slides.Markerless
import SlideDeck.Proofs.Slides.Unfired
import SlideDeck.Proofs.Slides.Numbered
import SlideDeck.Proofs.Plugin
import SlideDeck.Proofs.Walk.Protocol
import SlideDeck.Proofs.Walk.Rewriting
import SlideDeck.Proofs.Walk.Ending
import SlideDeck.Proofs.Walk.Frames
import SlideDeck.Proofs.Import
import SlideDeck.Proofs.Json.Numeral
import SlideDeck.Proofs.Json.RoundTrip
import SlideDeck.Proofs.Json.Grammar
import SlideDeck.Proofs.Json.Skimming
import SlideDeck.Proofs.Json.Settling
import SlideDeck.Proofs.Json.Nested
import SlideDeck.Proofs.Json.Acceptance
import SlideDeck.Proofs.Json.Stricter
import SlideDeck.Proofs.Options.RoundTrip
import SlideDeck.Proofs.Options.Properties
import SlideDeck.Proofs.Options.Fields
import SlideDeck.Proofs.Options.Entries
import SlideDeck.Proofs.Options.Forms
import SlideDeck.Proofs.Walk.Orders
import SlideDeck.Proofs.Walk.Lineage
import SlideDeck.Proofs.Slides.Segments
import SlideDeck.Proofs.Slides.Owners
