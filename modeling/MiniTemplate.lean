import MiniTemplate.Text.Blank
import MiniTemplate.Text.Split
import MiniTemplate.Text.Printable
import MiniTemplate.Text.Quoted
import MiniTemplate.Text.Lower
import MiniTemplate.Text.Base64
import MiniTemplate.Number.Decimal
import MiniTemplate.Number.Double
import MiniTemplate.Table
import MiniTemplate.Cursor
import MiniTemplate.Cursor.Call
import MiniTemplate.Directive
import MiniTemplate.Attribute
import MiniTemplate.Node
import MiniTemplate.Node.Traversal
import MiniTemplate.Node.Outline
import MiniTemplate.Remark
import MiniTemplate.Reading.Scan
import MiniTemplate.Reading.Attributes
import MiniTemplate.Reading.Piece
import MiniTemplate.Reading.Template
import MiniTemplate.Markup.Sheet
import MiniTemplate.Markup.Value
import MiniTemplate.Markup.Write
import MiniTemplate.Ref
import MiniTemplate.Vue.Expression
import MiniTemplate.Vue.Target
import MiniTemplate.Vue.Attributes
import MiniTemplate.Vue.Convert
import MiniTemplate.Vue.Converter
import MiniTemplate.Json.Basic
import MiniTemplate.Json.Write
import MiniTemplate.Json.Read
import MiniTemplate.Report.Tree
import MiniTemplate.Report.Shape
import MiniTemplate.Report
import MiniTemplate.Yaml.Fault
import MiniTemplate.Yaml.Timestamp
import MiniTemplate.Yaml.Value
import MiniTemplate.Yaml.Source
import MiniTemplate.Yaml.Plain
import MiniTemplate.Yaml.Quoted
import MiniTemplate.Yaml.Token
import MiniTemplate.Yaml.Block
import MiniTemplate.Yaml.Scan
import MiniTemplate.Yaml.Schema
import MiniTemplate.Yaml.Graph
import MiniTemplate.Yaml.Node
import MiniTemplate.Yaml.Build
import MiniTemplate.Yaml.Read
import MiniTemplate.Settings
import MiniTemplate.Text.Utf8
import MiniTemplate.Text.Newline
import MiniTemplate.Number.Integer
import MiniTemplate.Number.Real
import MiniTemplate.Path
import MiniTemplate.Settings.Load
import MiniTemplate.Command.Words
import MiniTemplate.Command.Invocation
import MiniTemplate.Command.Run
import MiniTemplate.Main
import MiniTemplate.Proofs.Run
import MiniTemplate.Proofs.Tree
import MiniTemplate.Proofs.Grammar
import MiniTemplate.Proofs.Attributes
import MiniTemplate.Proofs.Mark
import MiniTemplate.Proofs.Piece
import MiniTemplate.Proofs.Acceptance
import MiniTemplate.Proofs.Progress
import MiniTemplate.Proofs.Traversal
import MiniTemplate.Proofs.Lines
import MiniTemplate.Proofs.Tag
import MiniTemplate.Proofs.WellFormed
import MiniTemplate.Proofs.Trim
import MiniTemplate.Proofs.RoundTrip
import MiniTemplate.Proofs.Place
import MiniTemplate.Proofs.Span
import MiniTemplate.Proofs.Proper
import MiniTemplate.Proofs.TopTags
import MiniTemplate.Proofs.Backslash
import MiniTemplate.Proofs.Address
import MiniTemplate.Proofs.Marking
import MiniTemplate.Proofs.RefValue
import MiniTemplate.Proofs.Concatenation
import MiniTemplate.Proofs.Faultless
import MiniTemplate.Proofs.VueLines
import MiniTemplate.Proofs.Levels
import MiniTemplate.Proofs.DocumentOrder
import MiniTemplate.Proofs.Truncation
import MiniTemplate.Proofs.AttributeViews
import MiniTemplate.Proofs.VueExpression
import MiniTemplate.Proofs.VueAttributes
import MiniTemplate.Proofs.Conversion
import MiniTemplate.Proofs.Readable
import MiniTemplate.Proofs.Reindentation
import MiniTemplate.Proofs.FixedPoint
import MiniTemplate.Proofs.Completion
import MiniTemplate.Proofs.RemarkPlaces
import MiniTemplate.Proofs.DirectiveName
import MiniTemplate.Proofs.RefDirective
import MiniTemplate.Proofs.RefView
import MiniTemplate.Proofs.ReportShape
import MiniTemplate.Proofs.SettingsMapping
import MiniTemplate.Proofs.Utf8
import MiniTemplate.Proofs.SettingsFile
import MiniTemplate.Proofs.Ending
import MiniTemplate.Proofs.Duplicates
import MiniTemplate.Proofs.VueNames
import MiniTemplate.Proofs.VueOrder
import MiniTemplate.Proofs.VueTags
import MiniTemplate.Proofs.BeforeTag
import MiniTemplate.Proofs.Gist
import MiniTemplate.Proofs.EventSpelling
import MiniTemplate.Proofs.NormalForm
import MiniTemplate.Proofs.FirstMistake
import MiniTemplate.Proofs.SettingsRoundTrip
import MiniTemplate.Proofs.JsonRoundTrip
import MiniTemplate.Proofs.OutlineLines
import MiniTemplate.Proofs.Rounds
import MiniTemplate.Proofs.CursorSession
