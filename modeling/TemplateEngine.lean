import TemplateEngine.Document.WellFormed
import TemplateEngine.FileTree
import TemplateEngine.Main
import TemplateEngine.Proofs.Convergence
import TemplateEngine.Proofs.Faults
import TemplateEngine.Proofs.Order
import TemplateEngine.Span.Relation
import TemplateEngine.Syntax.Grammar
import TemplateEngine.Proofs.Enclosing
import TemplateEngine.Proofs.Inserters
import TemplateEngine.Proofs.Intact
import TemplateEngine.Proofs.Collateral
import TemplateEngine.Proofs.DebugMode
import TemplateEngine.Proofs.Failures
import TemplateEngine.Proofs.Reload
import TemplateEngine.Proofs.RoundTrip
import TemplateEngine.Proofs.Prefixes
import TemplateEngine.Proofs.DocumentOrder
import TemplateEngine.Proofs.OverrideTable
import TemplateEngine.Proofs.Saving
import TemplateEngine.Proofs.PrintFunctions
import TemplateEngine.Proofs.Reopening
import TemplateEngine.Proofs.Anchoring
import TemplateEngine.Proofs.Filling
import TemplateEngine.Proofs.Quoting
import TemplateEngine.Proofs.WrittenLines
import TemplateEngine.Proofs.Stored
import TemplateEngine.Proofs.Sparing
import TemplateEngine.Proofs.Footprint
import TemplateEngine.Proofs.RangeOrder
import TemplateEngine.Proofs.Lines
import TemplateEngine.Proofs.Refreshing
import TemplateEngine.Proofs.Shared
import TemplateEngine.Proofs.Notes
import TemplateEngine.Proofs.FailureNotes
import TemplateEngine.Proofs.Clearing
import TemplateEngine.Proofs.Paragraphs
import TemplateEngine.Proofs.FormFields
import TemplateEngine.Proofs.Rereading
import TemplateEngine.Proofs.Separators
import TemplateEngine.Proofs.Lexemes
import TemplateEngine.Proofs.Locating
import TemplateEngine.Proofs.Cursor
import TemplateEngine.Proofs.DistinctNames
import TemplateEngine.Proofs.Commuting
import TemplateEngine.Proofs.KeptTexts
import TemplateEngine.Proofs.Sightings
import TemplateEngine.Proofs.Collisions
