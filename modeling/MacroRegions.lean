import MacroRegions.Analysis
import MacroRegions.Builder
import MacroRegions.Config
import MacroRegions.Session
import MacroRegions.Proofs.Text.Lines
import MacroRegions.Proofs.Trivia.Lexing
import MacroRegions.Proofs.Trivia.Order
import MacroRegions.Proofs.Marker.Order
import MacroRegions.Proofs.Nesting.Blocks
import MacroRegions.Proofs.Nesting.Conservation
import MacroRegions.Proofs.Nesting.OneFamily
import MacroRegions.Proofs.Nesting.OutOfOrder
import MacroRegions.Proofs.Nesting.StrictNesting
import MacroRegions.Proofs.Nesting.Strictness
import MacroRegions.Proofs.LocationTag.Writing
import MacroRegions.Proofs.LocationTag.Grammar
import MacroRegions.Proofs.Marker.Framing
import MacroRegions.Proofs.Marker.Outline
import MacroRegions.Proofs.Nesting.Relabelling
import MacroRegions.Proofs.Nesting.Weights
import MacroRegions.Proofs.Source.Lines
import MacroRegions.Proofs.Trivia.Relexing
import MacroRegions.Proofs.Trivia.Swallowing
import MacroRegions.Proofs.Update.Edits
import MacroRegions.Proofs.Update.Fitting
import MacroRegions.Proofs.Update.FixedPoint
import MacroRegions.Proofs.Nesting.Bracketing
import MacroRegions.Proofs.Forest.Ancestry
import MacroRegions.Proofs.Nesting.Enclosure
import MacroRegions.Proofs.Marker.Placement
import MacroRegions.Proofs.Update.Order
import MacroRegions.Proofs.Update.Replacement
import MacroRegions.Proofs.Update.Touching
import MacroRegions.Proofs.Update.Exactness
import MacroRegions.Proofs.Text.Phrases
import MacroRegions.Proofs.Marker.Sketch
import MacroRegions.Proofs.Nesting.Listing
import MacroRegions.Proofs.Document.Rendering
import MacroRegions.Proofs.Nesting.Reports
import MacroRegions.Proofs.Nesting.Agreement
import MacroRegions.Proofs.Update.Sharing
import MacroRegions.Proofs.Update.Effect
import MacroRegions.Proofs.Trivia.Acceptance
import MacroRegions.Proofs.Nesting.Transparency
import MacroRegions.Proofs.Document.Concatenation
import MacroRegions.Proofs.Builder.Runs
import MacroRegions.Proofs.Builder.InPlace
import MacroRegions.Proofs.Document.Failing
import MacroRegions.Proofs.Marker.Extents
import MacroRegions.Proofs.Source.Addressing
import MacroRegions.Proofs.Source.Rescan
import MacroRegions.Proofs.Trivia.Literals
import MacroRegions.Proofs.Trivia.Completeness
import MacroRegions.Proofs.LocationTag.Agreement
import MacroRegions.Proofs.Marker.Resuming
import MacroRegions.Proofs.Builder.Attachment
import MacroRegions.Proofs.Exchange.RoundTrip
import MacroRegions.Proofs.Forest.Preorder
