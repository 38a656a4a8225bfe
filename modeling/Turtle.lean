import Turtle.Main
import Turtle.Picture
import Turtle.Proofs.Unrolling
import Turtle.Proofs.Grammar
import Turtle.Proofs.Reading
import Turtle.Proofs.Acceptance
import Turtle.Proofs.Rounding
import Turtle.Proofs.Execution
import Turtle.Proofs.ShortestText
import Turtle.Proofs.CanonicalText
import Turtle.Proofs.RoundTrip
import Turtle.Proofs.Blame
import Turtle.Proofs.Lines
import Turtle.Proofs.Correspondence
import Turtle.Proofs.Concatenation
import Turtle.Proofs.Conversion
import Turtle.Proofs.Location
import Turtle.Proofs.Insertion
import Turtle.Proofs.OpenBlocks
import Turtle.Proofs.Unterminated
import Turtle.Proofs.Finality
import Turtle.Proofs.Job
import Turtle.Proofs.FileChange
import Turtle.Proofs.Effects
import Turtle.Proofs.Markup
import Turtle.Proofs.Strokes
import Turtle.Proofs.Description
import Turtle.Proofs.Resizing
import Turtle.Proofs.Overflow
import Turtle.Proofs.PlainNumeral
import Turtle.Proofs.CompactText
import Turtle.Proofs.Runs
import Turtle.Proofs.Attributes
import Turtle.Proofs.FiniteNumbers
import Turtle.Proofs.PlainDocuments
import Turtle.Proofs.Occurrence
import Turtle.Proofs.Rewording
import Turtle.Proofs.Spelling
import Turtle.Proofs.FirstCommand
import Turtle.Proofs.HexColors
import Turtle.Proofs.ColorForms
import Turtle.Proofs.ColorLanguage
import Turtle.Proofs.ValidDescriptions
import Turtle.Proofs.FlatRuns
import Turtle.Proofs.Erasure
import Turtle.Proofs.Tracing
import Turtle.Proofs.WholeNumbers
import Turtle.Proofs.Turning
import Turtle.Proofs.FinalHeading
import Turtle.Proofs.FigureTrees
import Turtle.Proofs.Titles
import Turtle.Proofs.Progress
import Turtle.Proofs.NestedCalls
import Turtle.Proofs.ExactNaturals
