import Glob.Main
import Glob.Pattern.Display
import Glob.Pattern.Sketch
import Glob.Plan
import Glob.Proofs.Pattern.Reference
import Glob.Proofs.Regex.CaseFolding
import Glob.Proofs.Text.Pieces
import Glob.Query
import Glob.Proofs.Pattern.WellFormed
import Glob.Proofs.Pattern.Nodes
import Glob.Proofs.Pattern.Segments
import Glob.Proofs.Pattern.Pieces
import Glob.Proofs.Pattern.Reading
import Glob.Proofs.Pattern.Resume
import Glob.Proofs.Pattern.Classes
import Glob.Proofs.Pattern.Built
import Glob.Proofs.Pattern.Acceptance
import Glob.Proofs.Compiling
import Glob.Proofs.Matching
import Glob.Proofs.Pattern.Bare
import Glob.Proofs.Pattern.Cutting
import Glob.Proofs.Pattern.Rejoining
import Glob.Proofs.Pattern.Alone
import Glob.Proofs.Cache
import Glob.Proofs.Plan
import Glob.Proofs.Walk
import Glob.Proofs.Pattern.Course
import Glob.Proofs.Literal
import Glob.Proofs.Pattern.Canonical
import Glob.Proofs.Pattern.Tiling
import Glob.Proofs.Pattern.Written
import Glob.Proofs.Pattern.Composition
import Glob.Proofs.Pattern.Shifting
import Glob.Proofs.Session
import Glob.Proofs.Recency
import Glob.Proofs.Pattern.LeadingDots
import Glob.Proofs.Pattern.Slices
import Glob.Proofs.Steps
import Glob.Proofs.Precise
import Glob.Proofs.Pattern.Comparison
import Glob.Proofs.Crossing
import Glob.Proofs.Caseless
import Glob.Proofs.Text.Folding
import Glob.Proofs.CaseClasses
import Glob.Proofs.Widening
import Glob.Proofs.Pattern.Spelling
import Glob.Proofs.Pattern.Exchange
import Glob.Proofs.Pattern.SpelledOut
import Glob.Proofs.Expansion
import Glob.Proofs.Text.Utf8
import Glob.Proofs.ByteOffset
import Glob.Proofs.Regex.Condensed
import Glob.Proofs.Pattern.Stars
import Glob.Proofs.Demotion
import Glob.Proofs.Pattern.Behind
import Glob.Proofs.AnyDepth
import Glob.Proofs.Pattern.Units
import Glob.Proofs.Pattern.Squeezed
import Glob.Proofs.Pattern.Thinned
import Glob.Proofs.Pattern.SideBySide
import Glob.Proofs.RedundantStars
import Glob.Proofs.Text.Verbatim
import Glob.Proofs.Verbatim
import Glob.Proofs.Merging
import Glob.Proofs.Toml
import Glob.Proofs.Configuration
import Glob.Proofs.CommandLine.Selecting
import Glob.Proofs.Token.Tiling
import Glob.Proofs.Caret
import Glob.Proofs.Pattern.Cursor
