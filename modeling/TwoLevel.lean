import TwoLevel.Embedded.Expansion
import TwoLevel.Journal
import TwoLevel.Main
import TwoLevel.Proofs.Canonicity
import TwoLevel.Proofs.CoveredRows
import TwoLevel.Proofs.CutOff
import TwoLevel.Proofs.Enumeration
import TwoLevel.Proofs.MergeTrace
import TwoLevel.Proofs.Nesting
import TwoLevel.Proofs.Outcomes
import TwoLevel.Proofs.Productions
import TwoLevel.Proofs.RoundTrip
import TwoLevel.Proofs.SameRows
import TwoLevel.Proofs.Sheets
import TwoLevel.Proofs.LeastCover
import TwoLevel.Proofs.Arguments
import TwoLevel.Proofs.CallValues
import TwoLevel.Proofs.Channels
import TwoLevel.Proofs.Reordering
import TwoLevel.Proofs.SharedTokens
import TwoLevel.Proofs.CanonicalForms
import TwoLevel.Proofs.Dependence
import TwoLevel.Proofs.Juxtaposition
import TwoLevel.Proofs.ViablePrefixes
import TwoLevel.Proofs.SelectionTrace
import TwoLevel.Proofs.FewestParentheses
import TwoLevel.Proofs.Tokenization
import TwoLevel.Proofs.Spellings
import TwoLevel.Proofs.MissingColumns
import TwoLevel.Proofs.MergedImplicants
import TwoLevel.Proofs.Borrowing
import TwoLevel.Proofs.AcceptedLines
import TwoLevel.Proofs.MergeLoop
import TwoLevel.Proofs.PrintedForms
