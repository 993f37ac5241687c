import CanonicalEquation.Main
import CanonicalEquation.Proofs.Decimal.Rendering
import CanonicalEquation.Proofs.Text.Words
import CanonicalEquation.Proofs.Monomial
import CanonicalEquation.Proofs.Term.Reading
import CanonicalEquation.Proofs.Combination
import CanonicalEquation.Proofs.Equation.Tally
import CanonicalEquation.Proofs.Equation.CanonicalText
import CanonicalEquation.Proofs.Equation.Side
import CanonicalEquation.Proofs.Equation.Sides
import CanonicalEquation.Proofs.Token
import CanonicalEquation.Proofs.Equation.Migration
import CanonicalEquation.Proofs.Group.Content
import CanonicalEquation.Proofs.Group.Opening
import CanonicalEquation.Proofs.Group.Enclosure
import CanonicalEquation.Proofs.Group.Multiplier
import CanonicalEquation.Proofs.Group.Replacement
import CanonicalEquation.Proofs.Written.Reading
import CanonicalEquation.Proofs.CanonicalForm
import CanonicalEquation.Proofs.Written.CanonicalForm
import CanonicalEquation.Proofs.Written.SignRun
import CanonicalEquation.Proofs.Equation.Place
import CanonicalEquation.Proofs.Group.Kept
import CanonicalEquation.Proofs.Group.Alike
import CanonicalEquation.Proofs.Group.Front
import CanonicalEquation.Proofs.Group.Approach
import CanonicalEquation.Proofs.Group.Insertion
import CanonicalEquation.Proofs.Group.Words
import CanonicalEquation.Proofs.Group.Opened
import CanonicalEquation.Proofs.Distribution
import CanonicalEquation.Proofs.Equation.CanonicalTerms
import CanonicalEquation.Proofs.Equation.Rendering
import CanonicalEquation.Proofs.NormalForm
import CanonicalEquation.Proofs.Shape
import CanonicalEquation.Proofs.Acceptance
import CanonicalEquation.Proofs.Reordering
import CanonicalEquation.Proofs.Transposition
import CanonicalEquation.Proofs.MissingOperator
import CanonicalEquation.Proofs.Group.Context
import CanonicalEquation.Proofs.Group.Quotation
import CanonicalEquation.Proofs.Report
import CanonicalEquation.Proofs.CommandLine.Batch
import CanonicalEquation.Proofs.CommandLine.Interactive
import CanonicalEquation.Proofs.Group.Pieces
import CanonicalEquation.Proofs.Equation.Blame
import CanonicalEquation.Proofs.MisplacedToken
import CanonicalEquation.Proofs.EqualitySign
import CanonicalEquation.Proofs.NumericalOrder
import CanonicalEquation.Proofs.Equation.SignedSequence
import CanonicalEquation.Proofs.Equation.Summation
import CanonicalEquation.Proofs.Decimal.Canonical
import CanonicalEquation.Proofs.Decimal.Rounding
import CanonicalEquation.Proofs.Term.Grammar
import CanonicalEquation.Proofs.SequenceReaders
import CanonicalEquation.Proofs.Decimal.LeastPlaces
import CanonicalEquation.Proofs.Term.Comparison
import CanonicalEquation.Proofs.SequenceGrammar
import CanonicalEquation.Proofs.Text.Spacing
import CanonicalEquation.Proofs.TokenStreams
