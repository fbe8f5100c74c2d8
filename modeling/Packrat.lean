import Packrat.Lexicon.Label
import Packrat.Lexicon.Numeral
import Packrat.Proofs.Agreement
import Packrat.Proofs.Arithmetic
import Packrat.Proofs.Backtracking
import Packrat.Proofs.BinaryNumbers
import Packrat.Proofs.Bodies
import Packrat.Proofs.Boundary
import Packrat.Proofs.Calculator
import Packrat.Proofs.CallCount
import Packrat.Proofs.CallLimit
import Packrat.Proofs.Chain
import Packrat.Proofs.DecimalNumbers
import Packrat.Proofs.DecimalRules
import Packrat.Proofs.Depth
import Packrat.Proofs.Derivation
import Packrat.Proofs.Document
import Packrat.Proofs.Edition
import Packrat.Proofs.Evaluator
import Packrat.Proofs.Flattening
import Packrat.Proofs.Fold
import Packrat.Proofs.Frame
import Packrat.Proofs.Frontier
import Packrat.Proofs.Histories
import Packrat.Proofs.Identity
import Packrat.Proofs.InOrder
import Packrat.Proofs.IntegerRules
import Packrat.Proofs.IntegerValues
import Packrat.Proofs.Iteration
import Packrat.Proofs.Labels
import Packrat.Proofs.Layout
import Packrat.Proofs.LeftRecursion
import Packrat.Proofs.LetterCase
import Packrat.Proofs.Limited
import Packrat.Proofs.Lookups
import Packrat.Proofs.Memo
import Packrat.Proofs.Numeral
import Packrat.Proofs.OncePerPlace
import Packrat.Proofs.Ownership
import Packrat.Proofs.Paths
import Packrat.Proofs.Peg
import Packrat.Proofs.Place
import Packrat.Proofs.Preorder
import Packrat.Proofs.Queries
import Packrat.Proofs.Quiet
import Packrat.Proofs.Reachable
import Packrat.Proofs.Readings
import Packrat.Proofs.References
import Packrat.Proofs.Refinement
import Packrat.Proofs.Rendering
import Packrat.Proofs.Reproduction
import Packrat.Proofs.Result
import Packrat.Proofs.Run
import Packrat.Proofs.Slots
import Packrat.Proofs.Spelling
import Packrat.Proofs.Splicing
import Packrat.Proofs.Suffix
import Packrat.Proofs.Transparency
import Packrat.Proofs.Traversal
import Packrat.Proofs.ValueRules
import Packrat.Proofs.Values
import Packrat.Proofs.Variants
import Packrat.Proofs.Walk
import Packrat.Session
import Packrat.Tree.Outline
import Packrat.Tree.Shape
import Packrat.Vocabulary
