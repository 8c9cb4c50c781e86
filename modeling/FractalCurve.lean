import FractalCurve.Catalog.Selector
import FractalCurve.Catalog.Standard
import FractalCurve.Derivation.Interpreter
import FractalCurve.Document.Catalog
import FractalCurve.Document.Geometry
import FractalCurve.Grammar.RuleText
import FractalCurve.Proofs.Nesting
import FractalCurve.Proofs.Trail
import FractalCurve.Proofs.Branches
import FractalCurve.Proofs.OpenBranches
import FractalCurve.Proofs.Agreement
import FractalCurve.Proofs.BracketedGrammar
import FractalCurve.Proofs.Rewriting
import FractalCurve.Proofs.Refusal
import FractalCurve.Proofs.Placeholders
import FractalCurve.Proofs.Traversal
import FractalCurve.Proofs.RuleText
import FractalCurve.Proofs.RuleLanguage
import FractalCurve.Proofs.Population
import FractalCurve.Proofs.FloatRange
import FractalCurve.Proofs.Numerals
import FractalCurve.Proofs.Tokens
import FractalCurve.Proofs.WrittenFloats
import FractalCurve.Proofs.Reading
import FractalCurve.Proofs.CatalogDocument
import FractalCurve.Proofs.GeometryDocument
import FractalCurve.Proofs.Renaming
import FractalCurve.Proofs.Browsing
import FractalCurve.Proofs.Splitting
import FractalCurve.Proofs.Lines
import FractalCurve.Proofs.Fitting
import FractalCurve.Proofs.Spelling
import FractalCurve.Proofs.Arrangement
import FractalCurve.Proofs.RearrangedDocument
import FractalCurve.Proofs.FloatValue
import FractalCurve.Proofs.FloatArithmetic
import FractalCurve.Proofs.Axes
import FractalCurve.Proofs.TurnOrder
import FractalCurve.Proofs.Bounds
import FractalCurve.Proofs.FiniteArithmetic
import FractalCurve.Proofs.FiniteFit
import FractalCurve.Proofs.WholeFloats
import FractalCurve.Proofs.Turning
import FractalCurve.Proofs.Narrowing
import FractalCurve.Proofs.Distances
import FractalCurve.Proofs.Configuration
import FractalCurve.Proofs.Cycling
import FractalCurve.Proofs.DebugSteps
import FractalCurve.Proofs.DrawnLength
import FractalCurve.Proofs.RoundedSize
import FractalCurve.Proofs.DoubleSize
import FractalCurve.Proofs.Conversions
import FractalCurve.Proofs.TrigSize
import FractalCurve.Proofs.Planar
