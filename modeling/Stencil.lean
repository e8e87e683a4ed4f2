import Stencil.Main
import Stencil.Proofs.TokenScan
import Stencil.Proofs.LineSubstitution
import Stencil.Proofs.TemplateItems
import Stencil.Proofs.TypeDispatch
import Stencil.Proofs.RenderingOutcome
import Stencil.Proofs.ScalarOutcome
import Stencil.Proofs.TypeTree
import Stencil.Proofs.TemplateConcatenation
import Stencil.Proofs.JsonIdentity
import Stencil.Proofs.SpecAcceptance
import Stencil.Proofs.BuiltinMethods
import Stencil.Proofs.ExpansionProgress
import Stencil.Proofs.Positions
import Stencil.Proofs.Locations
import Stencil.Proofs.TemplateSearch
import Stencil.Proofs.Regeneration
import Stencil.Proofs.FlagValues
import Stencil.Proofs.SpecRequirements
import Stencil.Proofs.FlagPartition
import Stencil.Proofs.HiddenObjects
import Stencil.Proofs.PartialRuns
import Stencil.Proofs.TokenGrammar
import Stencil.Proofs.TokenPrinting
import Stencil.Proofs.InterleavedTokens
import Stencil.Proofs.PlacedTokens
import Stencil.Proofs.SpawnedTokens
import Stencil.Proofs.ErrorLines
import Stencil.Proofs.SpacedRendering
import Stencil.Proofs.Registration
import Stencil.Proofs.EngineBuild
import Stencil.Proofs.TypeLists
import Stencil.Proofs.RegisteredPatterns
import Stencil.Proofs.DispatchOrder
import Stencil.Proofs.MapForms
import Stencil.Proofs.VariantChoice
import Stencil.Proofs.AttributeLists
import Stencil.Proofs.MethodCalls
import Stencil.Proofs.IndexTexts
import Stencil.Proofs.QuotedLiterals
import Stencil.Proofs.LineEndings
import Stencil.Proofs.ReachableMethods
import Stencil.Proofs.FloatingNumerals
import Stencil.Proofs.ScalarLiterals
import Stencil.Proofs.CanonicalSpelling
import Stencil.Proofs.LineColumns
import Stencil.Proofs.ReadingBounds
import Stencil.Proofs.RenderingRecursion
