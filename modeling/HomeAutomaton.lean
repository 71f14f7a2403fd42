import HomeAutomaton.Main
import HomeAutomaton.Proofs.Resolution
import HomeAutomaton.Proofs.Identifier
import HomeAutomaton.Proofs.Collecting
import HomeAutomaton.Proofs.Closure
import HomeAutomaton.Proofs.Behaviour
import HomeAutomaton.Proofs.Termination
import HomeAutomaton.Proofs.Guarding
import HomeAutomaton.Proofs.TreeOrder
import HomeAutomaton.Proofs.TreeCoverage
import HomeAutomaton.Proofs.Revisits
import HomeAutomaton.Proofs.Unfolding
import HomeAutomaton.Proofs.Unsharing
import HomeAutomaton.Proofs.Displacement
import HomeAutomaton.Proofs.Progress
import HomeAutomaton.Proofs.Preamble
import HomeAutomaton.Proofs.Configuration
import HomeAutomaton.Proofs.Shapes
import HomeAutomaton.Proofs.RuleOrder
import HomeAutomaton.Proofs.Sameness
import HomeAutomaton.Proofs.Lookups
import HomeAutomaton.Proofs.TableEntries
import HomeAutomaton.Proofs.TableOrder
import HomeAutomaton.Proofs.ActionRecords
import HomeAutomaton.Proofs.LoadedValues
import HomeAutomaton.Proofs.Rendering
import HomeAutomaton.Model.Legibility
import HomeAutomaton.Proofs.Legibility
import HomeAutomaton.Proofs.Refusal
import HomeAutomaton.Data.Lists
import HomeAutomaton.Diagram.Reader
import HomeAutomaton.Proofs.DiagramReading
import HomeAutomaton.Proofs.VertexNames
import HomeAutomaton.Proofs.Routes
import HomeAutomaton.Proofs.OnceCopies
import HomeAutomaton.Proofs.PlainTrees
import HomeAutomaton.Proofs.Rounding
import HomeAutomaton.Proofs.DecimalRounding
import HomeAutomaton.Proofs.ShortestDecimal
import HomeAutomaton.Proofs.NumberTexts
import HomeAutomaton.Proofs.JsonReading
import HomeAutomaton.Proofs.Retraction
import HomeAutomaton.Proofs.Slugs
import HomeAutomaton.Proofs.IdentifierForm
import HomeAutomaton.Proofs.FileTrees
import HomeAutomaton.Proofs.Offers
import HomeAutomaton.Proofs.PackageNames
import HomeAutomaton.Proofs.Runs
import HomeAutomaton.Proofs.ChoiceGraph
import HomeAutomaton.Proofs.ChoiceCycles
import HomeAutomaton.Proofs.Reporting
import HomeAutomaton.Proofs.RuleEntries
import HomeAutomaton.Proofs.EventLiterals
import HomeAutomaton.Proofs.EdgeEnds
import HomeAutomaton.Proofs.Omissions
import HomeAutomaton.Proofs.FormFaults
import HomeAutomaton.Proofs.ScalarFaults
import HomeAutomaton.Proofs.FragmentReading
import HomeAutomaton.Proofs.SlugLaws
import HomeAutomaton.Proofs.GuardBrackets
import HomeAutomaton.Proofs.HollowGuards
import HomeAutomaton.Proofs.RuleOmission
import HomeAutomaton.Proofs.Utf8
import HomeAutomaton.Proofs.LongNumbers
import HomeAutomaton.Proofs.InputFaults
import HomeAutomaton.Proofs.Mentions
import HomeAutomaton.Proofs.Strays
