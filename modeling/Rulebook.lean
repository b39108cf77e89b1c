import Rulebook.Main
import Rulebook.Proofs.Answers
import Rulebook.Proofs.Bases.Catalog
import Rulebook.Proofs.Constraint.Acceptance
import Rulebook.Proofs.Constraint.Agreement
import Rulebook.Proofs.Constraint.Order
import Rulebook.Proofs.Csv.Export
import Rulebook.Proofs.Grading.Blanks
import Rulebook.Proofs.Grading.History
import Rulebook.Proofs.Graph.Decoding
import Rulebook.Proofs.Graph.Renaming
import Rulebook.Proofs.Native.Footprint
import Rulebook.Proofs.Native.Isolation
import Rulebook.Proofs.Native.Literals
import Rulebook.Proofs.Native.Texts
import Rulebook.Proofs.Ontology.Literals
import Rulebook.Proofs.Ontology.Shapes
import Rulebook.Proofs.Package.Substitution
import Rulebook.Proofs.Script.Naming
import Rulebook.Proofs.Sheet.Agreement
import Rulebook.Proofs.Shipped.NullHandling
import Rulebook.Proofs.Workbook.Update
import Rulebook.Scenario
