import SolidityVetting.Compiler.Process
import SolidityVetting.Gate.Service
import SolidityVetting.Import
import SolidityVetting.Json.Render
import SolidityVetting.Logging.Filter
import SolidityVetting.Precheck
import SolidityVetting.Proofs.Code.Trailer
import SolidityVetting.Proofs.Pattern.Frontier
import SolidityVetting.Proofs.Pattern.Search
import SolidityVetting.Proofs.Source.Pragma
import SolidityVetting.Proofs.Source.Versions
import SolidityVetting.Wire
import SolidityVetting.Proofs.Source.OpenPragma
import SolidityVetting.Proofs.Compiler.Response
import SolidityVetting.Proofs.Gate.Reach
import SolidityVetting.Proofs.Gate.Verdict
import SolidityVetting.Proofs.Pattern.Surroundings
import SolidityVetting.Proofs.Text.Lines
import SolidityVetting.Proofs.Source.Codes
import SolidityVetting.Proofs.Source.Joined
import SolidityVetting.Proofs.Compiler.Translation
import SolidityVetting.Proofs.Imports.Closure
import SolidityVetting.Proofs.Imports.Tree
import SolidityVetting.Proofs.Imports.Trusted
import SolidityVetting.Proofs.Gate.Slots
import SolidityVetting.Proofs.Gate.Accounts
import SolidityVetting.Proofs.Gate.Checks
import SolidityVetting.Proofs.Imports.Directives
import SolidityVetting.Proofs.Gate.Binding
import SolidityVetting.Proofs.Code.Metadata
import SolidityVetting.Proofs.Constraint.Reading
import SolidityVetting.Proofs.Source.DeclaredVersions
import SolidityVetting.Proofs.Source.Names
import SolidityVetting.Proofs.Source.Merge
import SolidityVetting.Proofs.Source.Assembly
import SolidityVetting.Proofs.Source.UpgradeableImports
import SolidityVetting.Proofs.Imports.Units
import SolidityVetting.Proofs.Source.PragmaReaders
import SolidityVetting.Proofs.Compiler.Objects
import SolidityVetting.Proofs.Score
import SolidityVetting.Proofs.Imports.Queries
import SolidityVetting.Proofs.Imports.Servable
import SolidityVetting.Proofs.Gate.Listing
import SolidityVetting.Proofs.Source.LineEndings
import SolidityVetting.Proofs.Code.Tiling
import SolidityVetting.Proofs.Constraint.Printed
