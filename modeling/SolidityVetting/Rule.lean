import SolidityVetting.Finding
import SolidityVetting.Pattern.Search
/-! # Source rules

The table of patterns that a source scan looks for. Every rule has a pattern for single lines; a
rule whose construct may stretch over lines in another shape has a second one for the whole text.
-/

set_option autoImplicit false

namespace SolidityVetting

inductive Wording where
  | fixed (message : String)
  /-- Words in front of the captured text. -/
  | captured (lead : String)

structure Rule where
  code : String
  severity : Severity
  linePattern : Pattern
  spanning : Option Pattern := none
  wording : Wording

namespace Rule

def wholePattern (r : Rule) : Pattern := r.spanning.getD r.linePattern

def message (r : Rule) (h : Hit) : String :=
  match r.wording with
  | .fixed message => message
  | .captured lead => lead ++ String.ofList (Text.trim h.text)

def finding (r : Rule) (h : Hit) : Finding := ⟨r.severity, r.code, r.message h, none, none⟩

section Patterns
open Pattern Text

def blanks : Pattern := zeroOrMore isBlank

def someBlanks : Pattern := oneOrMore isBlank

def wordFrom (start : String) : Pattern := wordEdge ++ exactly start ++ zeroOrMore isWord

def notBrace (c : Char) : Bool := c != '{' && c != '}'

def versionPragma : Pattern :=
  wordEdge ++ exactly "pragma" ++ someBlanks ++ exactly "solidity" ++ someBlanks ++
    capture (oneOrMore (· != ';')) ++ exactly ";"

def destruction : Pattern :=
  wordEdge ++ (exactly "selfdestruct" <|> exactly "suicide") ++ blanks ++ exactly "("

def foreignCall (name : String) : Pattern :=
  wordEdge ++ exactly name ++ blanks ++ one fun c => c == '(' || c == '{'

def transparentProxy : Pattern :=
  wordEdge ++
    ((exactly "I" <|> nothing) ++ exactly "TransparentUpgradeableProxy" <|> exactly "ProxyAdmin") ++
    wordEdge

def upgradeableImport : Pattern :=
  wordEdge ++ exactly "import" ++ wordEdge ++ zeroOrMore (· != ';') ++ anyCase "upgradeable"

def upgradeableDirective : Pattern :=
  wordEdge ++ exactly "import" ++ wordEdge ++ run .least (· != ';') ++ anyCase "upgradeable" ++
    zeroOrMore (· != ';') ++ exactly ";"

def originRead : Pattern := wordEdge ++ exactly "tx.origin" ++ wordEdge

def assemblyStart : Pattern :=
  wordEdge ++ exactly "assembly" ++ wordEdge ++ zeroOrMore (· != '{') ++ exactly "\x7b"

def create2Call : Pattern := wordEdge ++ exactly "create2" ++ blanks ++ exactly "("

/-- A `create2` call before the first closing brace of an assembly block. -/
def create2Near : Pattern := assemblyStart ++ zeroOrMore (· != '}') ++ create2Call

def flatBlock : Pattern := exactly "\x7b" ++ zeroOrMore notBrace ++ exactly "\x7d"

/-- A `create2` call at the top of an assembly block, after any number of flat blocks. -/
def create2Inside : Pattern :=
  assemblyStart ++ many .least (one notBrace <|> flatBlock) ++ create2Call

def valueTransfer : Pattern :=
  exactly ".call" ++ blanks ++ exactly "\x7b" ++ blanks ++ exactly "value" ++ blanks ++
      exactly ":" <|>
    exactly ".send" ++ blanks ++ exactly "(" <|> exactly ".transfer" ++ blanks ++ exactly "("

def reentrancyGuard : Pattern :=
  wordEdge ++ (exactly "ReentrancyGuard" ++ zeroOrMore isWord <|> exactly "nonReentrant") ++
    wordEdge

end Patterns

def table : List Rule :=
  [{ code := "SELFDESTRUCT", severity := .critical, linePattern := destruction,
     wording := .fixed
       "selfdestruct is forbidden: it lets the contract be destroyed and its funds swept" },
   { code := "DELEGATECALL", severity := .critical, linePattern := foreignCall "delegatecall",
     wording := .fixed
       "delegatecall is forbidden: it executes foreign code in this contract's storage context" },
   { code := "CALLCODE", severity := .critical, linePattern := foreignCall "callcode",
     wording := .fixed
       "callcode is forbidden: it executes foreign code in this contract's storage context" },
   { code := "ERC1967_PROXY", severity := .critical, linePattern := wordFrom "ERC1967",
     wording := .fixed
       "ERC1967 proxy patterns are forbidden: deployed contracts must not be upgradeable" },
   { code := "UUPS_PROXY", severity := .critical, linePattern := wordFrom "UUPS",
     wording := .fixed
       "UUPS upgradeability is forbidden: deployed contracts must not be upgradeable" },
   { code := "TRANSPARENT_PROXY", severity := .critical, linePattern := transparentProxy,
     wording := .fixed
       "transparent proxies are forbidden: deployed contracts must not be upgradeable" },
   { code := "UPGRADEABLE_IMPORT", severity := .critical, linePattern := upgradeableImport,
     spanning := some upgradeableDirective,
     wording := .fixed "imports from upgradeable packages are forbidden" },
   { code := "TX_ORIGIN", severity := .warning, linePattern := originRead,
     wording := .fixed
       "tx.origin used: authorization based on it is vulnerable to phishing, use msg.sender" },
   { code := "CREATE2_ASSEMBLY", severity := .warning, linePattern := create2Near,
     spanning := some create2Inside,
     wording := .fixed
       "inline assembly create2 deploys code that is not reviewed by this gate" },
   { code := "SOLIDITY_VERSION", severity := .info, linePattern := versionPragma,
     wording := .captured "Solidity compiler version: " }]

def ofCode? (code : String) : Option Rule := table.find? (·.code == code)

end Rule
end SolidityVetting
