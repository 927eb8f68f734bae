import Scaffold.Env.Flaw
import Scaffold.Env.ValueType
import Scaffold.Path
import Scaffold.Target

/-!
# Faults

Everything that can go wrong in a workspace, named by its cause.  Three functions say how a fault
is shown: `Fault.message`, `Fault.code` and `Fault.help?`.  What a reader of YAML, TOML or JSON, or
the operating system, says about its own failure is not part of a fault.
-/

namespace Scaffold

/-- What was being done with a file when the operating system refused. -/
inductive FileAction where
  | readingConfig
  | readingFile
  | readingJson
  | creatingDirectory
  | writingFile
  deriving DecidableEq, Repr

/-- The wording of a file action. -/
def FileAction.name : FileAction → Text
  | .readingConfig => "reading config"
  | .readingFile => "reading file"
  | .readingJson => "reading JSON file"
  | .creatingDirectory => "creating directory"
  | .writingFile => "writing file"

/-- How the structure of a file differs from what is expected. -/
inductive Mismatch where
  | spanOutside (start stop : Nat)
  | rootNotObject
  | rootNotMapping
  | noServices
  | servicesNotMapping
  | serviceNameNotString
  | nameNotString (field : Text)
  | namesNotMapping (field : Text)
  deriving DecidableEq, Repr

/-- The wording of a mismatch. -/
def Mismatch.message : Mismatch → Text
  | spanOutside start stop =>
    "text span " ++ Text.ofNat start ++ ".." ++ Text.ofNat stop ++ " is outside the file content"
  | rootNotObject => "root value is not an object"
  | rootNotMapping => "expected a mapping at the top level"
  | noServices => "missing top-level `services` key"
  | servicesNotMapping => "`services` must be a mapping"
  | serviceNameNotString => "service names must be strings"
  | nameNotString field => "`" ++ field ++ "` names must be strings"
  | namesNotMapping field => "`" ++ field ++ "` must be a mapping"

/-- Why the settings of a compose service are not accepted. -/
inductive ServiceFlaw where
  | notMapping
  | notString (field : Text)
  | longSyntax (field : Text)
  | notList (field : Text)
  | publicWithoutPort
  deriving DecidableEq, Repr

/-- The wording of a service flaw. -/
def ServiceFlaw.message : ServiceFlaw → Text
  | notMapping => "expected a mapping"
  | notString field => "`" ++ field ++ "` must be a string"
  | longSyntax field => "`" ++ field ++ "` entries must use the short syntax"
  | notList field => "`" ++ field ++ "` must be a list"
  | publicWithoutPort => "public services need a port"

/-- A kind of literal that an edit expects. -/
inductive LiteralKind where
  | array
  | object
  deriving DecidableEq, Repr

/-- The wording of a literal kind, with its article. -/
def LiteralKind.phrase : LiteralKind → Text
  | .array => "an array"
  | .object => "an object"

/-- A failure, by its cause. -/
inductive Fault where
  -- files
  | fileNotFound (path : Path)
  | ambiguousReplacement (path : Path) (occurrences : Nat)
  | lineOutOfRange (path : Path) (start stop count : Nat)
  | invalidTarget (value : Text)
  | structuralMismatch (path : Path) (mismatch : Mismatch)
  | fileAccess (path : Path) (action : FileAction)
  | json (path : Path)
  | toml (path : Path)
  -- script text
  | markerNotFound (marker : Text) (path : Option Path)
  | unbalanced (marker : Text) (line : Nat) (path : Option Path)
  | numberNotFinite (x : Float)
  | importNotPlain (modulePath exportName : Text)
  | unexpectedRegion (marker : Text) (expected : LiteralKind)
  | duplicateEntry (marker key : Text)
  -- a line is read that is not there: this is no answer, the program stops
  | lineMissing (index count : Nat)
  -- environment
  | notDeclared (key : Text)
  | duplicateKey (key : Text) (location : Path)
  | invalidKey (key : Text)
  | missingValue (key : Text) (target : Target)
  | incompleteCalculation (key : Text) (missing : List Target)
  | unresolvedReference (key reference : Text)
  | calculationType (key : Text) (expected found : Env.ValueType)
  | invalidCalculation (key : Text) (flaw : Env.Flaw)
  | invalidDeclaration (declaration : Text) (block : Env.VariableKind)
  | invalidValue (key value : Text) (expected : Env.ValueType)
  -- compose
  | yaml (path : Path)
  | duplicateService (name : Text) (path : Path)
  | reservedSubDomain (subDomain : Text)
  | invalidService (name : Text) (flaw : ServiceFlaw)
  -- command line
  | rootNotDirectory (path : Path)

namespace Fault

/-- The place of a fault, when it is known. -/
def place : Option Path → Text
  | none => []
  | some path => " in " ++ path.text

/-- What the user is told. -/
def message : Fault → Text
  | fileNotFound path => "File not found: " ++ path.text
  | ambiguousReplacement path occurrences =>
    "Expected exactly one occurrence of the replaced text in " ++ path.text ++ ", found " ++
      Text.ofNat occurrences
  | lineOutOfRange path start stop count =>
    "Line range " ++ Text.ofNat start ++ "..=" ++ Text.ofNat stop ++ " is out of bounds for " ++
      path.text ++ " (" ++ Text.ofNat count ++ " lines)"
  | invalidTarget value => "Unknown deployment target '" ++ value ++ "'"
  | structuralMismatch path mismatch =>
    "Unexpected structure in " ++ path.text ++ ": " ++ mismatch.message
  | fileAccess path action => "I/O error during " ++ action.name ++ " at " ++ path.text
  | json path => "JSON parsing error in " ++ path.text
  | toml path => "TOML parsing error in " ++ path.text
  | markerNotFound marker path => "Marker '" ++ marker ++ "' not found" ++ place path
  | unbalanced marker line path =>
    "Unbalanced brackets after marker '" ++ marker ++ "' (line " ++ Text.ofNat line ++ ")" ++
      place path
  | numberNotFinite x =>
    "Cannot encode value as TypeScript: non-finite number " ++ Decimal.Style.plain.write x
  | importNotPlain modulePath exportName =>
    "Cannot encode value as TypeScript: lazy import of '" ++ exportName ++ "' from '" ++
      modulePath ++ "'"
  | unexpectedRegion marker expected =>
    "Region at marker '" ++ marker ++ "' is not " ++ expected.phrase
  | duplicateEntry marker key =>
    "Key '" ++ key ++ "' already exists at marker '" ++ marker ++ "' with a different value"
  | lineMissing index count =>
    "index out of bounds: the len is " ++ Text.ofNat count ++ " but the index is " ++
      Text.ofNat index
  | notDeclared key => "Environment variable '" ++ key ++ "' is not declared"
  | duplicateKey key location =>
    "Environment variable '" ++ key ++ "' already exists in " ++ location.text
  | invalidKey key => "Invalid environment variable key '" ++ key ++ "'"
  | missingValue key target =>
    "Calculated variable '" ++ key ++ "' has no value for target '" ++ target.name ++ "'"
  | incompleteCalculation key missing =>
    "Calculation for '" ++ key ++ "' does not cover " ++
      [',', ' '].intercalate (missing.map Target.name)
  | unresolvedReference key reference =>
    "Calculation for '" ++ key ++ "' references undeclared static variable '" ++ reference ++ "'"
  | calculationType key expected found =>
    "Calculation for '" ++ key ++ "' returns a " ++ found.name ++ ", but '" ++ key ++
      "' is declared as " ++ expected.name
  | invalidCalculation key flaw =>
    "Cannot read calculation for '" ++ key ++ "': " ++ flaw.message
  | invalidDeclaration declaration block =>
    "Invalid declaration '" ++ declaration ++ "' in " ++ block.blockName
  | invalidValue key value expected =>
    "Value '" ++ value ++ "' of '" ++ key ++ "' is not a valid " ++ expected.name
  | yaml path => "YAML parsing error in " ++ path.text
  | duplicateService name path => "Service '" ++ name ++ "' already exists in " ++ path.text
  | reservedSubDomain subDomain => "Sub-domain '" ++ subDomain ++ "' is reserved"
  | invalidService name flaw => "Invalid service '" ++ name ++ "': " ++ flaw.message
  | rootNotDirectory path =>
    "CLI/configuration error: workspace root " ++ path.text ++ " is not a directory"

/-- The stable name of a kind of fault; a stop has none. -/
def code : Fault → Text
  | fileNotFound .. => "monux::core::file_not_found"
  | ambiguousReplacement .. => "monux::core::ambiguous_replacement"
  | lineOutOfRange .. => "monux::core::line_out_of_range"
  | invalidTarget .. => "monux::core::invalid_target"
  | structuralMismatch .. => "monux::core::structural_mismatch"
  | fileAccess .. => "monux::core::io_error"
  | json .. => "monux::core::json_error"
  | toml .. => "monux::core::toml_error"
  | markerNotFound .. => "monux::tsedit::marker_not_found"
  | unbalanced .. => "monux::tsedit::unbalanced"
  | numberNotFinite .. | importNotPlain .. => "monux::tsedit::unsupported_value"
  | unexpectedRegion .. => "monux::tsedit::unexpected_region"
  | duplicateEntry .. => "monux::tsedit::duplicate_entry"
  | lineMissing .. => []
  | notDeclared .. => "monux::env::not_found"
  | duplicateKey .. => "monux::env::duplicate_key"
  | invalidKey .. => "monux::env::invalid_key"
  | missingValue .. => "monux::env::missing_value"
  | incompleteCalculation .. => "monux::env::incomplete_calculation"
  | unresolvedReference .. => "monux::env::unresolved_reference"
  | calculationType .. => "monux::env::calculation_type"
  | invalidCalculation .. => "monux::env::invalid_calculation"
  | invalidDeclaration .. => "monux::env::invalid_declaration"
  | invalidValue .. => "monux::env::invalid_value"
  | yaml .. => "monux::compose::yaml_error"
  | duplicateService .. => "monux::compose::duplicate_service"
  | reservedSubDomain .. => "monux::compose::reserved_sub_domain"
  | invalidService .. => "monux::compose::invalid_service"
  | rootNotDirectory .. => "monux::cli::config"

/-- What the user can do about it; nothing for the faults whose message says it all. -/
def help? : Fault → Option Text
  | fileNotFound .. =>
    some <| "Check that the workspace root is correct, or re-run the scaffolding step that " ++
      "creates this file"
  | ambiguousReplacement .. =>
    some <| "The generated file was probably edited by hand; restore the generated section and " ++
      "retry"
  | lineOutOfRange .. => none
  | invalidTarget .. =>
    some "Valid targets: dev, local, stage, prod (or the matching docker-compose file name)"
  | structuralMismatch .. =>
    some "Fix the file by hand or regenerate it from a clean state"
  | fileAccess .. =>
    some <| "Check that the referenced paths exist and that you have permission to read or " ++
      "write them"
  | json .. => some "Ensure the JSON file has valid syntax"
  | toml .. => some "Check monux.toml for syntax errors or unknown keys"
  | markerNotFound .. =>
    some <| "The generated section was removed or renamed; restore it or regenerate the file"
  | unbalanced .. => some "Check the file for a missing closing bracket"
  | numberNotFinite .. | importNotPlain .. | lineMissing .. => none
  | unexpectedRegion .. => some "Point the marker at the literal being edited"
  | duplicateEntry .. => some "Remove or rename the existing entry first"
  | notDeclared .. =>
    some <| "Declare it with `monux env add-static` or add it to the global environment model"
  | duplicateKey .. =>
    some <| "Variable keys are global; pick another name or remove the existing declaration"
  | invalidKey .. =>
    some <| "Keys are snake_case: lowercase letters, digits and underscores, starting with a " ++
      "letter"
  | missingValue .. =>
    some "Add a `case` for the target or a `default:` branch to its calculation"
  | incompleteCalculation .. => some "Define a value for every target, or a default"
  | unresolvedReference .. =>
    some <| "Calculations can only read static variables; declare the referenced variable first"
  | calculationType .. =>
    some <| "Return a value of the declared type from every branch, or change the declared type"
  | invalidCalculation .. =>
    some <| "Calculations return string, number or boolean literals, `env.<key>` references, " ++
      "or template literals over them, from a `switch (target)`"
  | invalidDeclaration .. =>
    some "Declarations have the form `key: string`, `key?: number` or `key: boolean`"
  | invalidValue .. =>
    some <| "Fix the value in the .env file; `monux env validate` lists every invalid entry"
  | yaml .. => some "Ensure the compose file has valid YAML syntax"
  | duplicateService .. =>
    some "Service names are unique per compose file; pick another name"
  | reservedSubDomain .. =>
    some <| "Omit the sub-domain to serve the root domain; www is redirected to it automatically"
  | invalidService .. =>
    some <| "Use the short syntax for ports and volumes (\"8080:80\", \"data:/var/lib/data\")"
  | rootNotDirectory .. => some "Pass --root or set MONUX_ROOT to the monorepo root"

/-- The fault, with the place it was found in when it has none yet. -/
def inFile (path : Path) : Fault → Fault
  | markerNotFound marker none => markerNotFound marker (some path)
  | unbalanced marker line none => unbalanced marker line (some path)
  | fault => fault

end Fault

end Scaffold
