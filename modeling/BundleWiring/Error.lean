import BundleWiring.Decimal.Integer
import BundleWiring.Decimal.Reader
import BundleWiring.Filter.Reader
import BundleWiring.Header
import BundleWiring.Names
import BundleWiring.Text.Quoted
import BundleWiring.Version.Range

/-!
# Errors

The causes for which manifests, features, clauses and their parts are refused, and their wording.
Below the causes stand the readers that report them.
-/

namespace BundleWiring

open Decimal Text

/-- Why a text is no value of its declared type. -/
inductive ValueFault where
  /-- The text is no integer. -/
  | integer (fault : IntegerFault)
  /-- The text is no double. -/
  | double (fault : DoubleFault)
  /-- The text is no version. -/
  | version (text : String)

/-- What a package is named for. -/
inductive PackageUse where
  /-- It is imported. -/
  | importing
  /-- It is exported. -/
  | exporting
  deriving DecidableEq

/-- The verb of a use. -/
def PackageUse.verb : PackageUse → String
  | .importing => "importing"
  | .exporting => "exporting"

/-- A rule for manifests and clauses that well-formed input violates. -/
inductive RuleFault where
  /-- A clause without a namespace. -/
  | blankNamespace
  /-- A name that is both a directive and an attribute of a clause. -/
  | ambiguousName (name ns : String)
  /-- A mandatory attribute that the capability does not have. -/
  | missingMandatory (name ns : String)
  /-- A declared type that there is not. -/
  | unknownType (type name : String)
  /-- A declared list type whose element type cannot be read. -/
  | badListType (name type : String)
  /-- A manifest of another format version, or of none. -/
  | manifestVersion (found : Option String)
  /-- A manifest without a symbolic name. -/
  | missingSymbolicName
  /-- A symbolic name that is not one path. -/
  | ambiguousSymbolicName
  /-- A fragment host that is not one path. -/
  | ambiguousHost
  /-- A namespace of wiring in a header for other namespaces. -/
  | wiringNamespace (header ns : String)
  /-- Two versions of a package that differ. -/
  | versionMismatch (package : String)
  /-- A package without a proper name. -/
  | emptyPackage (use : PackageUse)
  /-- A package of the platform. -/
  | platformPackage (use : PackageUse) (package : String)
  /-- A dynamic import that ends in the middle of a name with a star. -/
  | partialWildcard (package : String)
  /-- A package that is imported twice. -/
  | duplicateImport (package : String)
  /-- An exported package that names its bundle itself. -/
  | exportNamesBundle
  /-- A bundle of a feature that is not known. -/
  | unknownBundle (location feature : String) (version : Version)

/-- Why something is refused. -/
inductive Error where
  /-- A header that cannot be read. -/
  | header (text : String) (fault : Header.Fault)
  /-- A filter that cannot be read. -/
  | filter (text : String) (fault : Filter.Fault)
  /-- A version that cannot be read. -/
  | version (text : String)
  /-- A version range that cannot be read. -/
  | versionRange (text : String)
  /-- An attribute value that is not of its declared type. -/
  | value (name raw : String) (fault : ValueFault)
  /-- A violated rule. -/
  | rule (fault : RuleFault)

/-- The wording of a version that cannot be read. -/
def invalidVersionMessage (text : String) : String :=
  "invalid version '" ++ text ++ "'"

/-- The wording of a fault. -/
def ValueFault.message : ValueFault → String
  | .integer fault => fault.message
  | .double fault => fault.message
  | .version text => invalidVersionMessage text

/-- The wording of a violated rule. -/
def RuleFault.message : RuleFault → String
  | .blankNamespace => "namespace must not be empty"
  | .ambiguousName name ns => s!"'{name}' is both a directive and an attribute of {ns}"
  | .missingMandatory name ns => s!"mandatory attribute '{name}' does not exist on {ns}"
  | .unknownType type name => s!"unknown attribute type '{type}' for '{name}'"
  | .badListType name type => s!"invalid list type for attribute '{name}': {type}"
  | .manifestVersion found =>
    "unsupported " ++ Names.manifestVersionHeader ++ ": " ++ found.getD "<none>"
  | .missingSymbolicName => "missing " ++ Names.symbolicNameHeader
  | .ambiguousSymbolicName => "Bundle-SymbolicName must name exactly one bundle"
  | .ambiguousHost => "Fragments cannot have multiple hosts"
  | .wiringNamespace header ns => s!"{header} cannot be used for the '{ns}' namespace"
  | .versionMismatch package =>
    s!"version and specification-version do not match for '{package}'"
  | .emptyPackage use => use.verb ++ " package names cannot be empty"
  | .platformPackage use package => use.verb ++ " java.* packages is not allowed: " ++ package
  | .partialWildcard package =>
    "partial wildcards are not allowed in dynamic imports: " ++ package
  | .duplicateImport package => "duplicate import: " ++ package
  | .exportNamesBundle => "exports must not specify bundle symbolic name or bundle version"
  | .unknownBundle location feature version =>
    "unknown bundle " ++ location ++ " in feature " ++ feature ++ "/" ++ version.text

/-- The wording of an error. -/
def Error.message : Error → String
  | .header text fault => "unable to parse header '" ++ text ++ "': " ++ fault.message
  | .filter text fault => "invalid filter '" ++ text ++ "': " ++ fault.message
  | .version text => invalidVersionMessage text
  | .versionRange text => "invalid version range '" ++ text ++ "'"
  | .value name raw fault =>
    "invalid value for attribute '" ++ name ++ "': " ++ quoted raw ++ ": " ++ fault.message
  | .rule fault => fault.message

/-! ### Readers -/

/-- The version in a text. -/
def Version.read (text : String) : Except Error Version :=
  (parse? text).elim (.error (.version text)) .ok

/-- The version with these numbers and this qualifier. -/
def Version.ofParts (major minor micro : UInt32) (qualifier : Option String) :
    Except Error Version :=
  let v := ofNumbers major minor micro
  match qualifier with
  | none => .ok v
  | some q => (v.withQualifier? q).elim (.error (.version (v.text ++ "." ++ q))) .ok

/-- The version range in a text. -/
def VersionRange.read (text : String) : Except Error VersionRange :=
  (parse? text).elim (.error (.versionRange text)) .ok

/-- The clauses of a header. -/
def Header.read (text : String) : Except Error (List HeaderClause) :=
  (parse text).mapError (.header text)

/-- The filter in a text. -/
def Filter.read (text : String) : Except Error Filter :=
  (parse text).mapError (.filter text)

end BundleWiring
