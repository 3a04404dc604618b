import BundleWiring.Manifest.Parts
import BundleWiring.Text.Delimited

/-!
# Execution Environments

A bundle lists the execution environments that it runs in, each as a name with an optional version
after its last dash. A name of two parts, separated by a slash, may carry the version at either
part; an entry whose parts carry different versions is skipped. All environments together are one
requirement that is met by any of them.
-/

namespace BundleWiring.Manifest

open Text

/-- An execution environment: its name and the text of its version. -/
structure Environment where
  /-- The name. -/
  name : List Char
  /-- The version, if one is given. -/
  version : Option (List Char)

namespace Environment

/-- The text before the last dash and the text after it. -/
def splitVersion (s : List Char) : Environment :=
  match s.reverse.span (· != '-') with
  | (_, []) => ⟨s, none⟩
  | (version, _ :: name) => ⟨name.reverse, some version.reverse⟩

/-- The environment whose name has two parts, if their versions agree. -/
def join? (left right : Environment) : Option Environment :=
  let joined : Environment :=
    ⟨left.name ++ '/' :: right.name, left.version <|> right.version⟩
  match left.version, right.version with
  | some v, some w => if v = w then some joined else none
  | _, _ => some joined

/-- The environment that an entry of a list stands for. -/
def ofEntry? (entry : List Char) : Option Environment :=
  match entry.span (· != '/') with
  | (_, []) => some (splitVersion entry)
  | (left, _ :: right) => (splitVersion (trim left)).join? (splitVersion (trim right))

/-- The name of an environment as capabilities have it; one environment was renamed. -/
def currentName (e : Environment) : String :=
  let name := String.ofList e.name
  if name = "J2SE" then "JavaSE" else name

/-- The condition that a capability is an environment. -/
def filter (e : Environment) : Except Error Filter :=
  let named := Filter.eq Names.environment e.currentName
  match e.version with
  | none => .ok named
  | some text =>
    (fun v => .and [named, .eq Names.version v.text]) <$> Version.read (String.ofList text)

end Environment

/-- The environments of a list, in order. Empty entries and entries with two versions are
skipped. -/
def environments (text : String) : List Environment :=
  ((delimited text "," true).filter (· ≠ "")).filterMap (Environment.ofEntry? ·.toList)

/-- The condition that one of some conditions holds; one condition stands for itself. -/
def disjunction? : List Filter → Option Filter
  | [] => none
  | [f] => some f
  | fs => some (.or fs)

/-- The requirement for one of the listed environments, if there are any. -/
def readEnvironments (text : String) : Except Error (List Requirement) := do
  match disjunction? (← (environments text).mapM (·.filter)) with
  | none => return []
  | some f =>
    return [← Requirement.withFilter Names.environment (.ofList [(Names.filter, f.text)]) .empty f]

end BundleWiring.Manifest
