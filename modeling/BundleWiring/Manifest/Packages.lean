import BundleWiring.Manifest.Parts

/-!
# Packages

Exported packages are capabilities with a version and the name and version of the exporting
bundle. Imported packages are requirements that the version of the package lies in a range; a
dynamic import may end in a wildcard, and other packages are imported only once.
-/

namespace BundleWiring.Manifest

open Text

/-- The version that a clause gives its packages, trimmed. It may be given under two names, but
not two different ones. -/
def packageVersion (c : HeaderClause) (package : String) : Except Error (Option String) :=
  let version := (c.attributes.get? Names.version).map trimText
  let specification := (c.attributes.get? Names.specificationVersion).map trimText
  match version, specification with
  | some v, some s => if v = s then .ok (some v) else .error (.rule (.versionMismatch package))
  | some v, none => .ok (some v)
  | none, s => .ok s

/-- Refuses packages without a name and packages of the platform. -/
def checkPackage (use : PackageUse) (package : String) : Except Error Unit :=
  if package = "" ∨ package = "." then .error (.rule (.emptyPackage use))
  else if "java.".toList.isPrefixOf package.toList then
    .error (.rule (.platformPackage use package))
  else .ok ()

/-- The attributes of a clause about packages that are read one by one, besides its version. -/
def otherAttributes (c : HeaderClause) : Except Error (List (String × AttrValue)) :=
  typedAttributes c [Names.package, Names.version, Names.specificationVersion]

/-- The capability that a bundle exports a package. -/
def exportedPackage (bundle : String) (bundleVersion : Version) (c : HeaderClause)
    (package : String) : Except Error Capability := do
  checkPackage .exporting package
  let version ← (← packageVersion c package).elim (.ok .zero) Version.read
  let fixed : Attributes :=
    .ofList [(Names.package, .str package), (Names.version, .version version)]
  let others ← otherAttributes c
  let exporter := [(Names.bundleSymbolicName, .str bundle),
    (Names.bundleVersion, .version bundleVersion)]
  Capability.ofParts Names.package c.directives ((fixed.insertAll others).insertAll exporter)

/-- The packages that a bundle exports. A clause must not name the exporting bundle itself. -/
def readExports (text bundle : String) (bundleVersion : Version) :
    Except Error (List Capability) := do
  let exports (c : HeaderClause) : Except Error (List Capability) :=
    if c.attributes.contains Names.bundleSymbolicName || c.attributes.contains Names.bundleVersion
    then .error (.rule .exportNamesBundle)
    else c.paths.mapM (exportedPackage bundle bundleVersion c)
  return (← (← clausesOf text).mapM exports).flatten

/-- Whether a package name ends with a star in the middle of a name. -/
def isPartialWildcard (package : String) : Bool :=
  let chars := package.toList
  ['*'].isSuffixOf chars && package != "*" && !(['.', '*'].isSuffixOf chars)

/-- An attribute of an import; the version of the exporting bundle is a range. -/
def importAttribute (name : String) (value : AttrValue) : Except Error (String × AttrValue) :=
  match value with
  | .str s =>
    if name = Names.bundleVersion then (name, .range ·) <$> VersionRange.read s
    else .ok (name, value)
  | _ => .ok (name, value)

/-- The requirement that a package is imported. -/
def importedPackage (dynamic : Bool) (c : HeaderClause) (package : String) :
    Except Error Requirement := do
  let version ← (← packageVersion c package).elim (.ok []) fun text =>
    (fun r => [(Names.version, AttrValue.range r)]) <$> VersionRange.read text
  let others ← (← otherAttributes c).mapM fun (name, value) => importAttribute name value
  let attributes : Attributes := .ofList ((Names.package, .str package) :: version ++ others)
  let directives :=
    if dynamic then c.directives.insert Names.resolution Names.dynamic else c.directives
  synthesizedRequirement Names.package directives attributes false

/-- The requirements for some packages, each with its clause; the packages `seen` are already
imported. -/
def importPackages (dynamic : Bool) (seen : List String) :
    List (HeaderClause × String) → Except Error (List Requirement)
  | [] => .ok []
  | (c, package) :: others => do
    checkPackage .importing package
    if dynamic && isPartialWildcard package then throw (.rule (.partialWildcard package))
    if !dynamic && seen.contains package then throw (.rule (.duplicateImport package))
    let r ← importedPackage dynamic c package
    return r :: (← importPackages dynamic (package :: seen) others)

/-- The packages that a bundle imports, at once or when it uses them. -/
def readImports (text : String) (dynamic : Bool) : Except Error (List Requirement) := do
  importPackages dynamic [] ((← clausesOf text).flatMap fun c => c.paths.map (c, ·))

end BundleWiring.Manifest
