import BundleWiring.Manifest.Parts

/-!
# Required Bundles and Generic Capabilities

A required bundle is a requirement for the name of the bundle and a range of versions. Other
namespaces have generic headers: each path of a clause is a namespace, and a requirement without a
directive `filter` takes every capability of its namespace. Namespaces of wiring are refused there.
-/

namespace BundleWiring.Manifest

/-- The bundles that a bundle requires. -/
def readRequiredBundles (text : String) : Except Error (List Requirement) := do
  let requirements (c : HeaderClause) : Except Error (List Requirement) := do
    let range ← bundleRange c
    c.paths.mapM (requiredBundle Names.bundle c range)
  return (← (← clausesOf text).mapM requirements).flatten

/-- Refuses the namespaces of wiring in a generic header. -/
def checkNamespace (header ns : String) : Except Error Unit :=
  if Names.wiring.toList.isPrefixOf ns.toList then .error (.rule (.wiringNamespace header ns))
  else .ok ()

/-- The capabilities in a generic header, one for each path. -/
def readCapabilities (text : String) : Except Error (List Capability) := do
  forEachPath (← clausesOf text) fun c ns => do
    checkNamespace Names.provideCapabilityHeader ns
    Capability.ofParts ns c.directives (.ofList (← typedAttributes c []))

/-- The requirements in a generic header, one for each path. -/
def readRequirements (text : String) : Except Error (List Requirement) := do
  let requirements (c : HeaderClause) : Except Error (List Requirement) := do
    let filter ← (c.directives.get? Names.filter).elim (.ok .all) Filter.read
    c.paths.mapM fun ns => do
      checkNamespace Names.requireCapabilityHeader ns
      Requirement.withFilter ns c.directives (.ofList (← typedAttributes c [])) filter
  return (← (← clausesOf text).mapM requirements).flatten

end BundleWiring.Manifest
