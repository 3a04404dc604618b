import BundleWiring.Manifest.Parts

/-!
# Bundles, Hosts and Fragments

The symbolic name of a manifest gives a capability that others may require, and a second one, with
the same attributes and directives, that fragments may attach to. A fragment requires its host.
-/

namespace BundleWiring.Manifest

/-- The symbolic name in a header and the capability of the bundle with this name and version. -/
def readSymbolicName (text : String) (version : Version) : Except Error (String × Capability) := do
  let (c, name) ← singlePath .ambiguousSymbolicName (← Header.read text)
  let fixed : Attributes :=
    .ofList [(Names.bundle, .str name), (Names.bundleVersion, .version version)]
  let others ← typedAttributes c [Names.bundle, Names.bundleVersion]
  return (name, ← Capability.ofParts Names.bundle c.directives (fixed.insertAll others))

/-- The capability that fragments of a bundle attach to: the capability of the bundle, with the
name of the bundle under the namespace of hosts. -/
def hostCapability (bundle : Capability) : Except Error Capability :=
  Capability.ofParts Names.host bundle.directives <| .ofList <|
    bundle.attributes.entries.map fun (name, value) =>
      (if name = Names.bundle then Names.host else name, value)

/-- Whether fragments may attach to a bundle. -/
def isAttachable (bundle : Capability) : Bool :=
  bundle.directives.get? Names.fragmentAttachment != some Names.never

/-- The requirement of a fragment that the bundle in a header is its host. -/
def readFragmentHost (text : String) : Except Error Requirement := do
  let (c, host) ← singlePath .ambiguousHost (← Header.read text)
  requiredBundle Names.host c (← bundleRange c) host

end BundleWiring.Manifest
