import BundleWiring.Manifest.Capabilities
import BundleWiring.Resource

/-!
# Features

A feature groups bundles and other features. As a resource it requires each of its bundles in
exactly the version that is known for the location of the bundle, and each feature that it depends
on in the stated versions.
-/

namespace BundleWiring

open Text

/-- A bundle of a feature. -/
structure FeatureBundle where
  /-- Where the bundle is found. -/
  location : String
  /-- The bundle is installed on demand and not required. -/
  dependency : Bool

/-- A feature that another one depends on. -/
structure FeatureDependency where
  /-- The name of the feature. -/
  name : String
  /-- Blank or `0.0.0` for any version, an interval, or one version. -/
  version : String

/-- A named group of bundles and features. -/
structure Feature where
  /-- The name. -/
  name : String
  /-- The version. -/
  version : Version
  /-- The bundles of the feature. -/
  bundles : List FeatureBundle
  /-- The features that it depends on. -/
  dependencies : List FeatureDependency
  /-- Further capabilities, each text in the syntax of the generic header. -/
  capabilities : List String
  /-- Further requirements, each text in the syntax of the generic header. -/
  requirements : List String

/-- The requirement for a resource with a name and a kind, and with a version from a range if one
is given. -/
def identityRequirement (name kind : String) (range : Option VersionRange) :
    Except Error Requirement :=
  Requirement.ofParts Names.identity .empty <| .ofList <|
    (Names.identity, .str name) :: (Names.type, .str kind) ::
      (range.map fun r => (Names.version, AttrValue.range r)).toList

namespace FeatureDependency

/-- The versions that a dependency admits; none stands for all. -/
def range (d : FeatureDependency) : Except Error (Option VersionRange) :=
  let text := trimText d.version
  if text = "" ∨ text = "0.0.0" then .ok none
  else if ['['].isPrefixOf text.toList || ['('].isPrefixOf text.toList then
    some <$> VersionRange.read text
  else (fun v => some (.exact v)) <$> Version.read text

/-- The requirement that a feature is there. -/
def requirement (d : FeatureDependency) : Except Error Requirement := do
  identityRequirement d.name Names.featureKind (← d.range)

end FeatureDependency

namespace Feature

variable (f : Feature)

/-- The requirement that a bundle is there, in the version of the resource at its location. -/
def bundleRequirement (known : Table Resource) (b : FeatureBundle) : Except Error Requirement :=
  match known.get? b.location with
  | none => .error (.rule (.unknownBundle b.location f.name f.version))
  | some r => identityRequirement r.name r.kind (some (.exact r.version))

/-- The feature as a resource; `known` holds the resources at the locations of bundles. -/
def resource (known : Table Resource) : Except Error Resource := do
  let bundles ← (f.bundles.filter (!·.dependency)).mapM (f.bundleRequirement known)
  let dependencies ← f.dependencies.mapM (·.requirement)
  let capabilities ← f.capabilities.mapM Manifest.readCapabilities
  let requirements ← f.requirements.mapM Manifest.readRequirements
  return {
    name := f.name
    kind := Names.featureKind
    version := f.version
    system := false
    provided := capabilities.flatten
    requirements := bundles ++ dependencies ++ requirements.flatten }

end Feature

end BundleWiring
