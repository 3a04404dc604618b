/-!
# Settings

What can be chosen: whether optional requirements take part in resolution, whether manifests must
be of format version 2, and which attributes the capability sets of a repository are indexed by.
-/

namespace BundleWiring

/-- The settings of manifests, repositories and resolution. -/
structure Config where
  /-- Optional requirements take part in resolution. -/
  resolveOptional : Bool := false
  /-- Manifests must be of format version 2. -/
  requireManifestVersion2 : Bool := true
  /-- The indexed attributes, the same ones for all namespaces. -/
  indexAttributes : Option (List String) := none

namespace Config

instance : Inhabited Config := ⟨{}⟩

/-- The environment variable that lets optional requirements take part in resolution. -/
def resolveOptionalVariable : String := "FAB_RESOLVE_OPTIONAL"

/-- The environment variable that admits manifests of any format version. -/
def lenientManifestVariable : String := "FAB_LENIENT_MANIFEST"

/-- The settings for an environment in which the given variables are set, to whatever value. -/
def ofEnvironment (isSet : String → Bool) : Config where
  resolveOptional := isSet resolveOptionalVariable
  requireManifestVersion2 := !isSet lenientManifestVariable

/-- The attributes that capabilities of a namespace are indexed by: the one named like the
namespace, unless others were chosen. -/
def indexAttributesFor (config : Config) (ns : String) : List String :=
  config.indexAttributes.getD [ns]

end Config

end BundleWiring
