import BundleWiring.Config
import BundleWiring.Manifest.Capabilities
import BundleWiring.Manifest.Environments
import BundleWiring.Manifest.Identity
import BundleWiring.Manifest.Packages
import BundleWiring.Manifest.Services
import BundleWiring.Resource

/-!
# Resources from Manifests

A manifest describes a bundle or a fragment. Its capabilities are the location of its content, the
bundle and the host that it is, its packages, its generic capabilities and its services; its
requirements are the host of a fragment, imported packages, required bundles, generic requirements,
dynamic imports, execution environments and services, in this order.
-/

namespace BundleWiring

open Text

/-- The headers of a manifest by name. -/
structure Manifest where
  /-- The values of the headers. -/
  headers : Table String

namespace Manifest

variable (m : Manifest)

/-- The trimmed value of a header that is not blank. -/
def header? (name : String) : Option String :=
  ((m.headers.get? name).map trimText).filter (· ≠ "")

/-- The trimmed value of a header, or the empty text. -/
def header (name : String) : String :=
  (m.header? name).getD ""

/-- Refuses manifests of another format version, if the settings ask for version 2. -/
def checkManifestVersion (config : Config) : Except Error Unit :=
  let found := m.header? Names.manifestVersionHeader
  if config.requireManifestVersion2 && found != some "2" then
    .error (.rule (.manifestVersion found))
  else .ok ()

/-- The capability that the content of a resource is found at a location. -/
def locationCapability (uri : String) : Except Error Capability :=
  Capability.ofParts Names.uri .empty (.ofList [(Names.uri, .str uri)])

/-- The capabilities of a bundle that others require or attach to; a fragment has none. -/
def bundleCapabilities (bundle : Capability) (isFragment : Bool) : Except Error (List Capability) :=
  if isFragment then .ok []
  else if isAttachable bundle then (fun host => [bundle, host]) <$> hostCapability bundle
  else .ok [bundle]

/-- The resource that a manifest describes, with the location of its content if it is known. -/
def resource (config : Config) (uri : Option String) : Except Error Resource := do
  m.checkManifestVersion config
  let version ← (m.header? Names.versionHeader).elim (.ok .zero) Version.read
  let nameText ← (m.header? Names.symbolicNameHeader).elim (.error (.rule .missingSymbolicName)) .ok
  let (name, bundle) ← readSymbolicName nameText version
  let host ← (m.header? Names.fragmentHostHeader).elim (.ok []) fun text =>
    ([·]) <$> readFragmentHost text
  let location ← uri.elim (.ok []) fun uri => ([·]) <$> locationCapability uri
  let bundles ← bundleCapabilities bundle !host.isEmpty
  let exports ← readExports (m.header Names.exportPackageHeader) name version
  let capabilities ← readCapabilities (m.header Names.provideCapabilityHeader)
  let exportedServices ← readExportedServices (m.header Names.exportServiceHeader)
  let imports ← readImports (m.header Names.importPackageHeader) false
  let required ← readRequiredBundles (m.header Names.requireBundleHeader)
  let requirements ← readRequirements (m.header Names.requireCapabilityHeader)
  let dynamicImports ← readImports (m.header Names.dynamicImportHeader) true
  let environments ← readEnvironments (m.header Names.environmentHeader)
  let importedServices ← readImportedServices (m.header Names.importServiceHeader)
  return {
    name, version
    kind := if host.isEmpty then Names.bundleKind else Names.fragmentKind
    system := false
    provided := location ++ bundles ++ exports ++ capabilities ++ exportedServices
    requirements := host ++ imports ++ required ++ requirements ++ dynamicImports ++
      environments ++ importedServices }

end Manifest

end BundleWiring
