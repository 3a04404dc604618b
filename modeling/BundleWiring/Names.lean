/-!
# Names

The names that manifests, capabilities and requirements are made of: namespaces, kinds of
resources, attributes, directives and their values, and headers.
-/

namespace BundleWiring.Names

/-! ### Namespaces -/

/-- What every resource is: its name, kind and version. -/
def identity : String := "osgi.identity"

/-- Bundles that others may require. -/
def bundle : String := "osgi.wiring.bundle"

/-- Bundles that fragments may attach to. -/
def host : String := "osgi.wiring.host"

/-- Packages that bundles export. -/
def package : String := "osgi.wiring.package"

/-- What the namespaces of wiring start with; they have headers of their own. -/
def wiring : String := "osgi.wiring."

/-- Execution environments. -/
def environment : String := "osgi.ee"

/-- Services. -/
def service : String := "osgi.service"

/-- Where the content of a resource is found. -/
def uri : String := "fabric.uri"

/-! ### Kinds of resources -/

/-- A bundle. -/
def bundleKind : String := "osgi.bundle"

/-- A fragment, which attaches to a bundle. -/
def fragmentKind : String := "osgi.fragment"

/-- A feature, which groups bundles and other features. -/
def featureKind : String := "karaf.feature"

/-! ### Attributes -/

/-- The kind of a resource. -/
def type : String := "type"

/-- The version of a resource, a package or an environment. -/
def version : String := "version"

/-- The version of a bundle. -/
def bundleVersion : String := "bundle-version"

/-- The name of the bundle that exports a package. -/
def bundleSymbolicName : String := "bundle-symbolic-name"

/-- The older name of the version of a package. -/
def specificationVersion : String := "specification-version"

/-- The interface of a service. -/
def objectClass : String := "objectClass"

/-! ### Directives and their values -/

/-- The written filter of a requirement. -/
def filter : String := "filter"

/-- When a requirement has to be met. -/
def resolution : String := "resolution"

/-- A requirement that may stay unmet. -/
def optional : String := "optional"

/-- A requirement that is met when it is used. -/
def dynamic : String := "dynamic"

/-- The attributes that a requirement has to name. -/
def mandatory : String := "mandatory"

/-- When a capability or a requirement takes effect. -/
def effective : String := "effective"

/-- Takes effect while resources are resolved. -/
def resolve : String := "resolve"

/-- Takes effect when bundles run. -/
def active : String := "active"

/-- How many providers a requirement takes. -/
def cardinality : String := "cardinality"

/-- As many providers as there are, and the directive that asks for them. -/
def multiple : String := "multiple"

/-- Whether an imported service may be missing. -/
def availability : String := "availability"

/-- Whether fragments may attach to a bundle. -/
def fragmentAttachment : String := "fragment-attachment"

/-- No fragment may attach. -/
def never : String := "never"

/-! ### Headers -/

/-- The version of the manifest format. -/
def manifestVersionHeader : String := "Bundle-ManifestVersion"

/-- The name of the bundle. -/
def symbolicNameHeader : String := "Bundle-SymbolicName"

/-- The version of the bundle. -/
def versionHeader : String := "Bundle-Version"

/-- The bundle that a fragment attaches to. -/
def fragmentHostHeader : String := "Fragment-Host"

/-- The packages that the bundle exports. -/
def exportPackageHeader : String := "Export-Package"

/-- The packages that the bundle imports. -/
def importPackageHeader : String := "Import-Package"

/-- The packages that the bundle imports when it uses them. -/
def dynamicImportHeader : String := "DynamicImport-Package"

/-- The bundles that the bundle requires. -/
def requireBundleHeader : String := "Require-Bundle"

/-- Further requirements. -/
def requireCapabilityHeader : String := "Require-Capability"

/-- Further capabilities. -/
def provideCapabilityHeader : String := "Provide-Capability"

/-- The execution environments that the bundle runs in. -/
def environmentHeader : String := "Bundle-RequiredExecutionEnvironment"

/-- The services that the bundle offers. -/
def exportServiceHeader : String := "Export-Service"

/-- The services that the bundle uses. -/
def importServiceHeader : String := "Import-Service"

end BundleWiring.Names
