import BundleWiring.Manifest.Parts

/-!
# Services

Exported services are capabilities and imported services are requirements. Both take effect only
when bundles run. An imported service may be optional and may have several providers; no other
directives of its clause are kept.
-/

namespace BundleWiring.Manifest

/-- The attributes of a service. -/
def serviceAttributes (c : HeaderClause) (service : String) : Except Error Attributes := do
  let fixed : Attributes := .ofList [(Names.objectClass, .str service)]
  return fixed.insertAll (← typedAttributes c [Names.objectClass])

/-- The services that a bundle exports. -/
def readExportedServices (text : String) : Except Error (List Capability) := do
  forEachPath (← clausesOf text) fun c service => do
    Capability.ofParts Names.service (c.directives.insert Names.effective Names.active)
      (← serviceAttributes c service)

/-- The directives of an imported service. -/
def importedServiceDirectives (c : HeaderClause) : Directives :=
  let optional := c.directives.get? Names.availability == some Names.optional
  let multiple := c.directives.get? Names.multiple == some "true"
  .ofList <| (Names.effective, Names.active) ::
    (if optional then [(Names.resolution, Names.optional)] else []) ++
    (if multiple then [(Names.cardinality, Names.multiple)] else [])

/-- The services that a bundle imports. -/
def readImportedServices (text : String) : Except Error (List Requirement) := do
  forEachPath (← clausesOf text) fun c service => do
    synthesizedRequirement Names.service (importedServiceDirectives c)
      (← serviceAttributes c service) false

end BundleWiring.Manifest
