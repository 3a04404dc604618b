import BundleWiring.Attribute.Typed
import BundleWiring.Filter.Printer
import BundleWiring.Requirement

/-!
# Parts of Manifest Headers

What the headers of a manifest have in common: blank headers have no clauses, attributes are read
as their declared types, and a requirement that states attributes records the filter that they ask
for in its directive `filter`.
-/

namespace BundleWiring.Manifest

open Text

/-- The clauses of a header; a blank header has none. -/
def clausesOf (text : String) : Except Error (List HeaderClause) :=
  if (trim text.toList).isEmpty then .ok [] else Header.read text

/-- The attributes of a clause, except some, as values of their declared types; an undeclared one
is a text. -/
def typedAttributes (c : HeaderClause) (except : List String) :
    Except Error (List (String × AttrValue)) :=
  (c.attributes.entries.filter fun e => !except.contains e.1).mapM fun (name, raw) =>
    (name, ·) <$> (c.types.get? name).elim (.ok (.str raw)) (AttrValue.read name · raw)

/-- The requirement that a capability has some attributes. The attributes stay in its clause only
if `keepAttributes` is set. -/
def synthesizedRequirement (ns : String) (directives : Directives) (attributes : Attributes)
    (keepAttributes : Bool) : Except Error Requirement :=
  let filter := Filter.ofAttributes attributes
  Requirement.withFilter ns (directives.insert Names.filter filter.text)
    (if keepAttributes then attributes else .empty) filter

/-- The range of versions that a clause gives a bundle that it asks for. -/
def bundleRange (c : HeaderClause) : Except Error VersionRange :=
  (c.attributes.get? Names.bundleVersion).elim (.ok .any) VersionRange.read

/-- The requirement for a bundle of some name and of a version in a range. It is stated in the
namespace `ns`, which is also the attribute that holds the name. -/
def requiredBundle (ns : String) (c : HeaderClause) (range : VersionRange) (bundle : String) :
    Except Error Requirement := do
  let fixed : Attributes := .ofList [(ns, .str bundle), (Names.bundleVersion, .range range)]
  let others ← typedAttributes c [ns, Names.bundleVersion]
  synthesizedRequirement ns c.directives (fixed.insertAll others) true

/-- The clause and the path of a header that has to be one clause with one path. -/
def singlePath (fault : RuleFault) : List HeaderClause → Except Error (HeaderClause × String)
  | [c] =>
    match c.paths with
    | [path] => if path = "" then .error (.rule fault) else .ok (c, path)
    | _ => .error (.rule fault)
  | _ => .error (.rule fault)

/-- What a function gives for each path of each clause, in order. -/
def forEachPath {α : Type} (clauses : List HeaderClause)
    (f : HeaderClause → String → Except Error α) : Except Error (List α) :=
  List.flatten <$> clauses.mapM fun c => c.paths.mapM (f c)

end BundleWiring.Manifest
