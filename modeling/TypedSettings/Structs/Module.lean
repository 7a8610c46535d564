import TypedSettings.Options
import TypedSettings.Scope
import TypedSettings.Section
import TypedSettings.Structs.Name

/-!
# The module of structs

A schema becomes a module with a provider trait and one struct for every section, in the order of `Section.walk`. The
struct of a section has one method for every accessor: it reads from the provider, or gives the struct of the nested
section. Type names are given out over the whole module, and over the modules written before it, each while the struct
of the enclosing section is planned; method names are given out within one struct.
-/

namespace TypedSettings.Structs

/-- What a method gives: a scalar, the texts of a list, or a struct. -/
inductive Gives where
  | scalar (kind : Scalar)
  | list
  | struct (name : String)
  deriving DecidableEq, Repr

/-- A method that reads at an address. -/
structure Method where
  name : String
  address : Address
  gives : Gives
  deriving DecidableEq, Repr

/-- A struct over the provider. Only the one of the whole document is made by a caller. -/
structure Struct where
  name : String
  isRoot : Bool
  address : Address
  methods : List Method
  hasLookup : Bool
  deriving DecidableEq, Repr

/-- A module with its provider trait and its structs. -/
structure Module where
  name : String
  provider : String
  structs : List Struct
  deriving DecidableEq, Repr

/-! ## Planning -/

/-- The name of the method that makes the struct of the whole document. -/
def makeName : String := "new"

/-- The name of the lookup by raw key. -/
def lookupName : String := "get"

/-- The method names that are kept from accessors. -/
def methodScope (isRoot hasLookup : Bool) : Scope :=
  let scope := Scope.empty "_"
  let scope := if isRoot then scope.reserve makeName else scope
  if hasLookup then scope.reserve lookupName else scope

/-- The type name that a nested section asks for: the identifiers that lead to it, and a fixed end. -/
def nestedTypeName (chain : String) (identifier : Identifier) : String := chain ++ identifier.text ++ "Settings"

/-- The methods for a list of accessors, and the type names in use once they are planned. `names` are the method names in
use, and `chain` is made of the identifiers that lead to the section. -/
def planMethods (chain : String) (names types : Scope) : List Accessor → List Method × Scope
  | [] => ([], types)
  | accessor :: accessors =>
    let (name, names) := names.claim (snakeCase accessor.identifier.text)
    let (gives, types) := match accessor.access with
      | .scalar kind => (Gives.scalar kind, types)
      | .list => (.list, types)
      | .nested _ =>
        let (type, types) := types.claim (nestedTypeName chain accessor.identifier)
        (.struct type, types)
    let (methods, types) := planMethods chain names types accessors
    (⟨escaped name, accessor.address, gives⟩ :: methods, types)

mutual

/-- The structs of a section and of the sections inside it, and the type names in use once they are planned. -/
def planStructs (name chain : String) (isRoot : Bool) (types : Scope) : Section → List Struct × Scope
  | ⟨address, _, accessors, hasLookup⟩ =>
    let (methods, types) := planMethods chain (methodScope isRoot hasLookup) types accessors
    let (nested, types) := planNested chain types methods accessors
    (⟨name, isRoot, address, methods, hasLookup⟩ :: nested, types)

/-- The structs of the nested sections of a list of accessors, under the type names that their methods give. -/
def planNested (chain : String) (types : Scope) (methods : List Method) : List Accessor → List Struct × Scope
  | [] => ([], types)
  | ⟨identifier, _, _, access⟩ :: accessors =>
    let (here, types) := planAccess (chain ++ identifier.text) types (methods.head?.map (·.gives)) access
    let (more, types) := planNested chain types methods.tail accessors
    (here ++ more, types)

/-- The structs that an access reaches, given what its method gives. -/
def planAccess (chain : String) (types : Scope) (gives : Option Gives) : Access → List Struct × Scope
  | .nested child => match gives with
    | some (.struct name) => planStructs name chain false types child
    | _ => ([], types)
  | .scalar _ => ([], types)
  | .list => ([], types)

end

/-- The name of the module. -/
def moduleName (options : Options) : String := escaped (snakeCase (Identifier.ofKey options.enclosing).text)

/-- The type names that are kept from the module's own types. -/
def reservePrelude (types : Scope) : Scope := preludeTypes.foldl Scope.reserve types

/-- The module of a document, and the type names in use once it is planned. -/
def Module.plan (options : Options) (types : Scope) (root : Section) : Module × Scope :=
  let (provider, types) := (reservePrelude types).claim (typeName options.providerTrait)
  let (rootType, types) := types.claim (typeName options.rootType)
  let (structs, types) := planStructs rootType "" true types root
  (⟨moduleName options, provider, structs⟩, types)

end TypedSettings.Structs
