import Typings.Model.Basic
import Typings.Settings.Basic

/-!
# Representation of enums

Enums of texts become unions of literals, by name or at every use, or enums without values. Enums of
numbers always keep their values.

## Main definitions

* `EnumDeclaration.toAlias`: an enum as the alias of the union of its values.
* `Model.inlineEnums`: replaces references to enums by their values.
* `Model.representEnums`: the model with its enums represented.
-/

namespace Typings

namespace EnumDeclaration

/-- Whether the values are texts. -/
def isStringBased (e : EnumDeclaration) : Bool :=
  e.kind == .stringBased

/-- The texts of the members; a member without a text stands for its name. -/
def texts (e : EnumDeclaration) : List String :=
  e.members.map fun m => (m.value.bind (·.text?)).getD m.name

/-- The alias of the union of the values. -/
def toAlias (e : EnumDeclaration) : AliasDeclaration :=
  { origin := some e.origin
    symbol := e.symbol
    definition := .literalUnion e.texts
    comments := e.comments }

def valued (e : EnumDeclaration) : EnumDeclaration :=
  { e with representation := .valued }

/-- The enum with names only. -/
def placeholder (e : EnumDeclaration) : EnumDeclaration :=
  { e with
    members := e.members.map fun m => { m with value := none }
    representation := .numericPlaceholder }

end EnumDeclaration

/-- A map ordered by symbol, with an entry set. -/
def insertBySymbol {α : Type} (symbol : Symbol) (value : α) :
    List (Symbol × α) → List (Symbol × α)
  | [] => [(symbol, value)]
  | (key, old) :: rest =>
    if symbol.id < key.id then (symbol, value) :: (key, old) :: rest
    else if symbol = key then (symbol, value) :: rest
    else (key, old) :: insertBySymbol symbol value rest

namespace Model

/-- Enums of texts as aliases, the other enums with values. -/
def enumsAsAliases (model : Model) : Model :=
  { model with
    aliases := model.aliases ++ (model.enums.filter (·.isStringBased)).map (·.toAlias)
    enums := (model.enums.filter fun e => !e.isStringBased).map (·.valued) }

/-- Replaces references to inlined enums by their definitions in the selected declarations. -/
def inlineEnums (model : Model) (selects : DataDeclaration → Bool) : Model :=
  model.mapDataTypes selects (·.replaceBare fun symbol => model.inlinedEnums.lookup symbol)

/-- Enums of texts at every use, the other enums with values. The aliases of the enums are not
declared; their definitions are kept for declarations that come later. -/
def enumsInlined (model : Model) : Model :=
  let converted := (model.enums.filter (·.isStringBased)).map (·.symbol)
  let aliased := model.enumsAsAliases
  let isConverted := fun (a : AliasDeclaration) => converted.contains a.symbol
  let recorded :=
    { aliased with
      aliases := aliased.aliases.filter fun a => !isConverted a
      inlinedEnums := (aliased.aliases.filter isConverted).foldl
        (fun entries (a : AliasDeclaration) => insertBySymbol a.symbol a.definition entries)
        aliased.inlinedEnums }
  -- earlier definitions are in the record as well, so they are replaced again
  recorded.inlineEnums fun _ => true

def representEnums (mapping : EnumMapping) (model : Model) : Model :=
  match mapping with
  | .literalUnion => model.enumsAsAliases
  | .inlinedLiteralUnion => model.enumsInlined
  | .numericPlaceholder =>
    { model with
      enums := model.enums.map fun e => if e.isStringBased then e.placeholder else e.valued }
  | .unmodified => { model with enums := model.enums.map (·.valued) }

end Model

end Typings
