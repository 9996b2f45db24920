import Typings.NamingPolicy
import Typings.Text.Lines

/-!
# Settings

## Main definitions

* `EnumMapping`, `DateMapping`, `RestGrouping`, `RestCodegen`, `SortMode`, `ClassMapping`,
  `OptionalForm`: the choices.
* `KnownTypes`: the source types that need no declaration.
* `Settings`: all settings, with their defaults.
* `Settings.fault?`: why settings cannot be used together.
-/

namespace Typings

/-- How enums are represented. -/
inductive EnumMapping where
  /-- By an alias of the union of the values. -/
  | literalUnion
  /-- By the union of the values at every use. -/
  | inlinedLiteralUnion
  /-- By an enum whose members have no values. -/
  | numericPlaceholder
  /-- By an enum with the values of the source. -/
  | unmodified
  deriving Repr, DecidableEq, Inhabited

/-- How dates are represented. -/
inductive DateMapping where
  | unmodified
  | asNumber
  | asString
  deriving Repr, DecidableEq, Inhabited

/-- How endpoints are grouped. -/
inductive RestGrouping where
  | perResource
  | perMark
  | singleApplication
  deriving Repr, DecidableEq, Inhabited

/-- What is generated for endpoints. -/
inductive RestCodegen where
  | surfaceOnly
  | clientOnly
  | both
  | neither
  deriving Repr, DecidableEq, Inhabited

/-- Whether interfaces are generated for endpoints. -/
def RestCodegen.surface : RestCodegen → Bool
  | surfaceOnly | both => true
  | clientOnly | neither => false

/-- Whether clients are generated for endpoints. -/
def RestCodegen.client : RestCodegen → Bool
  | clientOnly | both => true
  | surfaceOnly | neither => false

/-- What is sorted. -/
inductive SortMode where
  | unsorted
  /-- The properties of each declaration, by name. -/
  | propertiesOnly
  /-- The properties, and the declarations by category and name. -/
  | full
  deriving Repr, DecidableEq, Inhabited

/-- What source classes become. -/
inductive ClassMapping where
  | asInterfaces
  | asClasses
  deriving Repr, DecidableEq, Inhabited

/-- How the optional properties of data declarations are written. -/
inductive OptionalForm where
  /-- `name?: T` -/
  | questionMark
  /-- `name: T | null` -/
  | nullable
  /-- `name?: T | null` -/
  | questionMarkAndNullable
  /-- `name: T | undefined` -/
  | undefinable
  /-- `name: T | null | undefined` -/
  | nullableAndUndefinable
  deriving Repr, DecidableEq, Inhabited

/-- The source types that are recognised without a declaration. -/
structure KnownTypes where
  strings : List String :=
    ["java.lang.String", "char", "java.lang.Character", "java.util.UUID", "java.net.URI",
     "java.net.URL"]
  numbers : List String :=
    ["byte", "short", "int", "long", "float", "double", "java.lang.Byte", "java.lang.Short",
     "java.lang.Integer", "java.lang.Long", "java.lang.Float", "java.lang.Double",
     "java.math.BigDecimal", "java.math.BigInteger"]
  booleans : List String := ["boolean", "java.lang.Boolean"]
  dates : List String :=
    ["java.util.Date", "java.util.Calendar", "java.time.Instant", "java.time.LocalDate",
     "java.time.LocalDateTime", "java.time.OffsetDateTime", "java.time.ZonedDateTime",
     "org.joda.time.DateTime"]
  voids : List String := ["void", "java.lang.Void"]
  any : List String := ["java.lang.Object", "com.fasterxml.jackson.databind.JsonNode"]
  sequences : List String :=
    ["java.lang.Iterable", "java.util.Collection", "java.util.List", "java.util.ArrayList",
     "java.util.LinkedList", "java.util.Set", "java.util.HashSet", "java.util.LinkedHashSet",
     "java.util.SortedSet", "java.util.TreeSet"]
  maps : List String :=
    ["java.util.Map", "java.util.HashMap", "java.util.LinkedHashMap", "java.util.SortedMap",
     "java.util.TreeMap", "java.util.concurrent.ConcurrentHashMap"]
  optionals : List String := ["java.util.Optional"]
  /-- The containers with one argument that are written as their content. -/
  wrappers : List String :=
    ["javax.xml.bind.JAXBElement", "java.util.concurrent.CompletableFuture",
     "java.util.concurrent.CompletionStage"]
  deriving Repr, DecidableEq, Inhabited

/-- All settings. -/
structure Settings where
  enumMapping : EnumMapping := .literalUnion
  taggedUnions : Bool := true
  /-- Whether classes get functions that revive parsed data. -/
  deserializationFunctions : Bool := false
  dateMapping : DateMapping := .unmodified
  restGrouping : RestGrouping := .singleApplication
  restCodegen : RestCodegen := .neither
  /-- The type of responses, as written; a promise by default. -/
  restResponseType : Option String := none
  /-- The type of the last parameter of endpoints. -/
  restOptionsType : Option String := none
  /-- Whether that type is a type parameter. -/
  restOptionsTypeIsGeneric : Bool := false
  sortMode : SortMode := .unsorted
  classMapping : ClassMapping := .asInterfaces
  declarePropertiesAsReadonly : Bool := false
  optionalProperties : OptionalForm := .questionMark
  naming : NamingPolicy := {}
  knownTypes : KnownTypes := {}
  /-- Target types of single source types, as written, by source type in increasing order. -/
  customTypeMappings : List (String × String) := []
  deriving Repr, DecidableEq, Inhabited

/-- Why settings cannot be used together. -/
inductive SettingsFault where
  /-- Revive functions are wanted without classes to hold them. -/
  | reviveWithoutClasses
  /-- The type of options is to be a type parameter but is not given. -/
  | genericOptionsWithoutType
  /-- The type of responses is blank. -/
  | blankResponseType
  deriving Repr, DecidableEq, Inhabited

/-- The wording of a fault. -/
def SettingsFault.message : SettingsFault → String
  | reviveWithoutClasses =>
    "'deserialization_functions' requires 'class_mapping = \"as_classes\"'"
  | genericOptionsWithoutType => "'rest_options_type_is_generic' requires 'rest_options_type'"
  | blankResponseType => "'rest_response_type' must not be empty"

namespace Settings

/-- Whether source classes become classes. -/
def classesAsClasses (settings : Settings) : Bool :=
  settings.classMapping == .asClasses

/-- The first reason for which the settings cannot be used. -/
def fault? (settings : Settings) : Option SettingsFault :=
  if settings.deserializationFunctions && !settings.classesAsClasses then
    some .reviveWithoutClasses
  else if settings.restOptionsTypeIsGeneric && settings.restOptionsType.isNone then
    some .genericOptionsWithoutType
  else if settings.restResponseType.any Text.isBlankText then some .blankResponseType
  else none

end Settings

end Typings
