import Typings.Json.Record
import Typings.Settings.Basic

/-!
# Settings in documents

## Main definitions

* `Settings.ofJson?`: the settings that a document gives, with defaults for all it leaves out.
* `Settings.toJson`: all settings, in full.
-/

namespace Typings

open Json (readText? readTexts? readBool? readMap? readChoice?)

/-- The names of the representations of enums. -/
def EnumMapping.choices : List (String × EnumMapping) :=
  [("literal_union", .literalUnion), ("inlined_literal_union", .inlinedLiteralUnion),
   ("numeric_placeholder", .numericPlaceholder), ("unmodified", .unmodified)]

/-- The names of the representations of dates. -/
def DateMapping.choices : List (String × DateMapping) :=
  [("unmodified", .unmodified), ("as_number", .asNumber), ("as_string", .asString)]

/-- The names of the groupings. -/
def RestGrouping.choices : List (String × RestGrouping) :=
  [("per_resource", .perResource), ("by_annotation", .perMark),
   ("single_application", .singleApplication)]

/-- The names of what is generated for endpoints. -/
def RestCodegen.choices : List (String × RestCodegen) :=
  [("surface_only", .surfaceOnly), ("client_only", .clientOnly), ("both", .both),
   ("neither", .neither)]

/-- The names of what is sorted. -/
def SortMode.choices : List (String × SortMode) :=
  [("none", .unsorted), ("properties_only", .propertiesOnly), ("full", .full)]

/-- The names of what classes become. -/
def ClassMapping.choices : List (String × ClassMapping) :=
  [("as_interfaces", .asInterfaces), ("as_classes", .asClasses)]

/-- The names of the forms of optional properties. -/
def OptionalForm.choices : List (String × OptionalForm) :=
  [("question_mark", .questionMark), ("nullable", .nullable),
   ("question_mark_and_nullable", .questionMarkAndNullable), ("undefinable", .undefinable),
   ("nullable_and_undefinable", .nullableAndUndefinable)]

def choiceName {α : Type} [DecidableEq α] (choices : List (String × α)) (choice : α) : Json :=
  Json.ofText? ((choices.find? fun entry => decide (entry.2 = choice)).map (·.1))

def NamingPolicy.ofJson? (format : Format) (value : Json) : Option NamingPolicy := do
  let record ← Record.ofJson? format
    ["add_prefix", "add_suffix", "remove_prefix", "remove_suffix", "custom",
     "map_packages_to_namespaces"] value
  let addPrefix ← record.optional? "add_prefix" readText?
  let addSuffix ← record.optional? "add_suffix" readText?
  let removePrefix ← record.optional? "remove_prefix" readText?
  let removeSuffix ← record.optional? "remove_suffix" readText?
  let custom ← record.default? "custom" [] (readMap? readText?)
  let mapPackagesToNamespaces ← record.default? "map_packages_to_namespaces" false readBool?
  pure { addPrefix, addSuffix, removePrefix, removeSuffix, custom, mapPackagesToNamespaces }

def mapToJson (entries : List (String × String)) : Json :=
  .object (entries.map fun entry => (entry.1, .text entry.2))

def NamingPolicy.toJson (policy : NamingPolicy) : Json :=
  .object
    [("add_prefix", .ofText? policy.addPrefix), ("add_suffix", .ofText? policy.addSuffix),
     ("remove_prefix", .ofText? policy.removePrefix),
     ("remove_suffix", .ofText? policy.removeSuffix),
     ("custom", mapToJson policy.custom),
     ("map_packages_to_namespaces", .boolean policy.mapPackagesToNamespaces)]

def KnownTypes.ofJson? (format : Format) (value : Json) : Option KnownTypes := do
  let record ← Record.ofJson? format
    ["strings", "numbers", "booleans", "dates", "voids", "any", "sequences", "maps", "optionals",
     "wrappers"] value
  let base : KnownTypes := {}
  let strings ← record.default? "strings" base.strings readTexts?
  let numbers ← record.default? "numbers" base.numbers readTexts?
  let booleans ← record.default? "booleans" base.booleans readTexts?
  let dates ← record.default? "dates" base.dates readTexts?
  let voids ← record.default? "voids" base.voids readTexts?
  let any ← record.default? "any" base.any readTexts?
  let sequences ← record.default? "sequences" base.sequences readTexts?
  let maps ← record.default? "maps" base.maps readTexts?
  let optionals ← record.default? "optionals" base.optionals readTexts?
  let wrappers ← record.default? "wrappers" base.wrappers readTexts?
  pure { strings, numbers, booleans, dates, voids, any, sequences, maps, optionals, wrappers }

def KnownTypes.toJson (known : KnownTypes) : Json :=
  .object
    [("strings", .ofTexts known.strings), ("numbers", .ofTexts known.numbers),
     ("booleans", .ofTexts known.booleans), ("dates", .ofTexts known.dates),
     ("voids", .ofTexts known.voids), ("any", .ofTexts known.any),
     ("sequences", .ofTexts known.sequences), ("maps", .ofTexts known.maps),
     ("optionals", .ofTexts known.optionals), ("wrappers", .ofTexts known.wrappers)]

/-- Reads settings. -/
def Settings.ofJson? (format : Format) (value : Json) : Option Settings := do
  let record ← Record.ofJson? format
    ["enum_mapping", "tagged_unions", "deserialization_functions", "date_mapping", "rest_grouping",
     "rest_codegen", "rest_response_type", "rest_options_type", "rest_options_type_is_generic",
     "sort_mode", "class_mapping", "declare_properties_as_readonly", "optional_properties",
     "naming", "known_types", "custom_type_mappings"] value
  let base : Settings := {}
  let enumMapping ← record.default? "enum_mapping" base.enumMapping
    (readChoice? format EnumMapping.choices)
  let taggedUnions ← record.default? "tagged_unions" base.taggedUnions readBool?
  let deserializationFunctions ← record.default? "deserialization_functions"
    base.deserializationFunctions readBool?
  let dateMapping ← record.default? "date_mapping" base.dateMapping
    (readChoice? format DateMapping.choices)
  let restGrouping ← record.default? "rest_grouping" base.restGrouping
    (readChoice? format RestGrouping.choices)
  let restCodegen ← record.default? "rest_codegen" base.restCodegen
    (readChoice? format RestCodegen.choices)
  let restResponseType ← record.optional? "rest_response_type" readText?
  let restOptionsType ← record.optional? "rest_options_type" readText?
  let restOptionsTypeIsGeneric ← record.default? "rest_options_type_is_generic"
    base.restOptionsTypeIsGeneric readBool?
  let sortMode ← record.default? "sort_mode" base.sortMode (readChoice? format SortMode.choices)
  let classMapping ← record.default? "class_mapping" base.classMapping
    (readChoice? format ClassMapping.choices)
  let declarePropertiesAsReadonly ← record.default? "declare_properties_as_readonly"
    base.declarePropertiesAsReadonly readBool?
  let optionalProperties ← record.default? "optional_properties" base.optionalProperties
    (readChoice? format OptionalForm.choices)
  let naming ← record.default? "naming" base.naming (NamingPolicy.ofJson? format)
  let knownTypes ← record.default? "known_types" base.knownTypes (KnownTypes.ofJson? format)
  let customTypeMappings ← record.default? "custom_type_mappings" base.customTypeMappings
    (readMap? readText?)
  pure { enumMapping, taggedUnions, deserializationFunctions, dateMapping, restGrouping,
         restCodegen, restResponseType, restOptionsType, restOptionsTypeIsGeneric, sortMode,
         classMapping, declarePropertiesAsReadonly, optionalProperties, naming, knownTypes,
         customTypeMappings }

def Settings.toJson (settings : Settings) : Json :=
  .object
    [("enum_mapping", choiceName EnumMapping.choices settings.enumMapping),
     ("tagged_unions", .boolean settings.taggedUnions),
     ("deserialization_functions", .boolean settings.deserializationFunctions),
     ("date_mapping", choiceName DateMapping.choices settings.dateMapping),
     ("rest_grouping", choiceName RestGrouping.choices settings.restGrouping),
     ("rest_codegen", choiceName RestCodegen.choices settings.restCodegen),
     ("rest_response_type", .ofText? settings.restResponseType),
     ("rest_options_type", .ofText? settings.restOptionsType),
     ("rest_options_type_is_generic", .boolean settings.restOptionsTypeIsGeneric),
     ("sort_mode", choiceName SortMode.choices settings.sortMode),
     ("class_mapping", choiceName ClassMapping.choices settings.classMapping),
     ("declare_properties_as_readonly", .boolean settings.declarePropertiesAsReadonly),
     ("optional_properties", choiceName OptionalForm.choices settings.optionalProperties),
     ("naming", settings.naming.toJson),
     ("known_types", settings.knownTypes.toJson),
     ("custom_type_mappings", mapToJson settings.customTypeMappings)]

end Typings
