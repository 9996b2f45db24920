import Typings.Model.Basic

/-!
# Functions that generated code calls

## Main definitions

* `Helper.lines`: the lines of the functions.
-/

namespace Typings

/-- Functions that copy arrays, maps and plain values. -/
def copyFunctionLines : List String :=
  [
    "function __getCopyArrayFn<T>(itemCopyFn: (item: T) => T): (array: T[]) => T[] \x7b",
    "    return (array: T[]) => __copyArray(array, itemCopyFn);",
    "\x7d",
    "",
    "function __copyArray<T>(array: T[], itemCopyFn: (item: T) => T): T[] \x7b",
    "    return array && array.map(item => item && itemCopyFn(item));",
    "\x7d",
    "",
    "function __getCopyObjectFn<T>(itemCopyFn: (item: T) => T): " ++
      "(object: \x7b [index: string]: T \x7d) => \x7b [index: string]: T \x7d \x7b",
    "    return (object: \x7b [index: string]: T \x7d) => __copyObject(object, itemCopyFn);",
    "\x7d",
    "",
    "function __copyObject<T>(object: \x7b [index: string]: T \x7d, " ++
      "itemCopyFn: (item: T) => T): \x7b [index: string]: T \x7d \x7b",
    "    if (!object) \x7b",
    "        return object;",
    "    \x7d",
    "    const result: any = \x7b\x7d;",
    "    for (const key in object) \x7b",
    "        if (object.hasOwnProperty(key)) \x7b",
    "            const value = object[key];",
    "            result[key] = value && itemCopyFn(value);",
    "        \x7d",
    "    \x7d",
    "    return result;",
    "\x7d",
    "",
    "function __identity<T>(): (value: T) => T \x7b",
    "    return value => value;",
    "\x7d"]

/-- The tag of templates whose substitutions are encoded for addresses. -/
def uriEncodingLines : List String :=
  [
    "function uriEncoding(template: TemplateStringsArray, ...substitutions: any[]): string \x7b",
    "    let result = \"\";",
    "    for (let i = 0; i < substitutions.length; i++) \x7b",
    "        result += template[i];",
    "        result += encodeURIComponent(substitutions[i]);",
    "    \x7d",
    "    result += template[template.length - 1];",
    "    return result;",
    "\x7d"]

def Helper.lines : Helper → List String
  | copyFunctions => copyFunctionLines
  | uriEncoding => uriEncodingLines

end Typings
