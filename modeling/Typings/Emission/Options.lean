import Typings.Json.Record

/-!
# Form of generated documents

## Main definitions

* `EmitOptions`: the form of a document.
* `EmitOptions.ofJson?`, `EmitOptions.toJson`: the options as JSON.
-/

namespace Typings

open Json

/-- The form of a document. -/
structure EmitOptions where
  /-- One level of indentation. -/
  indent : String := "    "
  /-- Whether declarations are visible outside. -/
  exportDeclarations : Bool := true
  /-- The comment at the top. -/
  fileComment : Option String := none
  deriving Repr, DecidableEq, Inhabited

/-- Reads options. -/
def EmitOptions.ofJson? (format : Format) (value : Json) : Option EmitOptions := do
  let record ← Record.ofJson? format ["indent", "export_declarations", "file_comment"] value
  let base : EmitOptions := {}
  let indent ← record.default? "indent" base.indent readText?
  let exportDeclarations ← record.default? "export_declarations" base.exportDeclarations readBool?
  let fileComment ← record.optional? "file_comment" readText?
  pure { indent, exportDeclarations, fileComment }

def EmitOptions.toJson (options : EmitOptions) : Json :=
  .object
    [("indent", .text options.indent), ("export_declarations", .boolean options.exportDeclarations),
     ("file_comment", .ofText? options.fileComment)]

end Typings
