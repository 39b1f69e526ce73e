import ConfigScript.Format.Csv
import ConfigScript.Format.Dotenv
import ConfigScript.Format.Json
import ConfigScript.Format.Table
import ConfigScript.Format.Yaml
import ConfigScript.Scope

/-!
# Entries and values in text

The output of values and of lists of entries in the formats to choose from.
-/

namespace ConfigScript

/-- Formats of a single value. -/
inductive ValueFormat where
  | text
  | json
  | yaml
deriving DecidableEq, Repr

/-- Formats of a list of entries. -/
inductive ListFormat where
  | table
  | csv
  | json
  | yaml
  | dotenv
deriving DecidableEq, Repr

/-- The value as plain text; arrays are shown as JSON. -/
def Value.plainText (v : Value) : String :=
  match v with
  | .array _ => Format.Json.render v.toData
  | v => v.toText

/-- The value in a format. -/
def Value.render (v : Value) : ValueFormat → String
  | .text => v.plainText
  | .json => Format.Json.render v.toData
  | .yaml => Format.Yaml.render v.toData

/-- What is shown of an entry. -/
inductive Field where
  | name
  | value
  | type
deriving DecidableEq, Repr

/-- Why a list of fields cannot be used. -/
inductive FieldError where
  | unknown (name : String)
  | none
deriving DecidableEq, Repr

/-- The wording of the error. -/
def FieldError.message : FieldError → String
  | unknown name => "Invalid field: " ++ name ++ "."
  | none => "At least one field is required."

namespace Field

/-- The name of a field. -/
def label : Field → String
  | name => "name"
  | value => "value"
  | type => "type"

/-- The field of a name; white space around it does not count. -/
def ofLabel (s : String) : Except FieldError Field :=
  match String.ofList (Text.trim s.toList) with
  | "name" => .ok name
  | "value" => .ok value
  | "type" => .ok type
  | other => .error (.unknown other)

/-- The fields of names, each one once. -/
def ofLabels (labels : List String) : Except FieldError (List Field) := do
  let fields ← labels.mapM ofLabel
  if fields.isEmpty then throw .none
  else return fields.foldl (fun seen f => if seen.contains f then seen else seen ++ [f]) []

/-- The text of a field. -/
def text (f : Field) (e : Entry) : String :=
  match f with
  | name => e.name
  | value => e.value.plainText
  | type => e.kind.toText

/-- The data of a field. -/
def data (f : Field) (e : Entry) : Data :=
  match f with
  | name => .text e.name
  | value => Format.Json.readBack e.value.toData
  | type => .text e.kind.toText

end Field

/-- Entries as a list of mappings from fields to data. -/
def entriesData (entries : List Entry) (fields : List Field) : Data :=
  .list (entries.map fun e => .mapping (fields.map fun f => (f.label, f.data e)))

/-- Entries in a format. Environment files have names and values only, and leave out loaded files,
which have no names of their own. -/
def renderEntries (entries : List Entry) (fields : List Field) (format : ListFormat) : String :=
  let labels := fields.map Field.label
  let rows := entries.map fun e => fields.map (·.text e)
  match format with
  | .table => Format.Table.render labels rows
  | .csv => Format.Csv.render (labels :: rows)
  | .json => Format.Json.render (entriesData entries fields)
  | .yaml => Format.Yaml.render (entriesData entries fields)
  | .dotenv =>
    Format.Dotenv.render
      ((entries.filter (·.kind ≠ .inclusion)).map fun e => (e.name, e.value.plainText))

end ConfigScript
