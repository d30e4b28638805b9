import Census.Toml.Document
import Census.Toml.Quoted

/-!
# Project manifests

Every project has a manifest: a small TOML document that names the project and says which program
it consists of.

- `Manifest`: what a manifest says; `Manifest.ofName`: what it says unless it is changed.
- `Manifest.parse?`: reads a manifest; unknown keys do not matter.
- `Manifest.render`: writes one.
-/

namespace Census

/-- The program of a project whose manifest does not name one. -/
def defaultEntry : String := "src/main.tly"

/-- What a manifest says. -/
structure Manifest where
  name : String
  version : String
  /-- The program, relative to the project's directory. -/
  entry : String := defaultEntry
  /-- A file the report line is also written to, relative to the project's directory. -/
  report : Option String := none
deriving DecidableEq, Repr

namespace Manifest

/-- The name of the file that holds a manifest. -/
def fileName : String := "tally.toml"

/-- The manifest of a new project. -/
def ofName (name : String) : Manifest := { name, version := "0.1.0" }

open Toml (Value Table)

/-- A value that has to be text. -/
def text? : Value → Option String
  | .text content => some content
  | _ => none

/-- A value that has to be text if it is there. -/
def optionalText? : Option Value → Option (Option String)
  | none => some none
  | some value => (text? value).map some

/-- The fields of a section: a table gives them by key, an array by position. A date has parts of
its own, none of which is a field. -/
def fields? (keys : List String) : Value → Option (List (Option Value))
  | .table _ entries => some (keys.map (Table.find? entries))
  | .array items => some (keys.mapIdx fun index _ => items[index]?)
  | .tables elements =>
    some (keys.mapIdx fun index _ => elements[index]?.map (Value.table .header))
  | .date _ => some (keys.map fun _ => none)
  | _ => none

/-- The manifest that a table holds. Name and version are required, the section on the program and
its fields are not. -/
def ofTable? (table : Table) : Option Manifest := do
  let [some name, some version] ← fields? ["name", "version"] (← Table.find? table "package")
    | none
  let [entry, report] ← match Table.find? table "analysis" with
      | some part => fields? ["entry", "report"] part
      | none => some [none, none]
    | none
  return {
    name := ← text? name
    version := ← text? version
    entry := (← optionalText? entry).getD defaultEntry
    report := ← optionalText? report }

/-- The manifest that a document holds. -/
def parse? (document : String) : Option Manifest := do
  ofTable? (← Toml.tableOf? document)

/-- A line that gives a key a text. -/
def renderField (key content : String) : String := key ++ " = " ++ Toml.quoted content ++ "\n"

/-- The document that holds a manifest. -/
def render (manifest : Manifest) : String :=
  "[package]\n" ++ renderField "name" manifest.name ++ renderField "version" manifest.version
    ++ "\n[analysis]\n" ++ renderField "entry" manifest.entry
    ++ match manifest.report with
      | some report => renderField "report" report
      | none => ""

end Manifest

end Census
