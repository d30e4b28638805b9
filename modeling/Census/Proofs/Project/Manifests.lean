import Census.Proofs.CommandLine.Steps
import Census.Proofs.Files.Contents
import Census.Proofs.Toml.Lines

/-!
# Manifests are loaded as they were saved

A manifest may hold any texts at all. The document written for it consists of six or seven lines,
each of which is read back as what it was made of, and the file that holds the document is found
under the path it was written to.

- `Manifest.linesOf?_render`, `Manifest.tableOf?_render`: the document, line by line and as a table.
- `Manifest.parse?_render`: a manifest is read back from its document.
- `Manifest.load_save`: what is saved is loaded again.
-/

namespace Census

open Command
open Toml (Line lines linesOf? tableOf? Value)

namespace Manifest

/-- A line that gives a key a text, in front of others. -/
theorem lines_renderField (key content : String) {rest : List Char} {others : List Line}
    (hkey : key.toList ≠ []) (hchars : key.toList.all Toml.isKeyChar = true)
    (hothers : lines rest = some others) :
    lines ((renderField key content).toList ++ rest)
      = some (.pair ⟨[], key⟩ (.text content) :: others) := by
  have h := Toml.lines_text key.toList content.toList hkey hchars hothers
  simpa [renderField, Toml.quoted] using h

/-- The line on the report, if a manifest asks for one. -/
def reportLines (manifest : Manifest) : List Line :=
  manifest.report.toList.map fun report => .pair ⟨[], "report"⟩ (.text report)

theorem lines_report (manifest : Manifest) :
    lines (manifest.report.elim [] fun report => (renderField "report" report).toList)
      = some manifest.reportLines := by
  have hnil : lines [] = some [] := by rw [lines]; rfl
  rw [reportLines]
  cases manifest.report with
  | none => exact hnil
  | some report =>
    have h := lines_renderField "report" report (by decide) (by decide) hnil
    rwa [List.append_nil] at h

theorem linesOf?_render (manifest : Manifest) :
    linesOf? manifest.render = some (.section ⟨[], "package"⟩ ::
      .pair ⟨[], "name"⟩ (.text manifest.name) :: .pair ⟨[], "version"⟩ (.text manifest.version) ::
      .nothing :: .section ⟨[], "analysis"⟩ :: .pair ⟨[], "entry"⟩ (.text manifest.entry) ::
      manifest.reportLines) := by
  have hlines := Toml.lines_section "package".toList (by decide) (by decide) <|
    lines_renderField "name" manifest.name (by decide) (by decide) <|
    lines_renderField "version" manifest.version (by decide) (by decide) <|
    Toml.lines_empty <| Toml.lines_section "analysis".toList (by decide) (by decide) <|
    lines_renderField "entry" manifest.entry (by decide) (by decide) manifest.lines_report
  -- the document starts with a bracket, hence with no byte order mark
  have hrender : ∃ text, manifest.render.toList = '[' :: text ∧ lines ('[' :: text) = _ :=
    ⟨_, by cases hreport : manifest.report <;> simp [render, hreport], hlines⟩
  obtain ⟨text, htext, hlines⟩ := hrender
  rw [linesOf?, htext]
  exact hlines

/-- The two sections of a manifest with their fields. -/
theorem tableOf?_render (manifest : Manifest) :
    tableOf? manifest.render = some
      [("package", .table .header
        [("name", .text manifest.name), ("version", .text manifest.version)]),
      ("analysis", .table .header <| ("entry", .text manifest.entry) ::
        manifest.report.toList.map fun report => ("report", .text report))] := by
  rw [tableOf?, linesOf?_render, reportLines]
  cases manifest.report <;> rfl

/-- A manifest is read back from the document that holds it. -/
theorem parse?_render (manifest : Manifest) : parse? manifest.render = some manifest := by
  rw [parse?, tableOf?_render]
  obtain ⟨name, version, entry, _ | report⟩ := manifest <;> rfl

/-- What is saved is loaded again. Only where no file can be written, nothing is saved. -/
theorem load_save (manifest : Manifest) (path : Path) (world : World) :
    Ends (do manifest.save path; load path : Command (StateM World) Manifest) world
      (fun loaded _ => loaded = manifest)
      (fun failure after => failure = .unwritable path ∧ after = world ∧
        ∀ bytes, world.tree.write? world.directory path bytes = none) := by
  rw [ends_bind_iff, save, ends_writeText_iff]
  split
  · next grown hwrite =>
    have hread :
        (grown.read? world.directory path).bind String.fromUTF8? = some manifest.render := by
      rw [FileTree.read?_of_write? hwrite, Option.bind_some, fromUTF8?_toUTF8]
    rw [load, ends_bind_iff, ends_readText_iff, hread]
    dsimp only
    rw [parse?_render]
    rfl
  · next hwrite => exact ⟨rfl, rfl, FileTree.write?_eq_none_of_eq_none hwrite⟩

end Manifest

end Census
