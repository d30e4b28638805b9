import Census.Proofs.Files.Contents

/-!
# Which files change

Seen as files with their bytes at their places, a tree changes little. What is written to a path
changes the file that the path leads to and no other one. Directories are no files, so making them
changes nothing at all, also when not all of them can be made.

- `FileTree.SameFilesBut`: trees with the same files outside of some places.
- `FileTree.sight?_of_put`, `FileTree.file_of_put`: where the things in a tree come from when
  something is put into it.
- `FileTree.makeDirectories_sameFiles`, `FileTree.sameFilesBut_put`: what changes.
-/

namespace Census.FileTree

variable {tree grown changed new : FileTree} {place other : Place} {places : List Place}
  {directory : Place} {path : Path} {bytes : ByteArray}

/-- Outside of the places, both trees have the same files with the same bytes. -/
def SameFilesBut (tree : FileTree) (places : List Place) (changed : FileTree) : Prop :=
  ∀ place ∉ places, ∀ bytes,
    tree.at? place = some (.file bytes) ↔ changed.at? place = some (.file bytes)

theorem SameFilesBut.refl (tree : FileTree) (places : List Place) :
    tree.SameFilesBut places tree := fun _ _ _ => .rfl

theorem SameFilesBut.mono (h : tree.SameFilesBut places changed) {places' : List Place}
    (hplaces : places ⊆ places') : tree.SameFilesBut places' changed :=
  fun place hplace => h place fun hmem => hplace (hplaces hmem)

theorem SameFilesBut.append {further : FileTree} {places' : List Place}
    (h : tree.SameFilesBut places changed) (h' : changed.SameFilesBut places' further) :
    tree.SameFilesBut (places ++ places') further := fun place hplace bytes =>
  (h place (fun hmem => hplace (List.mem_append_left _ hmem)) bytes).trans
    (h' place (fun hmem => hplace (List.mem_append_right _ hmem)) bytes)

theorem SameFilesBut.trans {further : FileTree} (h : tree.SameFilesBut [] changed)
    (h' : changed.SameFilesBut places further) : tree.SameFilesBut places further := h.append h'

/-- What is seen in a tree with something new in it was seen before, is a part of what is new, or is
a directory on the way there. -/
theorem sight?_of_put {seen : Sight} (h : (put new place tree).sight? other = some seen) :
    tree.sight? other = some seen ∨
      (∃ below, other = place ++ below ∧ new.sight? below = some seen) ∨
      seen = .directory ∧ other <+: place := by
  induction place generalizing tree other with
  | nil => exact .inr (.inl ⟨other, rfl, h⟩)
  | cons name place ih =>
    cases tree with
    | file bytes => exact .inl h
    | directory entries =>
      cases other with
      | nil => exact .inl h
      | cons name' other =>
        by_cases hname : name' = name
        · subst hname
          rw [sight?_cons, child?_put_self] at h
          rcases ih h with hbefore | ⟨below, rfl, hnew⟩ | ⟨hseen, hway⟩
          · rw [sight?_cons, child?]
            cases hchild : entries.lookup name' with
            | some child =>
              rw [hchild] at hbefore
              exact .inl hbefore
            | none =>
              -- nothing was there, and an empty directory holds nothing
              rw [hchild] at hbefore
              cases other with
              | nil => exact .inr (.inr ⟨(Option.some.inj hbefore).symm, by simp⟩)
              | cons _ _ => cases hbefore
          · exact .inr (.inl ⟨below, rfl, hnew⟩)
          · exact .inr (.inr ⟨hseen, (List.prefix_cons_inj name').mpr hway⟩)
        · rw [sight?_cons, child?_put_of_ne hname] at h
          exact .inl (by rwa [sight?_cons])

/-- A file in a tree with something new in it was there before or is a part of what is new. -/
theorem file_of_put (h : (put new place tree).sight? other = some (.file bytes)) :
    tree.sight? other = some (.file bytes) ∨
      ∃ below, other = place ++ below ∧ new.sight? below = some (.file bytes) := by
  rcases sight?_of_put h with hbefore | hnew | ⟨hseen, -⟩
  · exact .inl hbefore
  · exact .inr hnew
  · cases hseen

/-- A file that takes no directory's place changes no other file. -/
theorem sameFilesBut_put (h : tree.sight? place ≠ some .directory) :
    tree.SameFilesBut [place] (put (.file bytes) place tree) := by
  intro other hother bytes'
  have hne : other ≠ place := fun heq => hother (heq ▸ List.mem_cons_self)
  rw [← sight?_eq_file_iff, ← sight?_eq_file_iff]
  refine ⟨sight?_put h hne, fun hafter => (file_of_put hafter).resolve_right ?_⟩
  rintro ⟨_ | ⟨name, below⟩, rfl, hnew⟩
  · exact hne (List.append_nil _)
  · cases hnew

theorem makeDirectory_sameFiles (h : tree.makeDirectory directory path = .ok grown) :
    tree.SameFilesBut [] grown := by
  intro other _ bytes
  rw [← sight?_eq_file_iff, ← sight?_eq_file_iff]
  refine ⟨makeDirectory_growsTo h _ _, fun hafter => ?_⟩
  obtain ⟨-, place, -, -, rfl⟩ := makeDirectory_eq_ok_iff.mp h
  refine (file_of_put hafter).resolve_right ?_
  rintro ⟨_ | ⟨name, below⟩, -, hnew⟩ <;> cases hnew

/-- Making directories changes no file, wherever it stops. -/
theorem makeDirectories_sameFiles (tree : FileTree) (directory : Place) (path : Path) :
    tree.SameFilesBut [] (tree.makeDirectories directory path).1 :=
  makeChain_induction (.refl tree _) (fun h hmade => h.trans (makeDirectory_sameFiles hmade)) _

end Census.FileTree
