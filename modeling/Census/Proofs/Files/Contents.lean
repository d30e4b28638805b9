import Census.Proofs.Files.Growth

/-!
# Files hold what was written

A file gets its bytes at the place that its path leads to. The directories on the way stay, so the
same path leads there afterwards and finds the bytes.

- `FileTree.at?_put_child`: what is put into a directory stands there.
- `FileTree.route_cases`: where a path can lead.
- `FileTree.destination_of_write?`, `FileTree.read?_of_write?`: what is written is found and read.
-/

namespace Census.FileTree

variable {tree grown new : FileTree} {place next above : Place} {name : String}
  {names : List String} {directory : Place} {path : Path} {bytes : ByteArray}

/-- What is put into a directory stands there. -/
theorem at?_put_child (h : tree.sight? above = some .directory) :
    (put new (above ++ [name]) tree).at? (above ++ [name]) = some new := by
  induction above generalizing tree with
  | nil =>
    obtain ⟨entries, hentries⟩ := sight?_eq_directory_iff.mp h
    cases hentries
    simp [at?, put, child?]
  | cons first above ih =>
    rw [sight?_cons] at h
    obtain ⟨child, hchild, hsight⟩ := Option.bind_eq_some_iff.mp h
    cases tree with
    | file bytes => cases hchild
    | directory entries =>
      have hlookup : entries.lookup first = some child := hchild
      rw [List.cons_append, at?, child?_put_self, hlookup]
      exact ih hsight

/-- A directory stands in directories. -/
theorem sight?_of_way (h : tree.sight? place = some .directory) (hway : above <+: place) :
    tree.sight? above = some .directory := by
  obtain ⟨_ | ⟨name, rest⟩, rfl⟩ := hway
  · rwa [List.append_nil] at h
  · exact sight?_eq_directory_of_append (Option.isSome_of_eq_some h)

/-- A name leads to a directory or to something in the directory it is followed from. -/
theorem enter_cases (h : tree.enter place name = .ok next) :
    tree.sight? next = some .directory ∨
      tree.sight? place = some .directory ∧ next = place ++ [name] := by
  obtain ⟨hplace, hnext⟩ := enter_eq_ok_iff.mp h
  unfold Place.next at hnext
  split_ifs at hnext <;> cases hnext
  · exact .inl hplace
  · exact .inl (sight?_of_way hplace (List.dropLast_prefix _))
  · exact .inr ⟨hplace, rfl⟩

/-- Names lead nowhere else, to a directory, or to something in a directory. -/
theorem route_cases (h : tree.route place names = .ok next) :
    next = place ∨ tree.sight? next = some .directory ∨
      ∃ above name, tree.sight? above = some .directory ∧ next = above ++ [name] := by
  rcases List.eq_nil_or_concat' names with rfl | ⟨front, name, rfl⟩
  · exact .inl (Except.ok.inj h).symm
  · obtain ⟨between, -, hlast⟩ := route_append_eq_ok_iff.mp h
    obtain ⟨next', henter, hnext⟩ := route_cons_eq_ok_iff.mp hlast
    obtain rfl : next' = next := Except.ok.inj hnext
    rcases enter_cases henter with hdirectory | ⟨habove, rfl⟩
    · exact .inr (.inl hdirectory)
    · exact .inr (.inr ⟨between, name, habove, rfl⟩)

/-- A path that something was written to leads to the file afterwards. -/
theorem destination_of_write? (h : tree.write? directory path bytes = some grown) :
    ∃ place, tree.sight? place ≠ some .directory ∧ grown = put (.file bytes) place tree ∧
      grown.destination directory path = .ok place ∧ grown.at? place = some (.file bytes) := by
  obtain ⟨place, hplace, hover, rfl⟩ := write?_eq_some_iff.mp h
  obtain ⟨hempty, hfollowable, hroute⟩ := destination_eq_ok_iff.mp hplace
  have hat : (put (.file bytes) place tree).at? place = some (.file bytes) := by
    rcases route_cases hroute with rfl | hdirectory | ⟨above, name, habove, rfl⟩
    · rfl
    · exact absurd hdirectory hover
    · exact at?_put_child habove
  have hsame : ∀ other, tree.sight? other = some .directory →
      (put (.file bytes) place tree).sight? other = some .directory := fun other hother =>
    sight?_put hover (fun heq => hover (heq ▸ hother)) hother
  exact ⟨place, hover, rfl,
    destination_eq_ok_iff.mpr ⟨hempty, hfollowable, route_of_directories hsame hroute⟩, hat⟩

/-- What is written to a path is read from it. -/
theorem read?_of_write? (h : tree.write? directory path bytes = some grown) :
    grown.read? directory path = some bytes := by
  obtain ⟨place, -, -, hplace, hat⟩ := destination_of_write? h
  rw [read?, find?_eq_some_iff.mpr ⟨place, hplace, hat⟩]

/-- Whether a file can be written does not depend on its bytes. -/
theorem write?_eq_none_of_eq_none (h : tree.write? directory path bytes = none)
    (bytes' : ByteArray) : tree.write? directory path bytes' = none := by
  by_contra hsome
  obtain ⟨grown, hgrown⟩ := Option.ne_none_iff_exists'.mp hsome
  obtain ⟨place, hplace, hover, -⟩ := write?_eq_some_iff.mp hgrown
  rw [write?_eq_some_iff.mpr ⟨place, hplace, hover, rfl⟩] at h
  cases h

end Census.FileTree
