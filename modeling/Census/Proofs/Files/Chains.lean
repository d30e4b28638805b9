import Mathlib.Data.List.Infix
import Census.Files.Path

/-!
# Components and chains of paths

Of the names a path is written with, some are no components of it. The parent of a path has all
components but the last one, and is written as the path is up to there. So the chain of a path has
the components of the path, then all but the last one of them, and so on down to none.

- `Path.components`: the components of a path.
- `Path.components_parent?`, `Path.parent?_eq_none_iff`: parents, by their components.
- `Path.map_components_chain`, `Path.names_prefix_of_mem_chain`: chains, by their components.
-/

namespace Census.Path

variable {path parent : Path} {rooted : Bool} {name : String} {names : List String}

/-- The names of a path that count: none that is empty, and no dot but one that starts a path that
is not rooted. -/
def components (path : Path) : List String :=
  (path.names.zipIdx.filter fun (name, index) =>
    name != "" && (name != "." || (index == 0 && !path.rooted))).map Prod.fst

theorem components_nil : components ⟨rooted, []⟩ = [] := rfl

/-- Whether a name counts depends only on whether there are names in front of it. -/
theorem components_concat :
    components ⟨rooted, names.reverse ++ [name]⟩ = components ⟨rooted, names.reverse⟩ ++
      if isComponent rooted name names then [name] else [] := by
  have hfirst : (names.reverse.length == 0) = names.isEmpty := by
    cases names <;> simp
  simp only [components, List.zipIdx_append, List.filter_append, List.map_append, isComponent,
    ← hfirst]
  congr 1
  simp only [List.zipIdx_singleton, Nat.zero_add, List.filter_singleton]
  cases name != "" && (name != "." || (names.reverse.length == 0 && !rooted)) <;> rfl

/-- What is cut off the end counts for nothing. -/
theorem components_trim (rooted : Bool) (names : List String) :
    components ⟨rooted, (trim rooted names).reverse⟩ = components ⟨rooted, names.reverse⟩ := by
  induction names with
  | nil => rfl
  | cons name earlier ih =>
    rw [trim]
    split
    · rfl
    · next hnone => rw [ih, List.reverse_cons, components_concat, if_neg hnone, List.append_nil]

/-- What is left ends with a component. -/
theorem isComponent_of_trim {earlier : List String} (h : trim rooted names = name :: earlier) :
    isComponent rooted name earlier = true := by
  induction names with
  | nil => cases h
  | cons other others ih =>
    rw [trim] at h
    split at h
    · next hcomponent =>
      cases h
      exact hcomponent
    · exact ih h

theorem trim_suffix (rooted : Bool) (names : List String) : trim rooted names <:+ names := by
  induction names with
  | nil => exact List.suffix_rfl
  | cons name earlier ih =>
    rw [trim]
    split
    · exact List.suffix_rfl
    · exact ih.trans (List.suffix_cons _ _)

theorem parent?_eq_none_iff : path.parent? = none ↔ path.components = [] := by
  have htrim := components_trim path.rooted path.names.reverse
  rw [List.reverse_reverse] at htrim
  change _ = path.components at htrim
  rw [parent?, ← htrim]
  split
  · next heq => simp [heq, components_nil]
  · next name earlier heq =>
    rw [heq, List.reverse_cons, components_concat, if_pos (isComponent_of_trim heq)]
    simp

/-- A parent lacks the last component, and is written as the path is. -/
theorem components_parent? (h : path.parent? = some parent) :
    (∃ last, path.components = parent.components ++ [last]) ∧
      parent.rooted = path.rooted ∧ parent.names <+: path.names := by
  have htrim := components_trim path.rooted path.names.reverse
  rw [List.reverse_reverse] at htrim
  change _ = path.components at htrim
  rw [parent?] at h
  split at h
  · cases h
  · next name earlier heq =>
    cases h
    have hsuffix : trim path.rooted earlier <:+ path.names.reverse :=
      (trim_suffix _ _).trans ((List.suffix_cons name earlier).trans (heq ▸ trim_suffix _ _))
    rw [heq, List.reverse_cons, components_concat, if_pos (isComponent_of_trim heq)] at htrim
    rw [components_trim, ← htrim]
    refine ⟨⟨name, rfl⟩, rfl, ?_⟩
    rwa [← List.reverse_suffix, List.reverse_reverse]

/-- The paths of a chain are written as the first one is, up to some name. -/
theorem names_prefix_of_mem_chain {other : Path} (h : other ∈ path.chain) :
    other.names <+: path.names := by
  induction path using Path.chain.induct with
  | case1 path hparent =>
    rw [chain] at h
    split at h <;> simp_all
  | case2 path parent hparent ih =>
    rw [chain] at h
    split at h
    · simp_all
    · next parent' hparent' =>
      obtain rfl : parent = parent' := by simpa [hparent] using hparent'
      rcases List.mem_cons.mp h with rfl | h
      · exact List.prefix_rfl
      · exact (ih h).trans (components_parent? hparent).2.2

/-- **Chains**. The components of the paths of a chain are those of the first path, then all but the
last one of these, and so on. -/
theorem map_components_chain (path : Path) :
    path.chain.map components = path.components.inits.reverse := by
  induction path using Path.chain.induct with
  | case1 path hparent =>
    rw [chain]
    split
    · rw [parent?_eq_none_iff.mp hparent, List.map_singleton, parent?_eq_none_iff.mp hparent]
      rfl
    · simp_all
  | case2 path parent hparent ih =>
    rw [chain]
    split
    · simp_all
    · next parent' hparent' =>
      obtain rfl : parent = parent' := by simpa [hparent] using hparent'
      obtain ⟨⟨last, hcomponents⟩, -, -⟩ := components_parent? hparent
      rw [List.map_cons, ih, hcomponents, List.inits_append]
      simp

end Census.Path
