import Mathlib.Data.List.Basic
import Census.Proofs.Grammar.Print
import Census.Tree.Outline

/-!
# What outlines tell

An outline tells the kinds of all nodes and how deep they stand, and nothing of their places. As
every line can be read back, and the depths say where the parts of a node end, it tells all of a
tree but its places.

- `Node.rows`: the depths and kinds of all nodes. `Node.bare_eq_of_rows`: they tell the bare tree.
- `NodeKind.Legible`: the kinds that can be read back from their labels.
- `Node.outline_eq_of_bare`, `Node.bare_eq_of_outline`: two trees of instances of productions have
  the same outline exactly when they are equal up to spans.
-/

namespace Census

/-! ## Rows -/

namespace Node

/-- The depth and the kind of every node, parents before children. -/
def rows (depth : Nat) (tree : Node) : List (Nat × NodeKind) :=
  (tree.preorder depth).map fun (depth, node) => (depth, node.kind)

/-- The rows of the parts follow that of the node, one level deeper. -/
theorem rows_mk (depth : Nat) (kind : NodeKind) (children : List Node) (span : Span) :
    rows depth ⟨kind, children, span⟩ = (depth, kind) :: children.flatMap (rows (depth + 1)) := by
  rw [rows, preorder_mk, List.map_cons, List.map_flatMap]
  rfl

/-- Rows do not tell places. -/
theorem rows_bare (tree : Node) (depth : Nat) : tree.bare.rows depth = tree.rows depth := by
  induction tree using Node.induction generalizing depth with
  | step kind children span ih =>
    rw [bare_mk, rows_mk, rows_mk, List.flatMap_map, List.flatMap_def, List.flatMap_def,
      List.map_congr_left fun child hchild => ih child hchild (depth + 1)]

/-- Every row is that of a node of the tree. -/
theorem exists_mem_nodes_of_mem_rows {tree : Node} {depth : Nat} {row : Nat × NodeKind}
    (h : row ∈ tree.rows depth) : ∃ node ∈ tree.nodes, node.kind = row.2 := by
  induction tree using Node.induction generalizing depth with
  | step kind children span ih =>
    rw [rows_mk, List.mem_cons, List.mem_flatMap] at h
    rcases h with rfl | ⟨child, hchild, hrow⟩
    · exact ⟨_, self_mem_nodes _, rfl⟩
    · obtain ⟨node, hnode, hkind⟩ := ih child hchild hrow
      exact ⟨node, mem_nodes_iff.mpr (.inr ⟨child, hchild, hnode⟩), hkind⟩

/-- The rows do not go on below the given depth. -/
def Outside (depth : Nat) (rows : List (Nat × NodeKind)) : Prop :=
  ∀ row ∈ rows.head?, row.1 ≤ depth

/-- Behind one of several trees side by side comes another one, or what comes behind all. -/
theorem outside_flatMap_rows {depth : Nat} {rest : List (Nat × NodeKind)} (h : Outside depth rest)
    (trees : List Node) : Outside depth (trees.flatMap (rows depth) ++ rest) := by
  cases trees with
  | nil => exact h
  | cons tree others =>
    obtain ⟨kind, children, span⟩ := tree
    rw [List.flatMap_cons, rows_mk]
    rintro row ⟨⟩
    exact Nat.le_refl depth

/-- In a row that starts with the tree, the tree ends where the next row is not deeper. -/
private def Cut (tree : Node) : Prop :=
  ∀ (tree' : Node) (depth : Nat) (rest rest' : List (Nat × NodeKind)), Outside depth rest →
    Outside depth rest' → tree.rows depth ++ rest = tree'.rows depth ++ rest' →
      tree.bare = tree'.bare ∧ rest = rest'

/-- The parts are cut off one after the other, since each ends where the next row is not deeper. -/
private theorem flatMap_rows_inj {trees trees' : List Node} {depth : Nat}
    {rest rest' : List (Nat × NodeKind)} (h : ∀ tree ∈ trees, tree.Cut)
    (hrest : Outside depth rest) (hrest' : Outside depth rest')
    (hrows : trees.flatMap (rows (depth + 1)) ++ rest
      = trees'.flatMap (rows (depth + 1)) ++ rest') :
    trees.map bare = trees'.map bare ∧ rest = rest' := by
  have hdeep {rest : List (Nat × NodeKind)} (hrest : Outside depth rest) :
      Outside (depth + 1) rest := fun row hrow => Nat.le_succ_of_le (hrest row hrow)
  -- what comes behind all trees does not start with the rows of another one
  have hmore {tree : Node} {others : List Node} {rest rest' : List (Nat × NodeKind)}
      (hrest : Outside depth rest)
      (hrows : rest = (tree :: others).flatMap (rows (depth + 1)) ++ rest') : False := by
    obtain ⟨kind, children, span⟩ := tree
    rw [List.flatMap_cons, rows_mk] at hrows
    have hle := hrest (depth + 1, kind) (by rw [hrows]; rfl)
    exact Nat.not_succ_le_self depth hle
  induction trees generalizing trees' with
  | nil =>
    cases trees' with
    | nil => exact ⟨rfl, hrows⟩
    | cons tree' others' => exact (hmore hrest hrows).elim
  | cons tree others ih =>
    cases trees' with
    | nil => exact (hmore hrest' hrows.symm).elim
    | cons tree' others' =>
      rw [List.flatMap_cons, List.flatMap_cons, List.append_assoc, List.append_assoc] at hrows
      obtain ⟨hcut, hcuts⟩ := List.forall_mem_cons.mp h
      obtain ⟨htree, hbehind⟩ := hcut tree' _ _ _ (outside_flatMap_rows (hdeep hrest) others)
        (outside_flatMap_rows (hdeep hrest') others') hrows
      obtain ⟨hothers, hsame⟩ := ih hcuts hbehind
      exact ⟨by rw [List.map_cons, List.map_cons, htree, hothers], hsame⟩

/-- By induction on the tree: behind the first row stand those of the parts, and these can be cut
apart. -/
private theorem cut (tree : Node) : tree.Cut := by
  induction tree using Node.induction with
  | step kind children span ih =>
    rintro ⟨kind', children', span'⟩ depth rest rest' hrest hrest' hrows
    rw [rows_mk, rows_mk, List.cons_append, List.cons_append, List.cons.injEq] at hrows
    obtain ⟨hrow, hrows⟩ := hrows
    obtain ⟨hchildren, hsame⟩ := flatMap_rows_inj ih hrest hrest' hrows
    exact ⟨by rw [bare_mk, bare_mk, (Prod.mk.inj hrow).2, hchildren], hsame⟩

/-- Trees with the same rows are equal up to spans. -/
theorem bare_eq_of_rows {tree tree' : Node} {depth : Nat}
    (h : tree.rows depth = tree'.rows depth) : tree.bare = tree'.bare := by
  have hend : Outside depth [] := nofun
  exact (tree.cut tree' depth [] [] hend hend (by rw [h])).1

end Node

/-! ## Words -/

/-- What stands between the words of a construct in its label. -/
def Category.separator : Category → String
  | negation => ""
  | signed => ""
  | _ => " "

/-- How many characters every word of a construct has, where it may have more than one word. -/
def Category.width? : Category → Option Nat
  | sum => some 1
  | product => some 1
  | negation => some 1
  | signed => some 1
  | logical => some 2
  | _ => none

theorem Category.width?_pos (category : Category) : ∀ width ∈ category.width?, 0 < width := by
  cases category <;> simp [width?]

/-- The kind of the construct with the given words. -/
def Category.withWords (words : List String) : Category → NodeKind
  | program => .program
  | declaration => .declaration
  | scalarDeclaration => .scalarDeclaration (words.headD "")
  | listDeclaration => .listDeclaration (words.headD "")
  | block => .block
  | statement => .statement
  | foreachLoop => .foreachLoop
  | forLoop => .forLoop
  | conditional => .conditional
  | whileLoop => .whileLoop
  | assignment => .assignment
  | expression => .expression
  | comparison => .comparison words.head?
  | sum => .sum words
  | product => .product words
  | logical => .logical words
  | negation => .negation words
  | signed => .signed words
  | value => .value
  | boolean => .boolean (words == ["true"])
  | integer => .integer (words.headD "")
  | identifier => .identifier (words.headD "")

namespace NodeKind

/-- The words that a construct was written with, as far as it keeps them. -/
def words : NodeKind → List String
  | scalarDeclaration keyword => [keyword]
  | listDeclaration keyword => [keyword]
  | comparison operator => operator.toList
  | sum operators => operators
  | product operators => operators
  | logical operators => operators
  | negation operators => operators
  | signed operators => operators
  | boolean truth => [if truth then "true" else "false"]
  | integer digits => [digits]
  | identifier name => [name]
  | _ => []

/-- The construct and its words make the kind. -/
theorem withWords_words (kind : NodeKind) : kind.category.withWords kind.words = kind := by
  cases kind with
  | comparison operator => cases operator <;> rfl
  | boolean truth => cases truth <;> rfl
  | _ => rfl

/-- What a label tells behind the name are the words of the kind. -/
theorem detail?_eq (kind : NodeKind) :
    kind.detail? = joinedOperators? kind.category.separator kind.words := by
  cases kind with
  | comparison operator => cases operator <;> rfl
  | _ => rfl

/-- The words of the kind can be told apart in its label and stay on its line. -/
structure Legible (kind : NodeKind) : Prop where
  uniform : ∀ width ∈ kind.category.width?, ∀ word ∈ kind.words, word.toList.length = width
  single : kind.category.width? = none → kind.words.length ≤ 1
  oneLine : ∀ word ∈ kind.words, '\n' ∉ word.toList

end NodeKind

section Intercalate

variable {α : Type} {separator : List α} {width : Nat} {blocks blocks' : List (List α)}

/-- A separator stands in front of every block but the first one. -/
theorem intercalate_cons_eq (block : List α) (others : List (List α)) :
    separator.intercalate (block :: others) = block ++ others.flatMap (separator ++ ·) := by
  induction others generalizing block with
  | nil => simp
  | cons other others ih =>
    rw [List.intercalate_cons_cons, ih, List.flatMap_cons, List.append_assoc, List.append_assoc]

/-- Blocks of one length can be cut apart, whatever is in them. -/
theorem flatMap_append_inj (hwidth : 0 < width) (h : ∀ block ∈ blocks, block.length = width)
    (h' : ∀ block ∈ blocks', block.length = width)
    (hsame : blocks.flatMap (separator ++ ·) = blocks'.flatMap (separator ++ ·)) :
    blocks = blocks' := by
  induction blocks generalizing blocks' with
  | nil =>
    cases blocks' with
    | nil => rfl
    | cons block' others' =>
      have hsome := congrArg List.length hsame
      simp [h' block' List.mem_cons_self] at hsome
      omega
  | cons block others ih =>
    obtain ⟨hblock, hothers⟩ := List.forall_mem_cons.mp h
    cases blocks' with
    | nil =>
      have hsome := congrArg List.length hsame
      simp [hblock] at hsome
      omega
    | cons block' others' =>
      obtain ⟨hblock', hothers'⟩ := List.forall_mem_cons.mp h'
      rw [List.flatMap_cons, List.flatMap_cons] at hsame
      obtain ⟨hfirst, hrest⟩ := List.append_inj hsame (by simp [hblock, hblock'])
      rw [List.append_cancel_left hfirst, ih hothers hothers' hrest]

/-- Blocks of one width can be told apart when they are set in a row. -/
theorem intercalate_inj (hwidth : 0 < width) (h : ∀ block ∈ blocks, block.length = width)
    (h' : ∀ block ∈ blocks', block.length = width)
    (hsome : blocks ≠ []) (hsome' : blocks' ≠ [])
    (hsame : separator.intercalate blocks = separator.intercalate blocks') : blocks = blocks' := by
  obtain ⟨block, others, rfl⟩ := List.exists_cons_of_ne_nil hsome
  obtain ⟨block', others', rfl⟩ := List.exists_cons_of_ne_nil hsome'
  obtain ⟨hblock, hothers⟩ := List.forall_mem_cons.mp h
  obtain ⟨hblock', hothers'⟩ := List.forall_mem_cons.mp h'
  rw [intercalate_cons_eq, intercalate_cons_eq] at hsame
  obtain ⟨hfirst, hrest⟩ := List.append_inj hsame (by rw [hblock, hblock'])
  rw [hfirst, flatMap_append_inj hwidth hothers hothers' hrest]

end Intercalate

/-! ## Labels -/

/-- The constructs by their names. -/
def Category.byName : List (String × Category) :=
  [("Program", .program), ("Declaration", .declaration), ("NormalDeclaration", .scalarDeclaration),
    ("ListDeclaration", .listDeclaration), ("Block", .block), ("Stmt", .statement),
    ("ForEachStmt", .foreachLoop), ("ForStmt", .forLoop), ("IfStmt", .conditional),
    ("WhileStmt", .whileLoop), ("AssignStmt", .assignment), ("Expr", .expression),
    ("CompExpr", .comparison), ("AddExpr", .sum), ("MulExpr", .product), ("BoolExpr", .logical),
    ("NotExpr", .negation), ("UnaExpr", .signed), ("GenValue", .value), ("BoolValue", .boolean),
    ("IntValue", .integer), ("Identifier", .identifier)]

/-- A list that is cut at the first of some element is cut at one place only. -/
theorem append_cons_inj {α : Type} {mark : α} {front front' back back' : List α}
    (h : mark ∉ front) (h' : mark ∉ front')
    (hsame : front ++ mark :: back = front' ++ mark :: back') :
    front = front' ∧ back = back' := by
  rcases List.append_eq_append_iff.mp hsame with ⟨between, rfl, hbetween⟩ | ⟨between, rfl, hbetween⟩
  · cases between with
    | nil => exact ⟨by simp, (List.cons.inj hbetween).2⟩
    | cons first others =>
      obtain ⟨rfl, -⟩ := List.cons.inj hbetween
      simp at h'
  · cases between with
    | nil => exact ⟨by simp, (List.cons.inj hbetween).2.symm⟩
    | cons first others =>
      obtain ⟨rfl, -⟩ := List.cons.inj hbetween
      simp at h

namespace NodeKind

variable {kind kind' : NodeKind}

/-- There is a name for every kind, and it belongs to the construct of the kind. -/
theorem mem_byName (kind : NodeKind) : (kind.name, kind.category) ∈ Category.byName := by
  cases kind <;> simp [Category.byName, name, category]

/-- No two constructs have one name. -/
theorem category_eq_of_name (h : kind.name = kind'.name) : kind.category = kind'.category := by
  have hall : ∀ row ∈ Category.byName, ∀ row' ∈ Category.byName,
      row.1 = row'.1 → row.2 = row'.2 := by
    decide
  exact hall (kind.name, kind.category) kind.mem_byName _ kind'.mem_byName h

/-- Where a label has a parenthesis, its name is over. -/
theorem parenthesis_notMem_name (kind : NodeKind) : '(' ∉ kind.name.toList := by
  have hall : ∀ row ∈ Category.byName, '(' ∉ row.1.toList := by decide
  exact hall (kind.name, kind.category) kind.mem_byName

theorem lineFeed_notMem_name (kind : NodeKind) : '\n' ∉ kind.name.toList := by
  have hall : ∀ row ∈ Category.byName, '\n' ∉ row.1.toList := by decide
  exact hall (kind.name, kind.category) kind.mem_byName

/-- Where a line has no space, the indentation is over. -/
theorem head?_name_ne_space (kind : NodeKind) : ∃ c ∈ kind.name.toList.head?, c ≠ ' ' := by
  have hall : ∀ row ∈ Category.byName, row.1.toList.head?.any (· != ' ') = true := by
    decide
  simpa [Option.any_eq_true] using hall (kind.name, kind.category) kind.mem_byName

theorem toList_label (kind : NodeKind) :
    kind.label.toList = kind.name.toList ++
      match kind.detail? with
      | some detail => '(' :: (detail.toList ++ [')'])
      | none => [] := by
  rw [label]
  cases kind.detail? with
  | none => simp
  | some detail => simp [toString]

/-- A label says which name and which words it has. -/
theorem of_label_eq (h : kind.label = kind'.label) :
    kind.name = kind'.name ∧ kind.detail? = kind'.detail? := by
  have hname := kind.parenthesis_notMem_name
  have hname' := kind'.parenthesis_notMem_name
  have hlabel := congrArg String.toList h
  rw [toList_label, toList_label] at hlabel
  cases hdetail : kind.detail? with
  | none =>
    cases hdetail' : kind'.detail? with
    | none =>
      rw [hdetail, hdetail'] at hlabel
      exact ⟨String.toList_inj.mp (by simpa using hlabel), rfl⟩
    | some detail' =>
      rw [hdetail, hdetail', List.append_nil] at hlabel
      exact absurd (hlabel ▸ by simp) hname
  | some detail =>
    cases hdetail' : kind'.detail? with
    | none =>
      rw [hdetail, hdetail', List.append_nil] at hlabel
      exact absurd (hlabel ▸ by simp) hname'
    | some detail' =>
      rw [hdetail, hdetail'] at hlabel
      obtain ⟨hnames, hdetails⟩ := append_cons_inj hname hname' hlabel
      have hwords : detail = detail' := String.toList_inj.mp (List.append_cancel_right hdetails)
      exact ⟨String.toList_inj.mp hnames, by rw [hwords]⟩

/-- Legible words are told by the text of all of them. -/
theorem Legible.words_eq (h : kind.Legible) (h' : kind'.Legible)
    (hcategory : kind.category = kind'.category) (hdetail : kind.detail? = kind'.detail?) :
    kind.words = kind'.words := by
  obtain ⟨huniform, hsingle, -⟩ := h
  obtain ⟨huniform', hsingle', -⟩ := h'
  rw [detail?_eq, detail?_eq, hcategory] at hdetail
  rw [hcategory] at huniform hsingle
  generalize kind.words = words at *
  generalize kind'.words = words' at *
  match words, words' with
  | [], [] => rfl
  | [], _ :: _ => cases hdetail
  | _ :: _, [] => cases hdetail
  | word :: others, word' :: others' =>
    have hjoined := congrArg String.toList (Option.some.inj hdetail)
    rw [String.toList_intercalate, String.toList_intercalate] at hjoined
    cases hwidth : kind'.category.width? with
    | none =>
      obtain rfl : others = [] := by simpa using hsingle hwidth
      obtain rfl : others' = [] := by simpa using hsingle' hwidth
      exact congrArg (fun word => [word]) (String.toList_inj.mp (by simpa using hjoined))
    | some width =>
      have hlengths {words : List String}
          (huniform : ∀ width ∈ kind'.category.width?, ∀ word ∈ words,
            word.toList.length = width) :
          ∀ block ∈ words.map String.toList, block.length = width := by
        simpa using huniform width hwidth
      have hpos : 0 < width := kind'.category.width?_pos width hwidth
      exact List.map_injective_iff.mpr (fun _ _ => String.toList_inj.mp)
        (intercalate_inj hpos (hlengths huniform) (hlengths huniform') (by simp) (by simp) hjoined)

/-- Legible kinds are told by their labels. -/
theorem Legible.eq_of_label (h : kind.Legible) (h' : kind'.Legible)
    (hlabel : kind.label = kind'.label) : kind = kind' := by
  obtain ⟨hname, hdetail⟩ := of_label_eq hlabel
  have hcategory := category_eq_of_name hname
  rw [← withWords_words kind, ← withWords_words kind', hcategory,
    h.words_eq h' hcategory hdetail]

/-- What the kind has on its line. -/
def line (depth : Nat) (kind : NodeKind) : List Char :=
  List.replicate (2 * depth) ' ' ++ kind.label.toList

/-- Neither names nor words break the line. -/
theorem Legible.lineFeed_notMem_line (h : kind.Legible) (depth : Nat) :
    '\n' ∉ kind.line depth := by
  have hseparator : '\n' ∉ kind.category.separator.toList := by cases kind.category <;> decide
  have hdetail : ∀ detail ∈ kind.detail?, '\n' ∉ detail.toList := by
    rw [detail?_eq]
    have hwords := h.oneLine
    cases hkind : kind.words with
    | nil => nofun
    | cons word others =>
      rw [hkind] at hwords
      rintro detail ⟨⟩
      rw [String.toList_intercalate, List.map_cons, intercalate_cons_eq]
      simpa [hseparator] using hwords
  have hname := kind.lineFeed_notMem_name
  rw [line, toList_label]
  cases hkind : kind.detail? with
  | none => simp [hname]
  | some detail => simp [hname, hdetail detail hkind]

/-- The indentation tells how deep the node stands. -/
theorem takeWhile_line (kind : NodeKind) (depth : Nat) :
    (kind.line depth).takeWhile (· == ' ') = List.replicate (2 * depth) ' ' := by
  obtain ⟨c, hc, hspace⟩ := kind.head?_name_ne_space
  obtain ⟨others, hname⟩ : ∃ others, kind.name.toList = c :: others := List.head?_eq_some_iff.mp hc
  rw [line, List.takeWhile_append_of_pos (by simp), toList_label, hname]
  simp [hspace]

/-- A line tells its depth and its label. -/
theorem of_line_eq {depth depth' : Nat} (h : kind.line depth = kind'.line depth') :
    depth = depth' ∧ kind.label = kind'.label := by
  have hspaces := congrArg (List.length ∘ List.takeWhile (· == ' ')) h
  rw [Function.comp_apply, Function.comp_apply, takeWhile_line, takeWhile_line,
    List.length_replicate, List.length_replicate] at hspaces
  obtain rfl : depth = depth' := by omega
  exact ⟨rfl, String.toList_inj.mp (List.append_cancel_left h)⟩

end NodeKind

/-! ## Outlines -/

namespace Node

/-- An outline is the lines of the rows, each with a line feed behind it. -/
theorem toList_outline (tree : Node) :
    tree.outline.toList
      = (tree.rows 0).flatMap fun (depth, kind) => kind.line depth ++ ['\n'] := by
  rw [outline, String.toList_join, List.flatMap_map, rows, List.flatMap_map]
  simp [outlineLine, NodeKind.line]

/-- Trees that are equal up to spans have the same outline. -/
theorem outline_eq_of_bare {tree tree' : Node} (h : tree.bare = tree'.bare) :
    tree.outline = tree'.outline := by
  rw [← String.toList_inj, toList_outline, toList_outline, ← rows_bare, ← rows_bare tree', h]

/-- The rows are cut at the ends of lines. -/
theorem rows_eq_of_lines {rows rows' : List (Nat × NodeKind)} (h : ∀ row ∈ rows, row.2.Legible)
    (h' : ∀ row ∈ rows', row.2.Legible)
    (hlines : (rows.flatMap fun (depth, kind) => kind.line depth ++ ['\n'])
      = rows'.flatMap fun (depth, kind) => kind.line depth ++ ['\n']) : rows = rows' := by
  induction rows generalizing rows' with
  | nil =>
    cases rows' with
    | nil => rfl
    | cons row' others' => simp at hlines
  | cons row others ih =>
    cases rows' with
    | nil => simp at hlines
    | cons row' others' =>
      obtain ⟨hrow, hothers⟩ := List.forall_mem_cons.mp h
      obtain ⟨hrow', hothers'⟩ := List.forall_mem_cons.mp h'
      rw [List.flatMap_cons, List.flatMap_cons, List.append_assoc, List.append_assoc] at hlines
      obtain ⟨hline, hrest⟩ :=
        append_cons_inj (hrow.lineFeed_notMem_line _) (hrow'.lineFeed_notMem_line _) hlines
      obtain ⟨hdepth, hlabel⟩ := NodeKind.of_line_eq hline
      rw [ih hothers hothers' hrest, Prod.ext hdepth (hrow.eq_of_label hrow' hlabel)]

end Node

/-! ## The outlines of programs -/

/-- No token goes on behind the end of a line. -/
theorem TokenKind.Spells.oneLine {kind : TokenKind} {text : String} (h : kind.Spells text) :
    '\n' ∉ text.toList := by
  by_cases hfixed : kind ∈ TokenKind.fixed
  · have hall : ∀ kind ∈ TokenKind.fixed, '\n' ∉ kind.spelling.toList := by decide
    rw [(spells_iff hfixed).mp h]
    exact hall kind hfixed
  · cases kind with
    | identifier =>
      obtain ⟨first, others, htext, hfirst, hothers, -⟩ := h
      intro hmem
      rw [htext, List.mem_cons] at hmem
      rcases hmem with rfl | hmem
      · exact absurd hfirst (by decide)
      · exact absurd (hothers _ hmem) (by decide)
    | integer => exact fun hmem => absurd (h.2 _ hmem) (by decide)
    | _ => exact absurd (by decide) hfixed

/-- Operators of some kinds have the width of the kinds and stay on a line. -/
theorem Operators.texts_spec {operators : Operators} {kinds : List TokenKind} {width : Nat}
    (h : operators.Among kinds)
    (hkinds : ∀ kind ∈ kinds, kind ∈ TokenKind.fixed ∧ kind.spelling.toList.length = width)
    (hspelled : ∀ operator ∈ operators, (Item.word operator.1 operator.2).Spelled) :
    ∀ text ∈ operators.texts, text.toList.length = width ∧ '\n' ∉ text.toList := by
  intro text htext
  obtain ⟨operator, hoperator, rfl⟩ := List.mem_map.mp htext
  obtain ⟨hfixed, hwidth⟩ := hkinds operator.1 (h operator hoperator)
  have hspells : operator.1.Spells operator.2 := hspelled operator hoperator
  exact ⟨by rw [(TokenKind.spells_iff hfixed).mp hspells, hwidth], hspells.oneLine⟩

namespace NodeKind

/-- Without words there is nothing to tell apart. -/
theorem legible_of_no_words {kind : NodeKind} (h : kind.words = []) : kind.Legible := by
  constructor <;> simp [h]

theorem legible_of_word {kind : NodeKind} {word : String} (h : kind.words = [word])
    (hwidth : kind.category.width? = none) (hline : '\n' ∉ word.toList) : kind.Legible := by
  constructor <;> simp [h, hwidth, hline]

/-- Operators of one kind of chain all have the same length. -/
theorem legible_of_operators {kind : NodeKind} {operators : Operators} {kinds : List TokenKind}
    {width : Nat} (hwords : kind.words = operators.texts)
    (hwidth : kind.category.width? = some width)
    (h : operators.Among kinds)
    (hkinds : ∀ kind ∈ kinds, kind ∈ TokenKind.fixed ∧ kind.spelling.toList.length = width)
    (hspelled : ∀ operator ∈ operators, (Item.word operator.1 operator.2).Spelled) :
    kind.Legible := by
  have htexts := Operators.texts_spec h hkinds hspelled
  refine ⟨fun width' hwidth' text htext => ?_, fun hnone => ?_, fun text htext => ?_⟩
  · obtain rfl : width = width' := Option.some.inj (hwidth.symm.trans hwidth')
    exact (htexts text (hwords ▸ htext)).1
  · exact absurd (hwidth.symm.trans hnone) (by simp)
  · exact (htexts text (hwords ▸ htext)).2

end NodeKind

/-- Every production has legible words. -/
theorem Production.legible {kind : NodeKind} {items : List Item} (h : Production kind items)
    (hspelled : ∀ item ∈ items, item.Spelled) : kind.Legible := by
  have hword {kind : TokenKind} {text : String} (hmem : .word kind text ∈ items) :
      '\n' ∉ text.toList := by
    have hspells : kind.Spells text := hspelled _ hmem
    exact hspells.oneLine
  have hlinks {operators : Operators} {operand : Category}
      (hitems : items = .part operand :: operators.links operand) :
      ∀ operator ∈ operators, (Item.word operator.1 operator.2).Spelled := fun operator hmem =>
    hspelled _ (hitems ▸ List.mem_cons_of_mem _
      (List.mem_flatMap.mpr ⟨operator, hmem, List.mem_cons_self⟩))
  have hstacked {operators : Operators} {operand : Category}
      (hitems : items = operators.stacked ++ [.part operand]) :
      ∀ operator ∈ operators, (Item.word operator.1 operator.2).Spelled := fun operator hmem =>
    hspelled _ (hitems ▸ List.mem_append_left _ (List.mem_map.mpr ⟨operator, hmem, rfl⟩))
  cases h with
  | scalarDeclaration _ | listDeclaration _ | integer _ | identifier _ =>
    exact NodeKind.legible_of_word rfl rfl (hword List.mem_cons_self)
  | comparison _ =>
    exact NodeKind.legible_of_word rfl rfl (hword (List.mem_cons_of_mem _ List.mem_cons_self))
  | boolean truth => exact NodeKind.legible_of_word rfl rfl (by cases truth <;> decide)
  | logical h => exact NodeKind.legible_of_operators rfl rfl h (by decide) (hlinks rfl)
  | sum h => exact NodeKind.legible_of_operators rfl rfl h (by decide) (hlinks rfl)
  | product h => exact NodeKind.legible_of_operators rfl rfl h (by decide) (hlinks rfl)
  | signed h => exact NodeKind.legible_of_operators rfl rfl h (by decide) (hstacked rfl)
  | negation h => exact NodeKind.legible_of_operators rfl rfl h (by decide) (hstacked rfl)
  | _ => exact NodeKind.legible_of_no_words rfl

/-- Instances of productions have the words of tokens. -/
theorem Node.Produced.legible {node : Node} (h : node.Produced) : node.kind.Legible := by
  obtain ⟨items, production, -, hspelled⟩ := h
  exact production.legible hspelled

/-- Trees of instances of productions are told by their outlines, up to spans. -/
theorem Node.bare_eq_of_outline {tree tree' : Node} (h : ∀ node ∈ tree.nodes, node.Produced)
    (h' : ∀ node ∈ tree'.nodes, node.Produced) (houtline : tree.outline = tree'.outline) :
    tree.bare = tree'.bare := by
  have hlegible {tree : Node} (h : ∀ node ∈ tree.nodes, node.Produced) :
      ∀ row ∈ tree.rows 0, row.2.Legible := by
    intro row hrow
    obtain ⟨node, hnode, hkind⟩ := exists_mem_nodes_of_mem_rows hrow
    exact hkind ▸ (h node hnode).legible
  refine bare_eq_of_rows (rows_eq_of_lines (hlegible h) (hlegible h') ?_)
  rw [← toList_outline, ← toList_outline, houtline]

/-- What a tree prints does not depend on its places. -/
theorem Node.print_bare (tree : Node) : tree.bare.print = tree.print := by
  induction tree using Node.induction with
  | step kind children span ih =>
    have hcategory (child : Node) : child.bare.category = child.category := by
      obtain ⟨kind, children, span⟩ := child
      rw [bare_mk]
      rfl
    have hcategories : (children.map bare).map category = children.map category := by
      rw [List.map_map]
      exact List.map_congr_left fun child _ => hcategory child
    have hprints : (children.map bare).map print = children.map print := by
      rw [List.map_map]
      exact List.map_congr_left ih
    rw [bare_mk, print_eq, print_eq, hcategories, hprints]

end Census
