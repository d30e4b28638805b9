import Mathlib.Computability.Language
import Mathlib.Order.CompletePartialOrder
import Census.Proofs.Grammar.Shapes

/-!
# The languages of the constructs

What a construct may be written like, told by the kinds of its tokens alone. The language of a
right-hand side is the product of the languages of its items, so languages are computed with like
the grammar is written.

- `Category.language`, `Item.language`: the languages of constructs and of right-hand sides.
- `Production.language_le`: a production adds the language of its right-hand side.
- `Category.exists_mem_language`: every construct can be written at all, so whatever is expected
  of a program can be supplied.
- `Viable`: the beginnings of programs.
-/

namespace Census

/-- What the constructs of a category may be written like. -/
def Category.language (category : Category) : Language TokenKind :=
  {row | ∃ tree tokens, Derives category tree tokens ∧ tokens.map Token.kind = row}

/-- Where two rows can be written, they can be one after the other. -/
theorem exists_mem_mul {language language' : Language TokenKind} (h : ∃ row, row ∈ language)
    (h' : ∃ row, row ∈ language') : ∃ row, row ∈ language * language' := by
  obtain ⟨front, hfront⟩ := h
  obtain ⟨back, hback⟩ := h'
  exact ⟨front ++ back, Language.append_mem_mul hfront hback⟩

namespace Item

/-- What the items of a right-hand side may be written like, one after the other. -/
def language (items : List Item) : Language TokenKind :=
  {row | ∃ trees tokens, Fills items trees tokens ∧ tokens.map Token.kind = row}

variable {items : List Item} {kind : TokenKind} {row : List TokenKind}

@[simp] theorem language_nil : language [] = 1 := by
  ext row
  rw [Language.mem_one]
  constructor
  · rintro ⟨trees, tokens, hfills, rfl⟩
    obtain ⟨-, rfl⟩ := fills_nil_iff.mp hfills
    rfl
  · rintro rfl
    exact ⟨[], [], .nil, rfl⟩

theorem language_mark : language (.mark kind :: items) = {[kind]} * language items := by
  ext row
  rw [Language.mem_mul]
  constructor
  · rintro ⟨trees, _, hfills, rfl⟩
    obtain ⟨token, rest, rfl, rfl, hrest⟩ := fills_mark_iff.mp hfills
    exact ⟨_, rfl, _, ⟨trees, rest, hrest, rfl⟩, rfl⟩
  · rintro ⟨_, rfl, _, ⟨trees, rest, hrest, rfl⟩, rfl⟩
    exact ⟨trees, ⟨kind, "", {}⟩ :: rest, .mark rfl hrest, rfl⟩

/-- The text of a word does not tell in the language. -/
theorem language_word {text : String} :
    language (.word kind text :: items) = {[kind]} * language items := by
  ext row
  rw [Language.mem_mul]
  constructor
  · rintro ⟨trees, _, hfills, rfl⟩
    obtain ⟨token, rest, rfl, rfl, -, hrest⟩ := fills_word_iff.mp hfills
    exact ⟨_, rfl, _, ⟨trees, rest, hrest, rfl⟩, rfl⟩
  · rintro ⟨_, rfl, _, ⟨trees, rest, hrest, rfl⟩, rfl⟩
    exact ⟨trees, ⟨kind, text, {}⟩ :: rest, .word rfl rfl hrest, rfl⟩

/-- What stands for a category is derived from it. -/
theorem language_part {category : Category} :
    language (.part category :: items) = category.language * language items := by
  ext row
  rw [Language.mem_mul]
  constructor
  · rintro ⟨_, _, hfills, rfl⟩
    obtain ⟨tree, others, front, back, rfl, rfl, hderives, hrest⟩ := fills_part_iff.mp hfills
    exact ⟨_, ⟨tree, front, hderives, rfl⟩, _, ⟨others, back, hrest, rfl⟩, by simp⟩
  · rintro ⟨_, ⟨tree, front, hderives, rfl⟩, _, ⟨others, back, hrest, rfl⟩, rfl⟩
    exact ⟨tree :: others, front ++ back, .tree hderives hrest, by simp⟩

/-- A word in front of a row. -/
theorem cons_mem_language_word {text : String} (h : row ∈ language items) :
    kind :: row ∈ language (.word kind text :: items) := by
  rw [language_word]
  exact Language.append_mem_mul (Set.mem_singleton [kind]) h

theorem cons_mem_language_mark (h : row ∈ language items) :
    kind :: row ∈ language (.mark kind :: items) := by
  rw [language_mark]
  exact Language.append_mem_mul (Set.mem_singleton [kind]) h

theorem language_single {category : Category} : language [.part category] = category.language := by
  rw [language_part, language_nil, mul_one]

end Item

/-- A construct may be written like the right-hand side of any of its productions. -/
theorem Production.language_le {kind : NodeKind} {items : List Item} (h : Production kind items) :
    Item.language items ≤ kind.category.language := by
  rintro _ ⟨trees, tokens, hfills, rfl⟩
  exact ⟨⟨kind, trees, {}⟩, tokens, ⟨rfl, items, h, hfills⟩, rfl⟩

/-! ## Rows of operators and operands -/

namespace Operators

/-- Operators of the given kinds, each with an operand behind it. -/
def linked (kinds : List TokenKind) (operand : Category) : Language TokenKind :=
  {row | ∃ operators : Operators, operators.Among kinds ∧
    row ∈ Item.language (operators.links operand)}

variable {kinds : List TokenKind} {operand : Category} {kind : TokenKind}
  {front back : List TokenKind}

theorem among_nil : Among [] kinds := by simp [Among]

theorem nil_mem_linked : [] ∈ linked kinds operand :=
  ⟨[], among_nil, Item.language_nil ▸ Language.nil_mem_one⟩

/-- An operator goes with the operand behind it. -/
theorem cons_mem_linked (hkind : kind ∈ kinds) (hfront : front ∈ operand.language)
    (hback : back ∈ linked kinds operand) : kind :: (front ++ back) ∈ linked kinds operand := by
  obtain ⟨operators, hamong, hback⟩ := hback
  refine ⟨(kind, "") :: operators, List.forall_mem_cons.mpr ⟨hkind, hamong⟩, ?_⟩
  show _ ∈ Item.language (.word kind "" :: .part operand :: links operators operand)
  refine Item.cons_mem_language_word ?_
  rw [Item.language_part]
  exact Language.append_mem_mul hfront hback

/-- Operators in front of an operand. -/
theorem append_mem_stacked {row : List TokenKind} (hrow : ∀ kind ∈ row, kind ∈ kinds)
    (hback : back ∈ operand.language) :
    ∃ operators : Operators, operators.Among kinds ∧
      row ++ back ∈ Item.language (operators.stacked ++ [.part operand]) := by
  induction row with
  | nil =>
    refine ⟨[], among_nil, ?_⟩
    rwa [stacked, List.map_nil, List.nil_append, Item.language_single]
  | cons kind row ih =>
    obtain ⟨hkind, hrow⟩ := List.forall_mem_cons.mp hrow
    obtain ⟨operators, hamong, hmem⟩ := ih hrow
    refine ⟨(kind, "") :: operators, List.forall_mem_cons.mpr ⟨hkind, hamong⟩, ?_⟩
    exact Item.cons_mem_language_word hmem

end Operators

/-! ## Blocks -/

namespace Category

theorem nil_mem_block : [] ∈ language .block :=
  (Production.block 0).language_le (Item.language_nil ▸ Language.nil_mem_one)

/-- One more statement in front of a row of statements. -/
theorem append_mem_block {front back : List TokenKind} (hfront : front ∈ language .statement)
    (hback : back ∈ language .block) : front ++ back ∈ language .block := by
  obtain ⟨_, back, hderives, rfl⟩ := hback
  obtain ⟨trees, span, rfl, count, hfills⟩ := hderives.block
  refine (Production.block (count + 1)).language_le ?_
  rw [List.replicate_succ, Item.language_part]
  exact Language.append_mem_mul hfront ⟨trees, back, hfills, rfl⟩

/-- A program is written like a block. -/
theorem language_program : language .program = language .block := by
  ext row
  constructor
  · rintro ⟨_, tokens, hderives, rfl⟩
    obtain ⟨content, span, rfl, hcontent⟩ := hderives.program
    exact ⟨content, tokens, hcontent, rfl⟩
  · intro h
    exact Production.program.language_le (Item.language_single ▸ h)

end Category

/-! ## Everything can be written -/

/-- There is a way to write the construct. -/
def Category.Writable (category : Category) : Prop := ∃ row, row ∈ category.language

/-- Rows for the parts, put in order, are a row for all of them. -/
theorem Item.exists_mem_language {items : List Item}
    (hparts : ∀ category, .part category ∈ items → category.Writable) :
    ∃ row, row ∈ language items := by
  induction items with
  | nil => exact ⟨[], by rw [language_nil]; exact Language.nil_mem_one⟩
  | cons item items ih =>
    obtain ⟨back, hback⟩ := ih fun category hmem => hparts category (List.mem_cons_of_mem _ hmem)
    cases item with
    | mark kind => exact ⟨kind :: back, cons_mem_language_mark hback⟩
    | word kind text => exact ⟨kind :: back, cons_mem_language_word hback⟩
    | part category =>
      rw [language_part]
      exact exists_mem_mul (hparts category List.mem_cons_self) ⟨back, hback⟩

/-- A construct can be written if the parts of one of its productions can. -/
theorem Production.writable {kind : NodeKind} {items : List Item} (h : Production kind items)
    (hparts : ∀ category, .part category ∈ items → category.Writable) :
    kind.category.Writable := by
  obtain ⟨row, hrow⟩ := Item.exists_mem_language hparts
  exact ⟨row, h.language_le hrow⟩

/-- Every construct can be written. -/
theorem Category.writable (category : Category) : category.Writable := by
  have hnone : ∀ {kinds}, Operators.Among [] kinds := Operators.among_nil
  have hidentifier : Writable .identifier := (Production.identifier "").writable (by simp)
  -- the ladder of expressions, without any operators
  have hvalue : Writable .value :=
    (Production.plain List.mem_cons_self).writable (by simpa using hidentifier)
  have hnegation : Writable .negation :=
    (Production.negation hnone).writable (by simpa [Operators.stacked] using hvalue)
  have hsigned : Writable .signed :=
    (Production.signed hnone).writable (by simpa [Operators.stacked] using hnegation)
  have hproduct : Writable .product :=
    (Production.product hnone).writable (by simpa [Operators.links] using hsigned)
  have hsum : Writable .sum :=
    (Production.sum hnone).writable (by simpa [Operators.links] using hproduct)
  have hcomparison : Writable .comparison := Production.operand.writable (by simpa using hsum)
  have hlogical : Writable .logical :=
    (Production.logical hnone).writable (by simpa [Operators.links] using hcomparison)
  have hexpression : Writable .expression :=
    Production.expression.writable (by simpa using hlogical)
  have hassignment : Writable .assignment :=
    Production.assignment.writable (by simp [hidentifier, hexpression])
  -- declarations
  have hscalar : Writable .scalarDeclaration :=
    (show Production (.scalarDeclaration "") _ from .scalarDeclaration List.mem_cons_self).writable
      (by simpa using hidentifier)
  have hlist : Writable .listDeclaration :=
    (show Production (.listDeclaration "") _ from .listDeclaration List.mem_cons_self).writable
      (by simpa using hidentifier)
  have hdeclaration : Writable .declaration :=
    (Production.declaration List.mem_cons_self).writable (by simpa using hscalar)
  -- statements, the shortest of which is a pair of braces
  have hblock : Writable .block := ⟨[], nil_mem_block⟩
  have hstatement : Writable .statement := Production.braces.writable (by simpa using hblock)
  cases category with
  | program => exact Production.program.writable (by simpa using hblock)
  | conditional => exact Production.conditional.writable (by simp [hexpression, hstatement])
  | whileLoop => exact Production.whileLoop.writable (by simp [hexpression, hstatement])
  | forLoop =>
    exact Production.forLoop.writable (by simp [hassignment, hexpression, hstatement])
  | foreachLoop =>
    exact Production.foreachLoop.writable (by simp [hscalar, hidentifier, hstatement])
  | boolean => exact (Production.boolean true).writable (by simp)
  | integer => exact (Production.integer "").writable (by simp)
  | _ => assumption

/-- No item asks for something that cannot be written. -/
theorem Item.writable (items : List Item) : ∃ row, row ∈ language items :=
  exists_mem_language fun category _ => category.writable

/-! ## Beginnings of programs -/

/-- The row can be the beginning of a program. -/
def Viable (row : List TokenKind) : Prop :=
  ∃ program ∈ Category.language .program, row <+: program

end Census
