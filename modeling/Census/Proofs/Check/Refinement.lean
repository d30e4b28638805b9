import Mathlib.Data.List.InsertIdx
import Census.Proofs.Check.Findings
import Census.Proofs.Check.Slots

/-!
# Answers instead of a slot

A check hands types on as answers of visits; the walk with a slot leaves them in its slot. In a
program that parsing gives, wherever a construct reads the slot, the part visited last has just
written it, and what it wrote is what the check's visit answers. What is in the slot before the walk
does not matter, then, and the two come to the same.

- `Node.Supplied`: the parts that a construct reads types from have types.
- `Paired`: a check and a walk with a slot that end alike. There is a lemma for each rule.
- `visitWithin_paired`: visits in trees of supplied nodes.
- `check_eq_slotted`: checks of programs.
-/

namespace Census

open Check

/-! ## Supplied nodes -/

/-- A part of a construct of the given kind whose own construct produces a type. -/
def Node.Supplies (parent : NodeKind) (node : Node) : Prop := node.category.produces parent = true

/-- The parts that the construct reads types from produce types, and it has the parts it needs. -/
def Node.Supplied (node : Node) : Prop :=
  match node.kind with
  | .expression | .value | .negation _ | .signed _ =>
    ∃ content, node.children = [content] ∧ content.Supplies node.kind
  | .assignment => ∃ target content, node.children = [target, content] ∧ content.Supplies node.kind
  | .conditional | .whileLoop =>
    ∃ test others, node.children = test :: others ∧ test.Supplies node.kind
  | .forLoop =>
    ∃ first test others, node.children = first :: test :: others ∧ test.Supplies node.kind
  | .foreachLoop => ∃ entry others, node.children = entry :: others ∧ entry.Supplies node.kind
  | .comparison operator =>
    (∃ left, node.children = [left] ∧ left.Supplies node.kind) ∨
      ∃ left right, node.children = [left, right] ∧ operator.isSome = true ∧
        left.Supplies node.kind ∧ right.Supplies node.kind
  | .sum _ | .product _ | .logical _ =>
    node.children ≠ [] ∧ ∀ child ∈ node.children, child.Supplies node.kind
  | .boolean _ | .integer _ => node.children = []
  | _ => True

/-- A construct that produces types inside a kind of node supplies it. -/
theorem Derives.supplies {category : Category} {tree : Node} {tokens : List Token}
    (h : Derives category tree tokens) {parent : NodeKind}
    (hproduces : category.produces parent = true) :
    tree.Supplies parent := by
  rwa [Node.Supplies, Node.category, h.1]

/-- The nodes of derivations are supplied. -/
theorem Derives.supplied {category : Category} {tree : Node} {tokens : List Token}
    (h : Derives category tree tokens) : tree.Supplied := by
  have hchain {kind : NodeKind} {first : Node} {others : List Node} {category : Category}
      {front back : List Token} {operators : Operators}
      (hproduces : category.produces kind = true)
      (hfirst : Derives category first front)
      (hothers : Fills (operators.links category) others back) :
      first :: others ≠ [] ∧ ∀ child ∈ first :: others, child.Supplies kind := by
    refine ⟨by simp, fun child hchild => ?_⟩
    obtain ⟨inside, hinside⟩ := hfirst.operands hothers child hchild
    exact hinside.supplies hproduces
  obtain ⟨kind, children, span⟩ := tree
  obtain rfl : category = kind.category := h.1.symm
  cases kind with
  | expression =>
    obtain ⟨content, _, ⟨⟩, hcontent⟩ := h.expression
    exact ⟨content, rfl, hcontent.supplies rfl⟩
  | value =>
    obtain ⟨content, _, ⟨⟩, ⟨category, hplain, hcontent⟩ | ⟨_, _, _, -, -, -, hcontent⟩⟩ := h.value
    · have hproduces : ∀ category ∈ [Category.identifier, .integer, .boolean],
          category.produces .value = true := by
        decide
      exact ⟨content, rfl, hcontent.supplies (hproduces category hplain)⟩
    · exact ⟨content, rfl, hcontent.supplies rfl⟩
  | negation operators =>
    obtain ⟨_, content, _, _, -, ⟨⟩, -, hcontent⟩ := h.negation
    exact ⟨content, rfl, hcontent.supplies rfl⟩
  | signed operators =>
    obtain ⟨_, content, _, _, -, ⟨⟩, -, hcontent⟩ := h.signed
    exact ⟨content, rfl, hcontent.supplies rfl⟩
  | assignment =>
    obtain ⟨target, content, _, _, _, _, -, ⟨⟩, -, -, hcontent⟩ := h.assignment
    exact ⟨target, content, rfl, hcontent.supplies rfl⟩
  | conditional =>
    obtain ⟨_, _, test, _, _, _, _, _, _, -, -, -, -, htest, -, ⟨⟨⟩, -⟩ |
      ⟨_, _, _, -, -, -, ⟨⟩⟩⟩ := h.conditional
    · exact ⟨test, _, rfl, htest.supplies rfl⟩
    · exact ⟨test, _, rfl, htest.supplies rfl⟩
  | whileLoop =>
    obtain ⟨_, _, test, _, _, _, _, _, -, -, -, -, htest, -, ⟨⟩⟩ := h.whileLoop
    exact ⟨test, _, rfl, htest.supplies rfl⟩
  | forLoop =>
    obtain ⟨_, _, _, _, _, test, _, _, _, _, _, _, _, _, -, -, -, -, -, -, -, htest, -, -, ⟨⟩⟩ :=
      h.forLoop
    exact ⟨_, test, _, rfl, htest.supplies rfl⟩
  | foreachLoop =>
    obtain ⟨_, _, entry, _, _, _, _, _, _, _, _, -, -, -, -, -, hentry, -, -, ⟨⟩⟩ := h.foreachLoop
    exact ⟨entry, _, rfl, hentry.supplies rfl⟩
  | comparison operator =>
    rcases h.comparison with ⟨left, _, ⟨⟩, hleft⟩ |
      ⟨left, right, _, _, _, _, -, ⟨⟩, -, hleft, hright⟩
    · exact .inl ⟨left, rfl, hleft.supplies rfl⟩
    · exact .inr ⟨left, right, rfl, rfl, hleft.supplies rfl, hright.supplies rfl⟩
  | sum operators =>
    obtain ⟨_, _, _, _, _, _, -, ⟨⟩, -, hfirst, hothers⟩ := h.sum
    exact hchain rfl hfirst hothers
  | product operators =>
    obtain ⟨_, _, _, _, _, _, -, ⟨⟩, -, hfirst, hothers⟩ := h.product
    exact hchain rfl hfirst hothers
  | logical operators =>
    obtain ⟨_, _, _, _, _, _, -, ⟨⟩, -, hfirst, hothers⟩ := h.logical
    exact hchain rfl hfirst hothers
  | boolean truth =>
    obtain ⟨_, _, _, -, -, ⟨⟩⟩ := h.boolean
    rfl
  | integer digits =>
    obtain ⟨_, _, -, -, ⟨⟩⟩ := h.integer
    rfl
  | _ => trivial

/-- By the grammar no construct that reads a type has a part that produces none. -/
theorem supplied_of_parse {tokens : List Token} {tree : Node} (h : parse tokens = .ok tree) :
    ∀ node ∈ tree.nodes, node.Supplied := by
  intro node hnode
  obtain ⟨inside, hderives⟩ :=
    (Fills.lastTree (parse_ok h).1).exists_derives tree List.mem_cons_self node hnode
  exact hderives.supplied

/-! ## Pairs of steps -/

variable {α β α' β' : Type} {ahead : Nat} {before : Checker → Slotted → Prop}
  {holds : ValueType → Prop}

/-- Both have failed with the same problem and left the same table, or both have answered and left
what is told. -/
inductive EndAlike (after : α → α' → Checker → Slotted → Prop) :
    Except Diagnostic α × Checker → Except Diagnostic α' × Slotted → Prop where
  | answer {answer : α} {answer' : α'} {s : Checker} {t : Slotted} (h : after answer answer' s t) :
      EndAlike after (.ok answer, s) (.ok answer', t)
  | failure (problem : Diagnostic) {s : Checker} {t : Slotted} (h : t.symbols = s.symbols) :
      EndAlike after (.error problem, s) (.error problem, t)

/-- From states as told, the check and the walk end alike. -/
def Paired (before : Checker → Slotted → Prop) (check : Check α) (walk : SlotCheck α')
    (after : α → α' → Checker → Slotted → Prop) : Prop :=
  ∀ s t, before s t → EndAlike after (check.run.run s) (walk.run.run t)

/-- The walk has counted some operators more than the check, and its slot is as told. -/
structure Ahead (ahead : Nat) (holds : ValueType → Prop) (s : Checker) (t : Slotted) : Prop where
  checker : t.toChecker = s.counting { operators := ahead }
  slot : holds t.slot

/-- The walk has counted some operators more than the check. -/
abbrev Abreast (ahead : Nat) : Checker → Slotted → Prop := Ahead ahead fun _ => True

/-- Both have the same table: only the count of operators runs ahead. -/
theorem Ahead.symbols {s : Checker} {t : Slotted} (h : Ahead ahead holds s t) :
    t.symbols = s.symbols := by
  rw [h.checker]
  rfl

theorem Ahead.imp {holds' : ValueType → Prop} {s : Checker} {t : Slotted}
    (h : Ahead ahead holds s t) (hholds : ∀ type, holds type → holds' type) :
    Ahead ahead holds' s t :=
  ⟨h.checker, hholds _ h.slot⟩

theorem Ahead.abreast {s : Checker} {t : Slotted} (h : Ahead ahead holds s t) :
    Abreast ahead s t := h.imp fun _ _ => trivial

namespace Paired

/-- What the first two steps leave is what the next two may start from. -/
theorem bind {check : Check α} {walk : SlotCheck α'} {next : α → Check β}
    {next' : α' → SlotCheck β'} {between : α → α' → Checker → Slotted → Prop}
    {after : β → β' → Checker → Slotted → Prop} (h : Paired before check walk between)
    (hnext : ∀ answer answer',
      Paired (between answer answer') (next answer) (next' answer') after) :
    Paired before (check >>= next) (walk >>= next') after := by
  intro s t hbefore
  have hfirst := h s t hbefore
  rw [run_bind, run_bind]
  generalize check.run.run s = outcome, walk.run.run t = outcome' at hfirst ⊢
  cases hfirst with
  | answer hbetween => exact hnext _ _ _ _ hbetween
  | failure problem hsymbols => exact .failure problem hsymbols

/-- A pair may ask for more before and tell less afterwards. -/
theorem imp {check : Check α} {walk : SlotCheck α'} {before' : Checker → Slotted → Prop}
    {after after' : α → α' → Checker → Slotted → Prop} (h : Paired before check walk after)
    (hbefore : ∀ s t, before' s t → before s t)
    (hafter : ∀ answer answer' s t, after answer answer' s t → after' answer answer' s t) :
    Paired before' check walk after' := by
  intro s t hs
  have hends := h s t (hbefore s t hs)
  generalize check.run.run s = outcome, walk.run.run t = outcome' at hends ⊢
  cases hends with
  | answer hanswer => exact .answer (hafter _ _ _ _ hanswer)
  | failure problem hsymbols => exact .failure problem hsymbols

/-- What is known of the states before and does not depend on them. -/
theorem of_and {p : Prop} {check : Check α} {walk : SlotCheck α'}
    {after : α → α' → Checker → Slotted → Prop} (h : p → Paired before check walk after) :
    Paired (fun s t => p ∧ before s t) check walk after :=
  fun s t hbefore => h hbefore.1 s t hbefore.2

end Paired

section Steps

variable {after : β → β' → Checker → Slotted → Prop}

theorem paired_pure {answer : α} {answer' : α'} {after : α → α' → Checker → Slotted → Prop}
    (h : ∀ s t, before s t → after answer answer' s t) :
    Paired before (pure answer) (pure answer') after := fun s t hbefore => .answer (h s t hbefore)

/-- Both fail with one problem; the tables are the same, and nothing else is asked of failures. -/
theorem paired_throw {after : α → α' → Checker → Slotted → Prop} (problem : Diagnostic) :
    Paired (Ahead ahead holds) (throw problem) (throw problem) after :=
  fun _ _ h => .failure problem h.symbols

theorem paired_throw_bind (problem : Diagnostic) (next : α → Check β) (next' : α' → SlotCheck β') :
    Paired (Ahead ahead holds) (throw problem >>= next) (throw problem >>= next') after :=
  paired_throw problem

/-- A decision that both take is taken alike. -/
theorem paired_ite {p : Prop} [Decidable p] {first second : Check β} {first' second' : SlotCheck β'}
    (h : Paired before first first' after) (h' : Paired before second second' after) :
    Paired before (if p then first else second) (if p then first' else second') after := by
  by_cases hp : p
  · rwa [if_pos hp, if_pos hp]
  · rwa [if_neg hp, if_neg hp]

/-- Answers that are the same go on the same way. -/
theorem Paired.bindSame {check : Check α} {walk : SlotCheck α} {next : α → Check β}
    {next' : α → SlotCheck β'} {between : α → Checker → Slotted → Prop}
    (h : Paired before check walk fun answer answer' s t => answer' = answer ∧ between answer s t)
    (hnext : ∀ answer, Paired (between answer) (next answer) (next' answer) after) :
    Paired before (check >>= next) (walk >>= next') after :=
  h.bind fun answer _ => .of_and fun hsame => hsame ▸ hnext answer

/-- A missing part is the same malformation in both, and other parts are at the same index. -/
theorem paired_part_bind {kind : NodeKind} {children : List Node} {span : Span}
    (f : Node → Slotted.Part) (index : Nat) {next : Node → Check β}
    {next' : Slotted.Part → SlotCheck β'}
    (h : ∀ child, children[index]? = some child →
      Paired (Ahead ahead holds) (next child) (next' (f child)) after) :
    Paired (Ahead ahead holds) (child ⟨kind, children, span⟩ index >>= next)
      (Slotted.part ⟨kind, children, span⟩ (children.map f) index >>= next') after := by
  unfold child Slotted.part Node.child?
  rw [List.getElem?_map]
  cases hchild : children[index]? with
  | none => exact paired_throw_bind _ _ _
  | some child => exact h child hchild

theorem paired_nameOf (node : Node) :
    Paired (Ahead ahead holds) (nameOf node) (nameOf node) fun name name' s t =>
      name' = name ∧ Ahead ahead holds s t := by
  unfold nameOf
  cases node.identifier? with
  | none => exact paired_throw _
  | some name => exact paired_pure fun s t h => ⟨rfl, h⟩

/-- Look-ups only read the table, which is the same in both. -/
theorem paired_lookupType (name : String) (span : Span) :
    Paired (Ahead ahead holds) (lookupType name span) (lookupType name span) fun type type' s t =>
      type' = type ∧ Ahead ahead holds s t := by
  intro s t h
  have hsymbols : (Holds.checker t : Checker).symbols = s.symbols := h.symbols
  rw [run_lookupType, lookupType, run_get_bind, hsymbols]
  cases s.symbols.lookupType name span with
  | error problem => exact .failure problem h.symbols
  | ok type => exact .answer ⟨rfl, h⟩

/-- What both count keeps the distance between the counts. -/
theorem paired_count {step : Metrics → Metrics} (counts : Metrics)
    (hstep : ∀ metrics, step metrics = metrics + counts) :
    Paired (Ahead ahead holds) (count step) (count step) fun _ _ => Ahead ahead holds := by
  rintro s ⟨checker, slot⟩ ⟨rfl, hslot⟩
  refine .answer ⟨?_, hslot⟩
  show Checker.mk _ (step _) = Checker.mk _ (step _ + _)
  rw [hstep, hstep]
  exact congrArg _ (add_right_comm _ _ _)

/-- A name is free in both tables or in none. -/
theorem paired_declare (name : String) (type : ValueType) (span : Span) :
    Paired (Ahead ahead holds) (declare name type span) (declare name type span) fun _ _ =>
      Ahead ahead holds := by
  rintro s ⟨checker, slot⟩ ⟨rfl, hslot⟩
  have hsymbols : (s.counting { operators := ahead }).symbols = s.symbols := rfl
  rw [run_declare, declare, run_get_bind, Slotted.checker_mk, SymbolTable.declare, hsymbols]
  cases s.symbols.lookup? name with
  | some earlier => exact .failure _ rfl
  | none =>
    have hcounts := add_right_comm s.metrics { operators := ahead } { declarations := 1 }
    exact .answer ⟨congrArg (Checker.mk _) hcounts, hslot⟩

/-- Here the check does nothing, and the walk writes to its slot. -/
theorem paired_publish (type : ValueType) :
    Paired (Ahead ahead holds) (pure ()) (Slotted.publish type) fun _ _ =>
      Ahead ahead (· = type) :=
  fun _ _ h => .answer ⟨h.checker, rfl⟩

/-- Reading what a visit has produced, from its answer or from the slot. -/
theorem paired_published (produced : Option ValueType) (node : Node) :
    Paired (Ahead ahead (produced = some ·)) (typeOf produced node) Slotted.published
      fun type type' s t => type' = type ∧
        Ahead ahead (fun slot => produced = some slot ∧ slot = type) s t := by
  intro s t h
  have hproduced := h.slot
  rw [hproduced]
  exact .answer ⟨rfl, h.checker, rfl, rfl⟩

/-- A step that only the walk takes. -/
theorem Paired.after_step {step : SlotCheck Unit} {check : Check β} {walk : SlotCheck β'}
    {between : Checker → Slotted → Prop} (hstep : Paired before (pure ()) step fun _ _ => between)
    (h : Paired between check walk after) :
    Paired before check (do step; walk) after := by
  have hsame : check = (do pure (); check) := (pure_bind () fun _ => check).symm
  rw [hsame]
  exact hstep.bind fun _ _ => h

/-- A rule of checks that answers something in the end. -/
theorem Paired.answering {check : Check α} {walk : SlotCheck Unit} {answer : α → β}
    {between : α → Unit → Checker → Slotted → Prop} {after : β → Unit → Checker → Slotted → Prop}
    (h : Paired before check walk between)
    (hafter : ∀ first s t, between first () s t → after (answer first) () s t) :
    Paired before (do return answer (← check)) walk after := by
  rw [← bind_pure walk]
  exact h.bind fun first _ => paired_pure (hafter first)

end Steps

/-! ## Pairs of rules -/

/-- The two visits end alike, and if the node's construct produces a type, it is in the slot. -/
def PairedVisit (visit : Visit) (parent : NodeKind) (node : Node) : Prop :=
  ∀ ahead, Paired (Abreast ahead) (visit parent node) (node.visitSlotted parent) fun produced _ =>
    Ahead ahead fun slot => node.Supplies parent → produced = some slot

section Rules

variable {visit : Visit} {kind parent : NodeKind} {children : List Node} {span : Span}

theorem PairedVisit.abreast {node : Node} (h : PairedVisit visit kind node) (ahead : Nat) :
    Paired (Abreast ahead) (visit kind node) (node.slottedPart kind).visit fun _ _ =>
      Abreast ahead :=
  (h ahead).imp (fun _ _ => id) fun _ _ _ _ => Ahead.abreast

/-- The slot keeps what the last part wrote, and the check answers what the last part produced. Both
are told of the last part alone, since parts before it may write and produce as they like. -/
theorem visitEach_paired {nodes : List Node} (h : ∀ node ∈ nodes, PairedVisit visit kind node) :
    Paired (Abreast ahead) (Rule.visitEach visit kind nodes)
      (Slotted.visitAll (nodes.map (Node.slottedPart kind))) fun produced _ =>
        Ahead ahead fun slot => (∃ last ∈ nodes.getLast?, last.Supplies kind) →
          produced = some slot := by
  -- the fold starts with any type, as the induction meets it in the middle
  have hfold : ∀ produced, Paired (Abreast ahead)
      (nodes.foldlM (fun produced node => return (← visit kind node).or produced) produced)
      (Slotted.visitAll (nodes.map (Node.slottedPart kind))) fun produced _ =>
        Ahead ahead fun slot => (∃ last ∈ nodes.getLast?, last.Supplies kind) →
          produced = some slot := by
    induction nodes with
    | nil =>
      exact fun produced => paired_pure fun _ _ hs => hs.imp fun _ _ ⟨_, hlast, _⟩ =>
        nomatch hlast
    | cons node others ih =>
      intro produced
      obtain ⟨hfirst, hothers⟩ := List.forall_mem_cons.mp h
      rw [List.foldlM_cons, bind_assoc]
      refine (hfirst ahead).bind fun first _ => ?_
      rw [pure_bind]
      cases others with
      | nil =>
        refine paired_pure fun _ _ hs => hs.imp fun slot hslot hlast => ?_
        have hsupplies : node.Supplies kind := by simpa using hlast
        rw [hslot hsupplies, Option.some_or]
      | cons other others =>
        exact (ih hothers (first.or produced)).imp (fun _ _ => Ahead.abreast) fun _ _ _ _ hs => by
          simpa using hs
  exact hfold none

/-- What the check insists on, the walk finds in its slot. -/
theorem visitTyped_paired {node : Node} (h : PairedVisit visit kind node)
    (hsupplies : node.Supplies kind) :
    Paired (Abreast ahead) (Rule.visitTyped visit kind node)
      (Slotted.visitTyped (node.slottedPart kind)) fun type type' s t =>
        type' = type ∧ Ahead ahead (· = type) s t :=
  (h ahead).bind fun produced _ => (paired_published produced node).imp
    (fun _ _ hs => hs.imp fun _ hslot => hslot hsupplies)
    fun _ _ _ _ hs => ⟨hs.1, hs.2.imp fun _ hslot => hslot.2⟩

section Children

variable (h : ∀ child ∈ children, PairedVisit visit kind child)
include h

/-- A declaration writes no type that is read, so nothing is said about the slot. -/
theorem declaration_paired (type : ValueType) :
    Paired (Abreast ahead) (Rule.declaration visit ⟨kind, children, span⟩ type)
      (Slotted.declaration ⟨kind, children, span⟩ (children.map (Node.slottedPart kind)) type)
      fun _ _ => Abreast ahead := by
  refine paired_part_bind _ 0 fun target htarget => ?_
  exact ((h target (List.mem_of_getElem? htarget)).abreast ahead).bind fun _ _ =>
    (paired_nameOf target).bindSame fun name => paired_declare name type target.span

/-- The condition is visited last, so its type is the one in the slot. -/
theorem conditional_paired {index : Nat} {test : Node} (htest : children[index]? = some test)
    (hsupplies : test.Supplies kind) :
    Paired (Abreast ahead) (Rule.conditional visit ⟨kind, children, span⟩ index)
      (Slotted.conditional ⟨kind, children, span⟩ (children.map (Node.slottedPart kind)) index)
      fun _ _ => Abreast ahead := by
  refine paired_part_bind _ index fun test' htest' => ?_
  obtain rfl := Option.some.inj (htest.symm.trans htest')
  have hothers : ∀ child ∈ children.eraseIdx index, PairedVisit visit kind child :=
    fun child hchild => h child (List.mem_of_mem_eraseIdx hchild)
  rw [List.eraseIdx_map]
  refine ((visitEach_paired hothers).imp (fun _ _ => id) fun _ _ _ _ => Ahead.abreast).bind
    fun _ _ => ?_
  refine (visitTyped_paired (h test (List.mem_of_getElem? htest)) hsupplies).bindSame
    fun found => ?_
  exact paired_ite (paired_pure fun _ _ => Ahead.abreast) (paired_throw _)

/-- The type of the variable is read before the list is visited. -/
theorem foreachLoop_paired {entry : Node} (hentry : children[0]? = some entry)
    (hsupplies : entry.Supplies kind) :
    Paired (Abreast ahead) (Rule.foreachLoop visit ⟨kind, children, span⟩)
      (Slotted.foreachLoop ⟨kind, children, span⟩ (children.map (Node.slottedPart kind)))
      fun _ _ => Abreast ahead := by
  refine paired_part_bind _ 0 fun entry' hentry' => paired_part_bind _ 1 fun array harray =>
    paired_part_bind _ 2 fun body hbody => ?_
  obtain rfl := Option.some.inj (hentry.symm.trans hentry')
  have hvisit (ahead : Nat) {child : Node} {index : Nat} (hchild : children[index]? = some child) :=
    (h child (List.mem_of_getElem? hchild)).abreast ahead
  refine ((visitTyped_paired (h entry (List.mem_of_getElem? hentry)) hsupplies).imp (fun _ _ => id)
    fun _ _ _ _ hs => ⟨hs.1, hs.2.abreast⟩).bindSame fun element => ?_
  refine (hvisit ahead harray).bind fun _ _ => (paired_nameOf array).bindSame fun name =>
    (paired_lookupType name array.span).bindSame fun found => ?_
  exact paired_ite
    (paired_ite ((hvisit ahead hbody).answering fun _ _ _ => id) (paired_throw_bind _ _ _))
    (paired_throw_bind _ _ _)

end Children

/-- The value is the last of the two parts, so its type is the one in the slot. -/
theorem assignment_paired {target content : Node}
    (h : ∀ child ∈ [target, content], PairedVisit visit kind child)
    (hsupplies : content.Supplies kind) :
    Paired (Abreast ahead) (Rule.assignment visit ⟨kind, [target, content], span⟩)
      (Slotted.assignment ⟨kind, [target, content], span⟩
        ([target, content].map (Node.slottedPart kind)))
      fun _ _ => Abreast ahead := by
  refine paired_part_bind _ 0 fun _ htarget => paired_part_bind _ 1 fun _ hcontent => ?_
  obtain rfl := Option.some.inj htarget
  obtain rfl := Option.some.inj hcontent
  refine (visitEach_paired h).bind fun produced _ => ?_
  -- the value is visited last, so its type is in the slot
  have hslot {s : Checker} {t : Slotted}
      (hs : Ahead ahead (fun slot => (∃ last ∈ [target, content].getLast?, last.Supplies kind) →
        produced = some slot) s t) : Ahead ahead (produced = some ·) s t :=
    hs.imp fun _ hlast => hlast ⟨content, rfl, hsupplies⟩
  refine Paired.imp ?_ (fun _ _ => hslot) fun _ _ _ _ => id
  exact (paired_nameOf target).bindSame fun name =>
    (paired_lookupType name target.span).bindSame fun expected =>
    (paired_published produced content).bindSame fun found =>
      paired_ite (paired_pure fun _ _ => Ahead.abreast) (paired_throw _)

/-! ## Pairs of rules of expressions -/

/-- An only part is the last one. -/
theorem visitEach_singleton_paired {node : Node} (h : PairedVisit visit kind node)
    (hsupplies : node.Supplies kind) :
    Paired (Abreast ahead) (Rule.visitEach visit kind [node])
      (Slotted.visitAll ([node].map (Node.slottedPart kind))) fun produced _ =>
        Ahead ahead (produced = some ·) :=
  (visitEach_paired (List.forall_mem_singleton.mpr h)).imp (fun _ _ => id) fun _ _ _ _ hs =>
    hs.imp fun _ hlast => hlast ⟨node, rfl, hsupplies⟩

/-- A lone operand leaves its own type in the slot. -/
theorem comparison_paired_alone {left : Node} {operator : Option String}
    (h : PairedVisit visit kind left) (hsupplies : left.Supplies kind) :
    Paired (Abreast ahead) (Rule.comparison visit ⟨kind, [left], span⟩ operator)
      (Slotted.comparison ⟨kind, [left], span⟩ ([left].map (Node.slottedPart kind)) operator)
      fun type _ => Ahead ahead (· = type) := by
  unfold Rule.comparison Slotted.comparison
  simp only [List.map_cons, List.map_nil, List.mapM_cons, List.mapM_nil, bind_assoc, pure_bind]
  exact (visitTyped_paired h hsupplies).bindSame fun type => paired_pure fun _ _ => id

/-- Each operand's type is read right after the visit to that operand. -/
theorem comparison_paired {left right : Node} {operator : String}
    (hleft : PairedVisit visit kind left) (hleftSupplies : left.Supplies kind)
    (hright : PairedVisit visit kind right) (hrightSupplies : right.Supplies kind) :
    Paired (Abreast ahead) (Rule.comparison visit ⟨kind, [left, right], span⟩ (some operator))
      (Slotted.comparison ⟨kind, [left, right], span⟩ ([left, right].map (Node.slottedPart kind))
        (some operator))
      fun type _ => Ahead ahead (· = type) := by
  unfold Rule.comparison Slotted.comparison
  simp only [List.map_cons, List.map_nil, List.mapM_cons, List.mapM_nil, bind_assoc, pure_bind]
  refine (visitTyped_paired hleft hleftSupplies).bindSame fun first => ?_
  refine ((visitTyped_paired hright hrightSupplies).imp (fun _ _ => Ahead.abreast)
    fun _ _ _ _ => id).bindSame fun second => ?_
  refine paired_ite (paired_ite ?_ (paired_throw_bind _ _ _)) (paired_throw_bind _ _ _)
  have hpublish : Paired (Ahead ahead (· = second)) (pure ()) (Slotted.publish .bool) fun _ _ =>
      Ahead ahead (· = .bool) :=
    paired_publish .bool
  exact hpublish.after_step
    ((paired_count { operators := 1 } fun _ => rfl).answering fun _ _ _ => id)

/-- The walk counts an operand before it is visited. -/
theorem operand_paired {node : Node} {type : ValueType} (h : PairedVisit visit kind node)
    (hsupplies : node.Supplies kind) :
    Paired (Abreast ahead) (Rule.operand visit kind type node)
      (Slotted.operand type (node.slottedPart kind)) fun _ _ => Ahead (ahead + 1) (· = type) := by
  have hcount : Paired (Abreast ahead) (pure ())
      (count fun metrics => { metrics with operators := metrics.operators + 1 }) fun _ _ =>
        Abreast (ahead + 1) := by
    rintro s ⟨checker, slot⟩ ⟨rfl, -⟩
    exact .answer ⟨rfl, trivial⟩
  refine hcount.after_step ((visitTyped_paired h hsupplies).bindSame fun found => ?_)
  by_cases hfound : found = type
  · rw [if_pos hfound, if_pos hfound]
    exact paired_pure fun _ _ hs => hs.imp fun _ hslot => hslot.trans hfound
  · rw [if_neg hfound, if_neg hfound]
    exact paired_throw _

/-- By induction on the operands. The walk counts an operator for each of them, the check counts
none yet, and all of them have left one type. -/
theorem forM_operand_paired {operands : List Node} {type : ValueType}
    (h : ∀ operand ∈ operands, PairedVisit visit kind operand)
    (hsupplies : ∀ operand ∈ operands, operand.Supplies kind) (ahead : Nat) :
    Paired (Abreast ahead) (operands.forM (Rule.operand visit kind type))
      ((operands.map (Node.slottedPart kind)).forM (Slotted.operand type)) fun _ _ =>
        Ahead (ahead + operands.length) fun slot => operands ≠ [] → slot = type := by
  induction operands generalizing ahead with
  | nil => exact paired_pure fun _ _ hs => hs.imp fun _ _ hsome => absurd rfl hsome
  | cons operand others ih =>
    obtain ⟨hfirst, hothers⟩ := List.forall_mem_cons.mp h
    obtain ⟨hfirstSupplies, hothersSupply⟩ := List.forall_mem_cons.mp hsupplies
    refine (operand_paired hfirst hfirstSupplies).bind fun _ _ => ?_
    cases others with
    | nil => exact paired_pure fun _ _ hs => hs.imp fun _ hslot _ => hslot
    | cons other others =>
      refine (ih hothers hothersSupply (ahead + 1)).imp (fun _ _ => Ahead.abreast)
        fun _ _ s t hs => ?_
      rw [List.length_cons, Nat.add_comm _ 1, ← Nat.add_assoc]
      exact hs.imp fun _ hslot _ => hslot (by simp)

/-- The check counts one operator less than there are operands; the walk has counted them all and
takes one back. -/
theorem paired_count_back {operands : Nat} (hsome : 0 < operands) :
    Paired (Ahead (ahead + operands) holds)
      (count fun metrics => { metrics with operators := metrics.operators + (operands - 1) })
      (count fun metrics => { metrics with operators := metrics.operators - 1 })
      fun _ _ => Ahead ahead holds := by
  rintro s ⟨checker, slot⟩ ⟨rfl, hslot⟩
  refine .answer ⟨?_, hslot⟩
  have hcount : s.metrics.operators + (ahead + operands) - 1
      = s.metrics.operators + (operands - 1) + ahead := by
    omega
  show Checker.mk _ { s.metrics with operators := s.metrics.operators + (ahead + operands) - 1 } = _
  rw [hcount]
  rfl

/-- The walk takes back one of the operators it has counted, and the two counts are as far apart as
before. -/
theorem chain_paired {operands : List Node} {type : ValueType} (hsome : operands ≠ [])
    (h : ∀ operand ∈ operands, PairedVisit visit kind operand)
    (hsupplies : ∀ operand ∈ operands, operand.Supplies kind) :
    Paired (Abreast ahead) (Rule.chain visit ⟨kind, operands, span⟩ type)
      (Slotted.chain (operands.map (Node.slottedPart kind)) type) fun produced _ =>
        Ahead ahead (produced = some ·) := by
  match operands, hsome with
  | [operand], _ =>
    have hlone : Rule.visitEach visit kind [operand] = visit kind operand := by
      simp [Rule.visitEach]
    show Paired _ (Rule.visitEach visit kind [operand]) _ _
    rw [hlone]
    exact (h operand List.mem_cons_self ahead).imp (fun _ _ => id) fun _ _ _ _ hs =>
      hs.imp fun _ hslot => hslot (hsupplies operand List.mem_cons_self)
  | first :: second :: others, _ =>
    refine (forM_operand_paired h hsupplies ahead).bind fun _ _ => ?_
    refine (paired_count_back (by simp)).answering fun _ _ _ hs => hs.imp fun _ hslot => ?_
    rw [hslot (by simp)]

/-- The operand is the only part, so its type is the one in the slot. -/
theorem stacked_paired {operand : Node} {operators : List String} {refused : ValueType}
    (h : PairedVisit visit kind operand) (hsupplies : operand.Supplies kind) :
    Paired (Abreast ahead) (Rule.stacked visit ⟨kind, [operand], span⟩ operators refused)
      (Slotted.stacked ⟨kind, [operand], span⟩ ([operand].map (Node.slottedPart kind)) operators
        refused) fun produced _ => Ahead ahead (produced = some ·) := by
  refine (visitEach_singleton_paired h hsupplies).bind fun produced _ => ?_
  have hcounted : Paired (Ahead ahead (produced = some ·))
      (do count fun metrics => { metrics with operators := metrics.operators + operators.length }
          return produced)
      (count fun metrics => { metrics with operators := metrics.operators + operators.length })
      fun produced _ => Ahead ahead (produced = some ·) :=
    (paired_count { operators := operators.length } fun _ => rfl).answering fun _ _ _ => id
  match operators with
  | [] => exact hcounted
  | operator :: others =>
    refine (paired_published produced _).bindSame fun found => ?_
    refine Paired.imp ?_ (fun _ _ hs => hs.imp fun _ hslot => hslot.1) fun _ _ _ _ => id
    exact paired_ite (paired_throw_bind _ _ _) hcounted

theorem literal_paired {type : ValueType} :
    Paired (Abreast ahead) (Rule.literal visit ⟨kind, [], span⟩ type) (Slotted.literal [] type)
      fun produced _ => Ahead ahead (produced = some ·) :=
  fun _ _ hs => .answer ⟨hs.checker, rfl⟩

/-- Only as a value an identifier has its type read, and only then it writes it. -/
theorem identifier_paired {node : Node} {name : String} :
    Paired (Abreast ahead) (Rule.identifier parent node name) (Slotted.identifier parent node name)
      fun produced _ => Ahead ahead fun slot => parent = .value → produced = some slot := by
  unfold Rule.identifier Slotted.identifier
  cases hdeclaration : parent.isDeclaration with
  | true =>
    refine paired_pure fun _ _ hs => hs.imp fun _ _ hvalue => ?_
    rw [hvalue] at hdeclaration
    cases hdeclaration
  | false =>
    refine (paired_lookupType name node.span).bindSame fun type => ?_
    by_cases hvalue : parent = .value
    · rw [if_pos hvalue, if_pos hvalue]
      exact fun _ _ hs => .answer ⟨hs.checker, fun _ => rfl⟩
    · rw [if_neg hvalue, if_neg hvalue]
      exact paired_pure fun _ _ hs => hs.imp fun _ _ hparent => absurd hparent hvalue

/-! ## Visits to constructs -/

/-- A part that produces nothing supplies nothing. -/
theorem not_supplies {node : Node} (h : node.category.produces parent = false) :
    ¬ node.Supplies parent :=
  fun hsupplies => absurd (h.symm.trans hsupplies) (by decide)

/-- A construct that produces no type may leave anything in the slot. -/
theorem Paired.quiet {node : Node} {check : Check Unit} {walk : SlotCheck Unit}
    (hproduces : node.category.produces parent = false)
    (h : Paired (Abreast ahead) check walk fun _ _ => Abreast ahead) :
    Paired (Abreast ahead) (do check; return none) walk fun produced _ =>
      Ahead ahead fun slot => node.Supplies parent → produced = some slot :=
  h.answering fun _ _ _ hs => hs.imp fun _ _ hsupplies => absurd hsupplies (not_supplies hproduces)

/-- A construct that produces a type leaves it in the slot. -/
theorem Paired.publishing {node : Node} {check : Check (Option ValueType)} {walk : SlotCheck Unit}
    (h : Paired (Abreast ahead) check walk fun produced _ => Ahead ahead (produced = some ·)) :
    Paired (Abreast ahead) check walk fun produced _ =>
      Ahead ahead fun slot => node.Supplies parent → produced = some slot :=
  h.imp (fun _ _ => id) fun _ _ _ _ hs => hs.imp fun _ hslot _ => hslot

/-- A rule and its form for the slot end alike on a supplied node, if the visits to its parts do. -/
theorem apply_paired (hsupplied : Node.Supplied ⟨kind, children, span⟩)
    (h : ∀ child ∈ children, PairedVisit visit kind child) :
    PairedVisit (Rule.apply visit) parent ⟨kind, children, span⟩ := by
  intro ahead
  rw [Node.visitSlotted_eq]
  cases kind with
  | program | declaration | block | statement =>
    exact (visitEach_paired h).imp (fun _ _ => id) fun _ _ _ _ hs =>
      hs.imp fun _ _ hsupplies => absurd hsupplies (not_supplies rfl)
  | expression | value =>
    obtain ⟨content, rfl, hcontent⟩ := hsupplied
    exact Paired.publishing (visitEach_singleton_paired (h content List.mem_cons_self) hcontent)
  | scalarDeclaration keyword =>
    exact (declaration_paired h _).bind fun _ _ _ _ hs => .answer ⟨hs.checker, fun _ => rfl⟩
  | listDeclaration keyword => exact Paired.quiet rfl (declaration_paired h _)
  | assignment =>
    obtain ⟨target, content, rfl, hcontent⟩ := hsupplied
    exact Paired.quiet rfl (assignment_paired h hcontent)
  | foreachLoop =>
    obtain ⟨entry, others, rfl, hentry⟩ := hsupplied
    exact (paired_count { forLoops := 1 } fun _ => rfl).bind fun _ _ =>
      Paired.quiet rfl (foreachLoop_paired h rfl hentry)
  | forLoop =>
    obtain ⟨first, test, others, rfl, htest⟩ := hsupplied
    exact (paired_count { forLoops := 1 } fun _ => rfl).bind fun _ _ =>
      Paired.quiet rfl (conditional_paired h rfl htest)
  | conditional =>
    obtain ⟨test, others, rfl, htest⟩ := hsupplied
    exact (paired_count { conditionals := 1 } fun _ => rfl).bind fun _ _ =>
      Paired.quiet rfl (conditional_paired h rfl htest)
  | whileLoop =>
    obtain ⟨test, others, rfl, htest⟩ := hsupplied
    exact (paired_count { whileLoops := 1 } fun _ => rfl).bind fun _ _ =>
      Paired.quiet rfl (conditional_paired h rfl htest)
  | comparison operator =>
    refine Paired.publishing ?_
    rcases hsupplied with ⟨left, rfl, hleft⟩ | ⟨left, right, rfl, hoperator, hleft, hright⟩
    · exact (comparison_paired_alone (h left (by simp)) hleft).answering fun _ _ _ hs =>
        hs.imp fun _ hslot => congrArg some hslot.symm
    · obtain ⟨operator, rfl⟩ := Option.isSome_iff_exists.mp hoperator
      exact (comparison_paired (h left (by simp)) hleft (h right (by simp)) hright).answering
        fun _ _ _ hs => hs.imp fun _ hslot => congrArg some hslot.symm
  | sum operators | product operators | logical operators =>
    exact Paired.publishing (chain_paired hsupplied.1 h hsupplied.2)
  | negation operators | signed operators =>
    obtain ⟨operand, rfl, hoperand⟩ := hsupplied
    exact Paired.publishing (stacked_paired (h operand List.mem_cons_self) hoperand)
  | boolean truth | integer digits =>
    obtain rfl : children = [] := hsupplied
    exact literal_paired.publishing
  | identifier name =>
    exact identifier_paired.imp (fun _ _ => id) fun _ _ _ _ hs =>
      hs.imp fun _ hslot hsupplies => hslot (of_decide_eq_true hsupplies)

end Rules

/-- Visits to trees of supplied nodes that are not too deep end alike. -/
theorem visitWithin_paired {tree : Node} (hsupplied : ∀ node ∈ tree.nodes, node.Supplied)
    {levels : Nat} (hheight : tree.height ≤ levels) (parent : NodeKind) :
    PairedVisit (visitWithin levels) parent tree := by
  induction tree using Node.induction generalizing levels parent with
  | step kind children span ih =>
    obtain ⟨fewer, rfl⟩ := Node.exists_levels hheight
    refine apply_paired (hsupplied _ (Node.self_mem_nodes _)) fun child hchild => ?_
    exact ih child hchild
      (fun node hnode => hsupplied node (Node.mem_nodes_iff.mpr (.inr ⟨child, hchild, hnode⟩)))
      (Node.height_le_of_mem hheight child hchild) kind

/-! ## Checks of programs -/

section Programs

variable {tokens : List Token} {tree : Node}

/-- At the start nothing has been counted, and in the end the counts are the same. -/
theorem checkProgram_paired (h : parse tokens = .ok tree) :
    Paired (Abreast 0) (checkProgram tree) (Slotted.program tree) fun metrics metrics' s t =>
      metrics' = metrics ∧ t.symbols = s.symbols := by
  have hlow := height_le_depthLimit h
  have hsupplied := supplied_of_parse h
  obtain ⟨content, span, rfl, -⟩ := (parse_ok h).1.program
  have hcontent : PairedVisit (visitWithin depthLimit) .program content :=
    visitWithin_paired
      (fun node hnode => hsupplied node
        (Node.mem_nodes_iff.mpr (.inr ⟨content, List.mem_cons_self, hnode⟩)))
      (Node.height_le_of_mem (Nat.le_succ_of_le hlow) content List.mem_cons_self) .program
  unfold checkProgram checkProgramBy Slotted.program
  rw [if_pos rfl, if_pos rfl]
  refine (visitEach_paired (List.forall_mem_singleton.mpr hcontent)).bind fun _ _ => ?_
  -- in the end the walk has counted as much as the check
  intro s t hs
  have hchecker : t.toChecker = s := hs.checker.trans Checker.counting_zero
  exact .answer ⟨congrArg Checker.metrics hchecker, hs.symbols⟩

/-- **Slots are not needed**. A check of a program that parsing gives ends like the walk with a
slot, whatever is declared and counted before and whatever is in the slot: both accept the program
with the same counts, or both find the same problem, and they leave the same table. -/
theorem check_eq_slotted (h : parse tokens = .ok tree) (s : Checker) (slot : ValueType) :
    (s.check tree).1 = (Slotted.check ⟨s, slot⟩ tree).1 ∧
      (s.check tree).2.symbols = (Slotted.check ⟨s, slot⟩ tree).2.symbols := by
  have hstart : Abreast 0 s ⟨s, slot⟩ := ⟨Checker.counting_zero.symm, trivial⟩
  have hends := checkProgram_paired h s ⟨s, slot⟩ hstart
  rw [Checker.check_eq, Slotted.check]
  generalize (checkProgram tree).run.run s = outcome,
    (Slotted.program tree).run.run ⟨s, slot⟩ = outcome' at hends ⊢
  cases hends with
  | answer hanswer => exact ⟨congrArg Except.ok hanswer.1.symm, hanswer.2.symm⟩
  | failure problem hsymbols => exact ⟨rfl, hsymbols.symm⟩

/-- A sum and the parentheses in it, with the type of a list left in the slot by something else. -/
theorem check_eq_slotted_sum :
    let tokens : List Token := [⟨.numKeyword, "num", {}⟩, ⟨.identifier, "x", {}⟩,
      ⟨.semicolon, ";", {}⟩, ⟨.identifier, "x", {}⟩, ⟨.assign, "=", {}⟩, ⟨.integer, "1", {}⟩,
      ⟨.plus, "+", {}⟩, ⟨.leftParen, "(", {}⟩, ⟨.integer, "2", {}⟩, ⟨.minus, "-", {}⟩,
      ⟨.integer, "3", {}⟩, ⟨.rightParen, ")", {}⟩, ⟨.semicolon, ";", {}⟩]
    ∃ tree, parse tokens = .ok tree ∧
      (Slotted.check ⟨{}, .listNum⟩ tree).1 = .ok { declarations := 1, operators := 2 } ∧
      (Slotted.check ⟨{}, .listNum⟩ tree).2.symbols.entries = [⟨"x", .num, {}⟩] := by
  intro tokens
  have hruns : ((parse tokens).map fun tree => Checker.check {} tree)
      = .ok (.ok { declarations := 1, operators := 2 },
          ⟨⟨[⟨"x", .num, {}⟩]⟩, { declarations := 1, operators := 2 }⟩) := by
    decide +kernel
  cases hparse : parse tokens with
  | error diagnostic =>
    rw [hparse] at hruns
    cases hruns
  | ok tree =>
    rw [hparse] at hruns
    have hcheck : Checker.check {} tree = _ := Except.ok.inj hruns
    obtain ⟨hanswer, hsymbols⟩ := check_eq_slotted hparse {} .listNum
    rw [hcheck] at hanswer hsymbols
    exact ⟨tree, rfl, hanswer.symm, congrArg SymbolTable.entries hsymbols.symm⟩

end Programs

end Census
