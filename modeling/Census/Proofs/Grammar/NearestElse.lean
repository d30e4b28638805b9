import Census.Proofs.Grammar.Nesting
import Census.Proofs.Grammar.Print
import Census.Proofs.Grammar.Shapes

/-!
# Every `else` can stand at its nearest conditional

The grammar is ambiguous: after two conditionals an `else` may belong to either. It is ambiguous
in nothing that matters to the tokens, as a branch that ends open can take the `else` that the
conditional around it has, and the tokens stay as they are.

- `Settles`: tokens that stand for a right-hand side with every `else` at its nearest conditional.
- `Settles.attach`: a statement that ends open takes an `else`.
- `Derives.exists_nearestElse`: the tokens of a derivation have one with every `else` in place.
-/

namespace Census

/-- The tokens stand for the items, with every `else` at the nearest conditional that can take
it. -/
def Settles (items : List Item) (tokens : List Token) : Prop :=
  ∃ trees, Fills items trees tokens ∧ ∀ tree ∈ trees, tree.NearestElse

/-! ## The statement at the end of another one -/

/-- Compound constructs end in a statement. -/
theorem Production.exists_concat {kind : NodeKind} {items : List Item} (h : Production kind items)
    (hcategory : kind.category ∈ [.conditional, .whileLoop, .forLoop, .foreachLoop]) :
    ∃ keyword front, items = .mark keyword :: (front ++ [.part .statement]) := by
  cases h <;> simp [NodeKind.category] at hcategory
  · exact ⟨_, [_, _, _], rfl⟩
  · exact ⟨_, [_, _, _, _, _], rfl⟩
  · exact ⟨_, [_, _, _], rfl⟩
  · exact ⟨_, [_, _, _, _, _, _, _], rfl⟩
  · exact ⟨_, [_, _, _, _, _], rfl⟩

theorem fills_append_iff {items items' : List Item} {trees : List Node} {tokens : List Token} :
    Fills (items ++ items') trees tokens ↔
      ∃ trees₁ trees₂ front back, trees = trees₁ ++ trees₂ ∧ tokens = front ++ back ∧
        Fills items trees₁ front ∧ Fills items' trees₂ back := by
  constructor
  · intro h
    induction items generalizing trees tokens with
    | nil => exact ⟨[], trees, [], tokens, rfl, rfl, .nil, h⟩
    | cons item items ih =>
      cases item with
      | mark kind =>
        obtain ⟨token, rest, rfl, hkind, hrest⟩ := fills_mark_iff.mp h
        obtain ⟨trees₁, trees₂, front, back, rfl, rfl, hfront, hback⟩ := ih hrest
        exact ⟨trees₁, trees₂, token :: front, back, rfl, rfl, .mark hkind hfront, hback⟩
      | word kind text =>
        obtain ⟨token, rest, rfl, hkind, htext, hrest⟩ := fills_word_iff.mp h
        obtain ⟨trees₁, trees₂, front, back, rfl, rfl, hfront, hback⟩ := ih hrest
        exact ⟨trees₁, trees₂, token :: front, back, rfl, rfl, .word hkind htext hfront, hback⟩
      | part category =>
        obtain ⟨tree, others, inside, rest, rfl, rfl, htree, hrest⟩ := fills_part_iff.mp h
        obtain ⟨trees₁, trees₂, front, back, rfl, rfl, hfront, hback⟩ := ih hrest
        exact ⟨tree :: trees₁, trees₂, inside ++ front, back, rfl, by simp, .tree htree hfront,
          hback⟩
  · rintro ⟨trees₁, trees₂, front, back, rfl, rfl, hfront, hback⟩
    exact hfront.append hback

namespace Derives

variable {category : Category} {tree : Node} {tokens : List Token}

/-- Where the last statement of a compound construct stands. -/
theorem exists_last (h : Derives category tree tokens)
    (hcategory : category ∈ [.conditional, .whileLoop, .forLoop, .foreachLoop]) :
    ∃ kind items trees last span front back, tree = ⟨kind, trees ++ [last], span⟩ ∧
      kind.category = category ∧ Production kind (items ++ [.part .statement]) ∧
      tokens = front ++ back ∧ front ≠ [] ∧ Fills items trees front ∧
      Derives .statement last back := by
  obtain ⟨kind, children, span⟩ := tree
  obtain ⟨hkind, items, production, hfills⟩ := h
  obtain rfl : kind.category = category := hkind
  obtain ⟨keyword, items, rfl⟩ := production.exists_concat hcategory
  rw [← List.cons_append] at hfills production
  obtain ⟨trees, _, front, back, hchildren, rfl, hfront, hback⟩ := fills_append_iff.mp hfills
  obtain ⟨last, rfl, hlast⟩ := fills_lastTree_iff.mp hback
  refine ⟨kind, _, trees, last, span, front, back, by simpa using hchildren, rfl, production, rfl,
    ?_, hfront, hlast⟩
  obtain ⟨token, rest, rfl, -⟩ := fills_mark_iff.mp hfront
  simp

/-- A statement that ends open is a compound one. -/
theorem compound_of_endsOpen (h : Derives .statement tree tokens) (hopen : tree.endsOpen = true) :
    ∃ content span, tree = ⟨.statement, [content], span⟩ ∧ content.endsOpen = true ∧
      ∃ category ∈ [Category.conditional, .whileLoop, .forLoop, .foreachLoop],
        Derives category content tokens := by
  obtain ⟨content, span, rfl, hcontent⟩ := h.statement
  refine ⟨content, span, rfl, hopen, ?_⟩
  have hends := @Node.category_of_endsOpen content hopen
  rcases hcontent with ⟨category, hmem, _, _, -, -, hcontent⟩ | hcontent |
    ⟨_, _, _, -, -, -, hcontent⟩
  · rw [hcontent.1] at hends
    simp only [List.mem_cons, List.not_mem_nil, or_false] at hmem
    rcases hmem with rfl | rfl <;> simp at hends
  · exact hcontent
  · rw [hcontent.1] at hends
    simp at hends

end Derives

theorem Node.lastEndsOpen_concat (trees : List Node) (last : Node) :
    lastEndsOpen (trees ++ [last]) = last.endsOpen := by
  induction trees with
  | nil => rfl
  | cons tree others ih => cases others <;> simp_all [lastEndsOpen]

/-- A compound construct ends open because the statement at its end does, or because it is a
conditional with one branch. -/
theorem Node.endsOpen_concat {kind : NodeKind} {trees : List Node} {last : Node} {span : Span}
    (hcategory : kind.category ∈ [.conditional, .whileLoop, .forLoop, .foreachLoop])
    (hopen : endsOpen ⟨kind, trees ++ [last], span⟩ = true) :
    last.endsOpen = true ∨
      kind = .conditional ∧ (∃ test, trees = [test]) ∧ last.endsOpen = false := by
  cases kind <;> simp [NodeKind.category] at hcategory
  case conditional =>
    by_cases hlast : last.endsOpen = true
    · exact .inl hlast
    · simp only [endsOpen, lastEndsOpen_concat, hlast, Bool.or_false, beq_iff_eq,
        List.length_append, List.length_singleton] at hopen
      exact .inr ⟨rfl, List.length_eq_one_iff.mp (Nat.succ.inj hopen), Bool.eq_false_iff.mpr hlast⟩
  all_goals exact .inl (by rwa [endsOpen, lastEndsOpen_concat] at hopen)

/-! ## Tokens with every `else` in place -/

namespace Settles

variable {items : List Item} {tokens front back : List Token} {token : Token} {kind : TokenKind}
  {category : Category}

theorem nil : Settles [] [] := ⟨[], .nil, by simp⟩

theorem mark (hkind : token.kind = kind) (h : Settles items tokens) :
    Settles (.mark kind :: items) (token :: tokens) := by
  obtain ⟨trees, hfills, hnearest⟩ := h
  exact ⟨trees, .mark hkind hfills, hnearest⟩

theorem word {text : String} (hkind : token.kind = kind) (htext : token.text = text)
    (h : Settles items tokens) : Settles (.word kind text :: items) (token :: tokens) := by
  obtain ⟨trees, hfills, hnearest⟩ := h
  exact ⟨trees, .word hkind htext hfills, hnearest⟩

theorem single_iff :
    Settles [.part category] tokens ↔ ∃ tree, Derives category tree tokens ∧ tree.NearestElse := by
  constructor
  · rintro ⟨_, hfills, hnearest⟩
    obtain ⟨tree, rfl, hderives⟩ := fills_lastTree_iff.mp hfills
    exact ⟨tree, hderives, List.forall_mem_singleton.mp hnearest⟩
  · rintro ⟨tree, hderives, hnearest⟩
    exact ⟨[tree], .lastTree hderives, List.forall_mem_singleton.mpr hnearest⟩

theorem part (h : Settles [.part category] front) (hrest : Settles items back) :
    Settles (.part category :: items) (front ++ back) := by
  obtain ⟨tree, hderives, htree⟩ := single_iff.mp h
  obtain ⟨trees, hfills, htrees⟩ := hrest
  exact ⟨tree :: trees, .tree hderives hfills, List.forall_mem_cons.mpr ⟨htree, htrees⟩⟩

/-- A construct is in place if its parts are, and if it keeps no `else` from one of them. -/
theorem construct {kind : NodeKind} {trees : List Node} (production : Production kind items)
    (hfills : Fills items trees tokens) (htrees : ∀ tree ∈ trees, tree.NearestElse)
    (hnearest : ∀ test branch other, kind = .conditional → trees = [test, branch, other] →
      branch.endsOpen = false) : Settles [.part kind.category] tokens :=
  single_iff.mpr ⟨⟨kind, trees, {}⟩, ⟨rfl, items, production, hfills⟩,
    Node.nearestElse_mk_iff.mpr ⟨hnearest, htrees⟩⟩

/-- Constructs that are no conditionals keep no `else` from anything. -/
theorem of_production {kind : NodeKind} (production : Production kind items)
    (hkind : kind ≠ .conditional) (h : Settles items tokens) :
    Settles [.part kind.category] tokens := by
  obtain ⟨trees, hfills, htrees⟩ := h
  exact construct production hfills htrees fun _ _ _ heq => absurd heq hkind

theorem compound (hcategory : category ∈ [.conditional, .whileLoop, .forLoop, .foreachLoop])
    (h : Settles [.part category] tokens) : Settles [.part .statement] tokens :=
  of_production (.compound hcategory) (by simp) h

/-- A conditional without an `else`. -/
theorem conditional
    (h : Settles [.mark .ifKeyword, .mark .leftParen, .part .expression, .mark .rightParen,
      .part .statement] tokens) : Settles [.part .conditional] tokens := by
  obtain ⟨trees, hfills, htrees⟩ := h
  refine construct .conditional hfills htrees ?_
  -- there are only two parts
  rintro test branch other - rfl
  simpa [Item.parts] using hfills.parts_eq

/-- A conditional with an `else`, whose branch cannot take it. -/
theorem alternative {start left right other : Token} {middle : List Token} {branch : Node}
    (hstart : start.kind = .ifKeyword) (hleft : left.kind = .leftParen)
    (htest : Settles [.part .expression] front) (hright : right.kind = .rightParen)
    (hbranch : Derives .statement branch middle) (hnearest : branch.NearestElse)
    (hclosed : branch.endsOpen = false) (hother : other.kind = .elseKeyword)
    (hotherwise : Settles [.part .statement] back) :
    Settles [.part .conditional]
      (start :: left :: (front ++ right :: (middle ++ other :: back))) := by
  obtain ⟨test, htest, htest'⟩ := single_iff.mp htest
  obtain ⟨otherwise, hotherwise, hotherwise'⟩ := single_iff.mp hotherwise
  refine construct .alternative (.mark hstart (.mark hleft (.tree htest
    (.mark hright (.tree hbranch (.mark hother (.lastTree hotherwise))))))) ?_ ?_
  · simp [htest', hnearest, hotherwise']
  · rintro _ _ _ - ⟨⟩
    exact hclosed

/-- A compound construct is in place with another statement at its end. -/
theorem compound_concat {kind : NodeKind} {trees : List Node} {last : Node} {span : Span}
    (hcategory : kind.category ∈ [.conditional, .whileLoop, .forLoop, .foreachLoop])
    (production : Production kind (items ++ [.part .statement])) (hfills : Fills items trees front)
    (hnearest : Node.NearestElse ⟨kind, trees ++ [last], span⟩)
    (h : Settles [.part .statement] back) : Settles [.part .statement] (front ++ back) := by
  obtain ⟨last', hlast, hlast'⟩ := single_iff.mp h
  obtain ⟨hbranch, hparts⟩ := Node.nearestElse_mk_iff.mp hnearest
  refine compound hcategory (construct production (hfills.append (.lastTree hlast)) ?_ ?_)
  · rw [List.forall_mem_append, List.forall_mem_singleton] at hparts ⊢
    exact ⟨hparts.1, hlast'⟩
  · -- the branch stands before the last part
    intro test branch other hkind htrees
    obtain ⟨rfl, -⟩ := List.append_inj' (htrees.trans (by rfl : _ = [test, branch] ++ [other])) rfl
    exact hbranch test branch last hkind rfl

/-- A statement that ends open takes an `else`: the conditional that it ends in does. -/
theorem attach {tree : Node} (h : Derives .statement tree tokens) (hnearest : tree.NearestElse)
    (hopen : tree.endsOpen = true) {other : Token} (hother : other.kind = .elseKeyword)
    (hotherwise : Settles [.part .statement] back) :
    Settles [.part .statement] (tokens ++ other :: back) := by
  -- on the length of the statement, which ends in a shorter one
  induction hlength : tokens.length using Nat.strongRecOn generalizing tree tokens with
  | _ length ih =>
  obtain ⟨content, span, rfl, hopen, category, hcompound, hcontent⟩ := h.compound_of_endsOpen hopen
  have hnearest' := hnearest.parts content List.mem_cons_self
  obtain ⟨kind, items, trees, last, span', front, middle, rfl, rfl, production, rfl, hsome, hfills,
    hlast⟩ := hcontent.exists_last hcompound
  have hparts := hnearest'.parts
  rcases Node.endsOpen_concat hcompound hopen with hopen | ⟨rfl, ⟨test, rfl⟩, hclosed⟩
  · have hshorter : middle.length < length := by
      have := List.length_pos_iff.mpr hsome
      rw [List.length_append] at hlength
      omega
    rw [List.append_assoc]
    exact compound_concat hcompound production hfills hnearest'
      (ih _ hshorter hlast (hparts last (by simp)) hopen rfl)
  · obtain ⟨start, left, test', front', right, branch, middle', span'', back', hstart, hleft,
      hright, htokens, htest, hbranch, ⟨⟨⟩, rfl⟩ | ⟨_, _, _, -, -, -, ⟨⟩⟩⟩ := hcontent.conditional
    have hgoal := alternative hstart hleft
      (single_iff.mpr ⟨test, htest, hparts test (by simp)⟩) hright hbranch
      (hparts last (by simp)) hclosed hother hotherwise
    rw [htokens]
    exact compound hcompound (by simpa [NodeKind.category] using hgoal)

/-- A conditional gives its `else` to the conditional that its branch ends in. -/
theorem regroup {test branch otherwise : Node} {span : Span}
    (h : Derives .conditional ⟨.conditional, [test, branch, otherwise], span⟩ tokens)
    (htest : test.NearestElse) (hbranch : branch.NearestElse) (hopen : branch.endsOpen = true)
    (hotherwise : otherwise.NearestElse) : Settles [.part .conditional] tokens := by
  obtain ⟨start, left, _, front, right, _, middle, _, _, hstart, hleft, hright, rfl, htest',
    hbranch', ⟨⟨⟩, -⟩ | ⟨back, other, _, hother, rfl, hotherwise', ⟨⟩⟩⟩ := h.conditional
  have hattached := attach hbranch' hbranch hopen hother
    (single_iff.mpr ⟨otherwise, hotherwise', hotherwise⟩)
  exact conditional (.mark hstart (.mark hleft
    (.part (single_iff.mpr ⟨test, htest', htest⟩) (.mark hright hattached))))

end Settles

/-- A row of constructs and marks can be rearranged, part by part. -/
theorem Fills.settles {items : List Item} {trees : List Node} {tokens : List Token}
    (h : Fills items trees tokens) : Settles items tokens := by
  induction h with
  | nil => exact .nil
  | mark hkind _ ih => exact ih.mark hkind
  | word hkind htext _ ih => exact ih.word hkind htext
  | @part category tree _ _ _ front back hcategory production below rest ihBelow ih =>
    refine .part ?_ ih
    subst hcategory
    obtain ⟨trees, hfills, htrees⟩ := ihBelow
    by_cases hopen : ∃ test branch otherwise, tree.kind = .conditional ∧
        trees = [test, branch, otherwise] ∧ branch.endsOpen = true
    · obtain ⟨test, branch, otherwise, hkind, rfl, hopen⟩ := hopen
      have hderives : Derives .conditional ⟨.conditional, [test, branch, otherwise], {}⟩ front :=
        ⟨rfl, _, hkind ▸ production, hfills⟩
      rw [hkind]
      exact .regroup hderives (htrees test (by simp)) (htrees branch (by simp)) hopen
        (htrees otherwise (by simp))
    · refine .construct production hfills htrees fun test branch otherwise hkind heq => ?_
      exact Bool.eq_false_iff.mpr fun hbranch =>
        hopen ⟨test, branch, otherwise, hkind, heq, hbranch⟩

/-- The tokens of a derivation have one with every `else` at its nearest conditional. -/
theorem Derives.exists_nearestElse {category : Category} {tree : Node} {tokens : List Token}
    (h : Derives category tree tokens) :
    ∃ tree', Derives category tree' tokens ∧ tree'.NearestElse :=
  Settles.single_iff.mp (Fills.lastTree h).settles

end Census
