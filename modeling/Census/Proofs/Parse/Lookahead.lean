import Census.Proofs.Grammar.Language
import Census.Proofs.Parse.Runs

/-!
# One token of lookahead

A parser that looks one token ahead decides about a token when it comes to it. Two things follow.
What it has read by then is the beginning of what it reads for, and it decides the same for all
tokens that begin alike. `Parser.PromptAt` says both, so that what is known of the steps of a
parser gives what is known of the parser.

The tokens that begin alike may be read by a parser with another limit on nesting, and what this
one answers on the way may differ in texts and spans. So a parser is compared with a family of
others, one for each answer that they may have met.

- `Cursor.Glimpses`: a cursor sees the same kinds of tokens as another one up to some place.
- `Parser.PromptAt`: the two properties at a cursor.
- `Parser.PromptAt.bind`: steps in a row. There is a lemma for each step that readers are made of.
- `Parser.Prompt`: the two properties of a reader, wherever it starts.
-/

namespace Census

/-- The kinds of `front` and of the token next to `between` are those next to `cursor`. -/
def Cursor.Glimpses (cursor : Cursor) (front : List Token) (between : Cursor) : Prop :=
  ∃ next ∈ between.rest.head?, (front ++ [next]).map Token.kind <+: cursor.rest.map Token.kind

namespace Cursor

variable {cursor other between after : Cursor} {front back : List Token}

/-- A cursor that moves twice is seen on the way. -/
theorem Glimpses.of_append (h : other.Glimpses (front ++ back) after)
    (hmoved : between.Advances back after) : other.Glimpses front between := by
  obtain ⟨next, hnext, hsame⟩ := h
  -- behind the first way comes the second one, or the token next to its end
  obtain ⟨first, others, hback⟩ : ∃ first others, back ++ [next] = first :: others :=
    List.exists_cons_of_ne_nil (by simp)
  obtain ⟨rest, hrest⟩ : ∃ rest, after.rest = next :: rest := by
    cases h : after.rest <;> simp_all
  have hhead : between.rest = first :: (others ++ rest) := by
    rw [hmoved.rest, hrest, ← List.cons_append, ← hback]
    simp
  refine ⟨first, by rw [hhead]; rfl, List.IsPrefix.trans ?_ hsame⟩
  rw [List.append_assoc, hback]
  exact ⟨others.map Token.kind, by simp⟩

/-- Behind the first way a cursor sees the second one. -/
theorem Glimpses.drop (h : other.Glimpses (front ++ back) after) {other' : Cursor}
    (hsame : other.rest.map Token.kind = front.map Token.kind ++ other'.rest.map Token.kind) :
    other'.Glimpses back after := by
  obtain ⟨next, hnext, hprefix⟩ := h
  refine ⟨next, hnext, ?_⟩
  rw [List.append_assoc, List.map_append, hsame, List.prefix_append_right_inj] at hprefix
  exact hprefix

/-- What a cursor sees first is of the kind of the token next to the other one. -/
theorem Glimpses.head (h : other.Glimpses front between) (hmoved : cursor.Advances front between) :
    ∃ token ∈ cursor.rest.head?, ∃ token' ∈ other.rest.head?, token'.kind = token.kind := by
  have hnone : other.Glimpses ([] ++ front) between := h
  obtain ⟨token, htoken, hprefix⟩ := hnone.of_append hmoved
  refine ⟨token, htoken, ?_⟩
  cases hrest : other.rest with
  | nil => simp [hrest] at hprefix
  | cons token' rest =>
    rw [hrest] at hprefix
    exact ⟨token', rfl, by simpa [eq_comm] using hprefix⟩

end Cursor

namespace Parser

variable {ι α β : Type}

/-- At the cursor the parser reads a row of the language, or it refuses behind the beginning of
one. What the others do follows from the kinds of the same tokens and of the next one: they read as
far, or they refuse. The refusal to nest any deeper comes from elsewhere and is left out. -/
structure PromptAt (cursor : Cursor) (parser : Parser α) (others : ι → Parser α)
    (language : Language TokenKind) : Prop where
  runs : ∀ ⦃answer between⦄, Runs parser cursor answer between →
    ∃ front, cursor.Advances front between ∧ front.map Token.kind ∈ language ∧
      ∀ index other, Cursor.Glimpses other front between →
        ∃ answer' between', Runs (others index) other answer' between' ∧
          other.rest.map Token.kind = front.map Token.kind ++ between'.rest.map Token.kind
  fails : ∀ ⦃error⦄, Fails parser cursor error → error.fault ≠ .nestingExceeded →
    ∃ front between, cursor.Advances front between ∧ error.span = between.span ∧
      (∃ row ∈ language, front.map Token.kind <+: row) ∧
      ∀ index other, Cursor.Glimpses other front between →
        ∃ error', Fails (others index) other error'

section Steps

variable {cursor : Cursor} {parser : Parser α} {others : ι → Parser α}
  {language language' : Language TokenKind}

theorem PromptAt.mono (h : PromptAt cursor parser others language) (hle : language ≤ language') :
    PromptAt cursor parser others language' := by
  refine ⟨fun answer between hrun => ?_, fun error hfail hfault => ?_⟩
  · obtain ⟨front, hmoved, hmem, hothers⟩ := h.runs hrun
    exact ⟨front, hmoved, hle hmem, hothers⟩
  · obtain ⟨front, between, hmoved, hspan, ⟨row, hrow, hprefix⟩, hothers⟩ := h.fails hfail hfault
    exact ⟨front, between, hmoved, hspan, ⟨row, hle hrow, hprefix⟩, hothers⟩

theorem promptAt_pure {answer : α} {answers : ι → α} (h : [] ∈ language) :
    PromptAt cursor (pure answer) (fun index => pure (answers index)) language := by
  refine ⟨fun answer' between hrun => ?_, fun error hfail => by cases hfail⟩
  obtain ⟨rfl, rfl⟩ := runs_pure.mp hrun
  exact ⟨[], .refl _, h, fun index other _ => ⟨_, other, runs_pure.mpr ⟨rfl, rfl⟩, rfl⟩⟩

/-- Two parsers in a row read two rows. Something must be able to follow the first one. -/
theorem PromptAt.bind {next : α → Parser β} {nexts : ι → α → Parser β}
    (h : PromptAt cursor parser others language) (hwritable : ∃ row, row ∈ language')
    (hnext : ∀ answer between, Runs parser cursor answer between →
      PromptAt between (next answer) (fun index : ι × α => nexts index.1 index.2) language') :
    PromptAt cursor (parser >>= next) (fun index => others index >>= nexts index)
      (language * language') := by
  refine ⟨fun answer after hrun => ?_, fun error hfail hfault => ?_⟩
  · obtain ⟨first, between, hfirst, hrest⟩ := runs_bind.mp hrun
    obtain ⟨front, hmoved, hmem, hothers⟩ := h.runs hfirst
    obtain ⟨back, hmoved', hmem', hothers'⟩ := (hnext first between hfirst).runs hrest
    refine ⟨front ++ back, hmoved.trans hmoved', ?_, fun index other hglimpse => ?_⟩
    · rw [List.map_append]
      exact Language.append_mem_mul hmem hmem'
    · obtain ⟨first', between', hfirst', hsame⟩ := hothers index other (hglimpse.of_append hmoved')
      obtain ⟨answer', after', hrest', hsame'⟩ :=
        hothers' (index, first') between' (hglimpse.drop hsame)
      exact ⟨answer', after', runs_bind.mpr ⟨first', between', hfirst', hrest'⟩,
        by rw [hsame, hsame', List.map_append, List.append_assoc]⟩
  · rcases fails_bind.mp hfail with hfirst | ⟨first, between, hfirst, hrest⟩
    · obtain ⟨front, between, hmoved, hspan, ⟨row, hrow, hprefix⟩, hothers⟩ :=
        h.fails hfirst hfault
      obtain ⟨row', hrow'⟩ := hwritable
      refine ⟨front, between, hmoved, hspan, ⟨row ++ row', Language.append_mem_mul hrow hrow',
        hprefix.trans (List.prefix_append row row')⟩, fun index other hglimpse => ?_⟩
      obtain ⟨error', hfail'⟩ := hothers index other hglimpse
      exact ⟨error', fails_bind.mpr (.inl hfail')⟩
    · obtain ⟨front, hmoved, hmem, hothers⟩ := h.runs hfirst
      obtain ⟨back, after, hmoved', hspan, ⟨row, hrow, hprefix⟩, hothers'⟩ :=
        (hnext first between hfirst).fails hrest hfault
      refine ⟨front ++ back, after, hmoved.trans hmoved', hspan,
        ⟨front.map Token.kind ++ row, Language.append_mem_mul hmem hrow, ?_⟩,
        fun index other hglimpse => ?_⟩
      · rw [List.map_append]
        exact List.prefix_append_right_inj _ |>.mpr hprefix
      · obtain ⟨first', between', hfirst', hsame⟩ :=
          hothers index other (hglimpse.of_append hmoved')
        obtain ⟨error', hfail'⟩ := hothers' (index, first') between' (hglimpse.drop hsame)
        exact ⟨error', fails_bind.mpr (.inr ⟨first', between', hfirst', hfail'⟩)⟩

/-- What is made of an answer does not matter. -/
theorem PromptAt.finish {make : α → β} {makes : ι → α → β}
    (h : PromptAt cursor parser others language) :
    PromptAt cursor (parser >>= fun answer => pure (make answer))
      (fun index => others index >>= fun answer => pure (makes index answer)) language := by
  rw [← mul_one language]
  exact h.bind ⟨[], Language.nil_mem_one⟩ fun _ _ _ => promptAt_pure Language.nil_mem_one

/-! ## Refusals -/

/-- A refusal comes before the token that shows it. -/
theorem promptAt_refuse {what : Expectation} (hwritable : ∃ row, row ∈ language) :
    PromptAt cursor (refuse what : Parser α) (fun _ : ι => refuse what) language := by
  refine ⟨fun answer between hrun => absurd hrun not_runs_refuse, ?_⟩
  rintro error ⟨⟩ -
  obtain ⟨row, hrow⟩ := hwritable
  exact ⟨[], cursor, .refl cursor, rfl, ⟨row, hrow, List.nil_prefix⟩, fun _ _ _ => ⟨_, rfl⟩⟩

/-- The refusal to nest any deeper is left out. -/
theorem promptAt_refuseNesting : PromptAt cursor refuseNesting others language := by
  refine ⟨fun answer between hrun => absurd hrun not_runs_refuseNesting,
    fun error hfail hfault => ?_⟩
  rw [fails_refuseNesting.mp hfail] at hfault
  exact absurd rfl hfault

/-! ## Steps that tell what comes next

Behind its first step a parser goes on at some cursor, and so does every other one. -/

/-- A parser is prompt if it goes on as a prompt one behind the tokens that it reads first. -/
theorem PromptAt.go {parser' : Parser α} {κ : Type} {others' : κ → Parser α} {between : Cursor}
    {front : List Token} (h : PromptAt between parser' others' language')
    (hmoved : cursor.Advances front between) (hgo : parser cursor = parser' between)
    (hlanguage : ∀ row ∈ language', front.map Token.kind ++ row ∈ language)
    (hothers : ∀ index {other back after}, between.Advances back after →
      Cursor.Glimpses other (front ++ back) after →
        ∃ index' other', other.rest.map Token.kind = front.map Token.kind ++
          other'.rest.map Token.kind ∧ others index other = others' index' other') :
    PromptAt cursor parser others language := by
  refine ⟨fun answer after hrun => ?_, fun error hfail hfault => ?_⟩
  · obtain ⟨back, hmoved', hmem, hothers'⟩ := h.runs (hgo.symm.trans hrun)
    refine ⟨front ++ back, hmoved.trans hmoved', ?_, fun index other hglimpse => ?_⟩
    · rw [List.map_append]
      exact hlanguage _ hmem
    · obtain ⟨index', other', hsame, hgo'⟩ := hothers index hmoved' hglimpse
      obtain ⟨answer', after', hrun', hsame'⟩ := hothers' index' other' (hglimpse.drop hsame)
      exact ⟨answer', after', hgo'.trans hrun',
        by rw [hsame, hsame', List.map_append, List.append_assoc]⟩
  · obtain ⟨back, after, hmoved', hspan, ⟨row, hrow, hprefix⟩, hothers'⟩ :=
      h.fails (hgo.symm.trans hfail) hfault
    refine ⟨front ++ back, after, hmoved.trans hmoved', hspan, ⟨_, hlanguage row hrow, ?_⟩,
      fun index other hglimpse => ?_⟩
    · rw [List.map_append, List.prefix_append_right_inj]
      exact hprefix
    · obtain ⟨index', other', hsame, hgo'⟩ := hothers index hmoved' hglimpse
      obtain ⟨error', hfail'⟩ := hothers' index' other' (hglimpse.drop hsame)
      exact ⟨error', hgo'.trans hfail'⟩

/-- A step that only looks at the cursor leaves everything to the steps behind it. -/
theorem PromptAt.look {look : Parser α} {view : Cursor → α}
    (hlook : ∀ cursor, look cursor = .ok (view cursor, cursor)) {next : α → Parser β}
    {nexts : ι → α → Parser β}
    (hnext : PromptAt cursor (next (view cursor)) (fun index : ι × α => nexts index.1 index.2)
      language) :
    PromptAt cursor (look >>= next) (fun index => look >>= nexts index) language := by
  have hgo (next : α → Parser β) (cursor : Cursor) :
      (look >>= next) cursor = next (view cursor) cursor :=
    bind_of_runs (hlook cursor)
  exact hnext.go (.refl cursor) (hgo next cursor) (fun _ hrow => hrow) fun index other _ _ _ _ =>
    ⟨(index, view other), other, rfl, hgo _ other⟩

theorem PromptAt.nextSpan {next : Span → Parser β} {nexts : ι → Span → Parser β}
    (hnext : ∀ span, PromptAt cursor (next span) (fun index : ι × Span => nexts index.1 index.2)
      language) :
    PromptAt cursor (nextSpan >>= next) (fun index => nextSpan >>= nexts index) language :=
  .look (fun _ => rfl) (hnext _)

theorem PromptAt.previousSpan {next : Span → Parser β} {nexts : ι → Span → Parser β}
    (hnext : ∀ span, PromptAt cursor (next span) (fun index : ι × Span => nexts index.1 index.2)
      language) :
    PromptAt cursor (previousSpan >>= next) (fun index => previousSpan >>= nexts index) language :=
  .look (fun _ => rfl) (hnext _)

/-- A choice by the kind of the next token is the same one for all. -/
theorem PromptAt.nextKind? {next : Option TokenKind → Parser β}
    {nexts : ι → Option TokenKind → Parser β}
    (hnext : PromptAt cursor (next (cursor.rest.head?.map Token.kind))
      (fun index => nexts index (cursor.rest.head?.map Token.kind)) language) :
    PromptAt cursor (nextKind? >>= next) (fun index => nextKind? >>= nexts index) language := by
  refine hnext.go (.refl cursor) rfl (fun _ hrow => hrow) fun index other _ _ hmoved hglimpse =>
    ⟨index, other, rfl, ?_⟩
  obtain ⟨token, htoken, token', htoken', hkind⟩ := hglimpse.head hmoved
  have hsame : other.rest.head?.map Token.kind = cursor.rest.head?.map Token.kind := by
    rw [Option.mem_def.mp htoken, Option.mem_def.mp htoken', Option.map_some, Option.map_some,
      hkind]
  rw [← hsame]
  rfl

/-- A choice by the next token, which reads it or leaves it, is the same one for all. -/
theorem PromptAt.accept? {kinds : List TokenKind} {next : Option Token → Parser β}
    {nexts : ι → Option Token → Parser β}
    (hnone : (∀ token ∈ cursor.rest.head?, token.kind ∉ kinds) →
      PromptAt cursor (next none) (fun index => nexts index none) language)
    (hsome : ∀ token between, token.kind ∈ kinds → cursor.Advances [token] between →
      PromptAt between (next (some token))
        (fun index : ι × { token' : Token // token'.kind = token.kind } =>
          nexts index.1 (some index.2))
        { row | token.kind :: row ∈ language }) :
    PromptAt cursor (accept? kinds >>= next) (fun index => accept? kinds >>= nexts index)
      language := by
  by_cases hnext : ∃ token ∈ cursor.rest.head?, token.kind ∈ kinds
  · obtain ⟨token, htoken, hkind⟩ := hnext
    obtain ⟨between, hone⟩ := Cursor.exists_advances (List.eq_cons_of_mem_head? htoken)
    refine (hsome token between hkind hone).go hone
      (bind_of_runs (runs_accept?_some.mpr ⟨hkind, hone⟩)) (fun _ hrow => hrow)
      fun index other _ _ hmoved hglimpse => ?_
    -- another cursor can read a token of this kind too
    obtain ⟨_, hhead, token', htoken', hsame⟩ := hglimpse.head (hone.trans hmoved)
    obtain rfl := Option.some.inj (htoken.symm.trans hhead)
    obtain ⟨between', hone'⟩ := Cursor.exists_advances (List.eq_cons_of_mem_head? htoken')
    refine ⟨(index, ⟨token', hsame⟩), between', ?_,
      bind_of_runs (runs_accept?_some.mpr ⟨by rwa [hsame], hone'⟩)⟩
    rw [hone'.rest, List.map_append, List.map_singleton, List.map_singleton, hsame]
  · have hleft : ∀ token ∈ cursor.rest.head?, token.kind ∉ kinds :=
      fun token htoken hkind => hnext ⟨token, htoken, hkind⟩
    refine (hnone hleft).go (.refl cursor) (bind_of_runs (runs_accept?_none.mpr ⟨hleft, rfl⟩))
      (fun _ hrow => hrow) fun index other _ _ hmoved hglimpse =>
        ⟨index, other, rfl, bind_of_runs (runs_accept?_none.mpr ⟨?_, rfl⟩)⟩
    -- what another cursor sees first is of no such kind either
    obtain ⟨token, htoken, token', htoken', hsame⟩ := hglimpse.head hmoved
    intro token'' htoken''
    obtain rfl := Option.some.inj (htoken'.symm.trans htoken'')
    rw [hsame]
    exact hleft token htoken

/-- A run of tokens ends in front of the same token for all. -/
theorem promptAt_acceptRun {kinds : List TokenKind} :
    PromptAt cursor (acceptRun kinds) (fun _ : ι => acceptRun kinds)
      { row | ∀ kind ∈ row, kind ∈ kinds } := by
  refine ⟨fun run between hrun => ?_, fun error hfail => absurd hfail not_fails_acceptRun⟩
  obtain ⟨hmoved, hkinds, hstop⟩ := runs_acceptRun.mp hrun
  refine ⟨run, hmoved, fun kind hkind => ?_, fun _ other ⟨next, hnext, rest, hsame⟩ => ?_⟩
  · obtain ⟨token, htoken, rfl⟩ := List.mem_map.mp hkind
    exact hkinds token htoken
  · rw [List.map_append, List.append_assoc] at hsame
    -- the tokens in front of the other cursor are a run of the same kinds and a token behind it
    obtain ⟨run', rest', hother, hrun', hrest'⟩ := List.map_eq_append_iff.mp hsame.symm
    obtain ⟨next', rest', rfl, hnext', -⟩ := List.map_eq_cons_iff.mp hrest'
    refine ⟨run', ⟨run'.getLast?.or other.previous, next' :: rest'⟩,
      runs_acceptRun.mpr ⟨⟨hother, rfl⟩, fun token htoken => ?_, ?_⟩, ?_⟩
    · have hmem : token.kind ∈ run.map Token.kind := hrun' ▸ List.mem_map_of_mem htoken
      obtain ⟨token', htoken', hkind⟩ := List.mem_map.mp hmem
      exact hkind ▸ hkinds token' htoken'
    · rintro _ ⟨⟩
      rw [hnext']
      exact hstop next hnext
    · rw [hother, List.map_append, hrun']

theorem promptAt_expect {kind : TokenKind} :
    PromptAt cursor (expect kind) (fun _ : ι => expect kind) {[kind]} := by
  refine .accept? (fun _ => promptAt_refuse ⟨[kind], rfl⟩) fun token between hkind _ => ?_
  refine promptAt_pure ?_
  show [token.kind] ∈ ({[kind]} : Language TokenKind)
  rw [List.mem_singleton.mp hkind]
  exact Set.mem_singleton [kind]

end Steps

/-! ## Readers -/

/-- The reader is prompt about the constructs of a category, and so are the others. -/
def Prompt {κ : Type} (reader : Parser Node) (readers : κ → Parser Node) (category : Category) :
    Prop :=
  ∀ (ι : Type) (cursor : Cursor) (choice : ι → κ),
    PromptAt cursor reader (fun index => readers (choice index)) category.language

section Items

variable {cursor : Cursor} {items : List Item}

/-- Behind a token of the kind that has to come next stand the other items. -/
theorem PromptAt.mark {kind : TokenKind} {next : Token → Parser β} {nexts : ι → Token → Parser β}
    (hnext : ∀ token between, PromptAt between (next token)
      (fun index : ι × Token => nexts index.1 index.2) (Item.language items)) :
    PromptAt cursor (expect kind >>= next) (fun index => expect kind >>= nexts index)
      (Item.language (.mark kind :: items)) := by
  rw [Item.language_mark]
  exact promptAt_expect.bind (Item.writable items) fun token between _ => hnext token between

/-- Behind a construct stand the other items. -/
theorem PromptAt.part {reader : Parser Node} {readers : ι → Parser Node} {category : Category}
    (h : PromptAt cursor reader readers category.language) {next : Node → Parser β}
    {nexts : ι → Node → Parser β}
    (hnext : ∀ tree between, PromptAt between (next tree)
      (fun index : ι × Node => nexts index.1 index.2) (Item.language items)) :
    PromptAt cursor (reader >>= next) (fun index => readers index >>= nexts index)
      (Item.language (.part category :: items)) := by
  rw [Item.language_part]
  exact h.bind (Item.writable items) fun tree between _ => hnext tree between

/-- The end of a right-hand side. -/
theorem promptAt_finish {answer : α} {answers : ι → α} :
    PromptAt cursor (pure answer) (fun index => pure (answers index)) (Item.language []) := by
  rw [Item.language_nil]
  exact promptAt_pure Language.nil_mem_one

end Items

end Parser

end Census
