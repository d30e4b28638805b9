import Census.Token.Lexer

/-!
# The order of tokens

The tokens of a text stand one behind the other, and none of them is empty.

- `Token.InOrder`: tokens that stand one behind the other.
- `tokenize_inOrder`: the tokens of a text do.
-/

namespace Census

namespace Location

theorem offset_le_advanceAll (here : Location) (text : List Char) :
    here.offset ≤ (here.advanceAll text).offset := by
  induction text generalizing here with
  | nil => exact Nat.le_refl _
  | cons c text ih =>
    have hrest := ih (here.advance c)
    rw [offset_advance] at hrest
    rw [advanceAll_cons]
    omega

/-- No character is empty. -/
theorem offset_lt_advanceAll (here : Location) (c : Char) (text : List Char) :
    here.offset < (here.advanceAll (c :: text)).offset := by
  have hrest := (here.advance c).offset_le_advanceAll text
  rw [offset_advance] at hrest
  rw [advanceAll_cons]
  have hpos := c.utf8Size_pos
  omega

end Location

namespace Token

/-- Every token ends before the next ones start, and is not empty. -/
structure InOrder (tokens : List Token) : Prop where
  disjoint : tokens.Pairwise fun token next => token.span.stop.offset ≤ next.span.start.offset
  nonempty : ∀ token ∈ tokens, token.span.start.offset < token.span.stop.offset

namespace InOrder

variable {tokens front : List Token} {token : Token}

theorem nil : InOrder [] := ⟨.nil, nofun⟩

theorem cons_iff : InOrder (token :: tokens) ↔
    (∀ next ∈ tokens, token.span.stop.offset ≤ next.span.start.offset) ∧
      token.span.start.offset < token.span.stop.offset ∧ InOrder tokens := by
  constructor
  · rintro ⟨hdisjoint, hnonempty⟩
    obtain ⟨hfirst, hothers⟩ := List.pairwise_cons.mp hdisjoint
    obtain ⟨hself, hrest⟩ := List.forall_mem_cons.mp hnonempty
    exact ⟨hfirst, hself, hothers, hrest⟩
  · rintro ⟨hfirst, hself, hothers, hrest⟩
    exact ⟨.cons hfirst hothers, List.forall_mem_cons.mpr ⟨hself, hrest⟩⟩

theorem sublist (h : InOrder tokens) (hfront : front.Sublist tokens) : InOrder front :=
  ⟨h.disjoint.sublist hfront, fun token htoken => h.nonempty token (hfront.subset htoken)⟩

theorem tail (h : InOrder (token :: tokens)) : InOrder tokens :=
  h.sublist (List.sublist_cons_self _ _)

theorem left (h : InOrder (front ++ tokens)) : InOrder front :=
  h.sublist (List.sublist_append_left _ _)

theorem right (h : InOrder (front ++ tokens)) : InOrder tokens :=
  h.sublist (List.sublist_append_right _ _)

/-- The first token starts first. -/
theorem start_le {first : Token} (h : InOrder tokens) (hfirst : first ∈ tokens.head?)
    (htoken : token ∈ tokens) : first.span.start.offset ≤ token.span.start.offset := by
  obtain ⟨others, rfl⟩ := List.head?_eq_some_iff.mp hfirst
  obtain ⟨hbehind, hself, -⟩ := cons_iff.mp h
  rcases List.mem_cons.mp htoken with rfl | hother
  · exact Nat.le_refl _
  · exact Nat.le_trans (Nat.le_of_lt hself) (hbehind token hother)

/-- The last token ends last. -/
theorem eq_or_stop_lt {last : Token} (h : InOrder tokens) (hlast : last ∈ tokens.getLast?)
    (htoken : token ∈ tokens) : token = last ∨ token.span.stop.offset < last.span.stop.offset := by
  obtain ⟨others, rfl⟩ := List.getLast?_eq_some_iff.mp hlast
  rcases List.mem_append.mp htoken with hother | hself
  · have hbefore := (List.pairwise_append.mp h.disjoint).2.2 token hother last (by simp)
    exact .inr (Nat.lt_of_le_of_lt hbefore (h.nonempty last (by simp)))
  · exact .inl (List.mem_singleton.mp hself)

end InOrder

end Token

open Token

/-- The tokens of a text that starts at a place stand in order behind the place. -/
theorem tokensFrom_inOrder {here : Location} {text : List Char} {tokens : List Token}
    (h : tokensFrom here text = .ok tokens) :
    InOrder tokens ∧ ∀ token ∈ tokens, here.offset ≤ token.span.start.offset := by
  fun_induction tokensFrom here text generalizing tokens
  case case1 =>
    obtain rfl := Except.ok.inj h
    exact ⟨.nil, nofun⟩
  case case2 => cases h
  case case3 here c rest lexeme _ taken next _ ih =>
    -- what is skipped only moves the place on
    have hnext : here.offset < next.offset := here.offset_lt_advanceAll c _
    obtain ⟨horder, hbehind⟩ := ih h
    exact ⟨horder, fun token htoken => Nat.le_trans (Nat.le_of_lt hnext) (hbehind token htoken)⟩
  case case4 here c rest lexeme _ taken next kind _ ih =>
    have hnext : here.offset < next.offset := here.offset_lt_advanceAll c _
    cases hothers : tokensFrom next (rest.drop lexeme.extra) with
    | error stray =>
      rw [hothers] at h
      cases h
    | ok others =>
      rw [hothers] at h
      obtain rfl := Except.ok.inj h
      obtain ⟨horder, hbehind⟩ := ih hothers
      refine ⟨InOrder.cons_iff.mpr ⟨hbehind, hnext, horder⟩, List.forall_mem_cons.mpr
        ⟨Nat.le_refl _, fun token htoken => ?_⟩⟩
      exact Nat.le_trans (Nat.le_of_lt hnext) (hbehind token htoken)

theorem tokenize_eq_ok_iff {source : String} {tokens : List Token} :
    tokenize source = .ok tokens ↔ tokensFrom .origin source.toList = .ok tokens := by
  unfold tokenize
  cases tokensFrom .origin source.toList with
  | error stray => constructor <;> rintro ⟨⟩
  | ok found => constructor <;> (rintro ⟨⟩; rfl)

theorem tokenize_eq_error_iff {source : String} {problem : Diagnostic} :
    tokenize source = .error problem ↔
      ∃ stray, tokensFrom .origin source.toList = .error stray ∧ problem = stray.diagnostic := by
  unfold tokenize
  cases tokensFrom .origin source.toList with
  | error stray =>
    constructor
    · rintro ⟨⟩
      exact ⟨stray, rfl, rfl⟩
    · rintro ⟨_, ⟨⟩, rfl⟩
      rfl
  | ok found =>
    constructor
    · rintro ⟨⟩
    · rintro ⟨_, ⟨⟩, _⟩

/-- The tokens of a text stand in order. -/
theorem tokenize_inOrder {source : String} {tokens : List Token}
    (h : tokenize source = .ok tokens) : InOrder tokens :=
  (tokensFrom_inOrder (tokenize_eq_ok_iff.mp h)).1

end Census
