import DecisionGraph.Proofs.Expression.Everywhere
import DecisionGraph.Proofs.Expression.Levels
import DecisionGraph.Proofs.Expression.Lexing

/-!
# How operators group without parentheses

Where no parenthesis opens, every operand binds as tightly as its place asks for, with ties going to the
left, or to the right for powers (`Expr.Grouped`). The invariant of a chain is that its left part is
closed against the tokens that follow: they were left there by the part that was read last, so they do not
reach the level of that part.

* **`parse_in_order`**: the tokens of the tree are the tokens of the text in their order, and without
  parentheses the tree is grouped by precedence alone.
-/

namespace DecisionGraph

/-- The operands of this node bind as tightly as their places ask for. -/
def Expr.Grouped : Expr → Prop
  | .member target name => (Expr.member target name).precedence ≤ target.precedence
  | .index target position => (Expr.index target position).precedence ≤ target.precedence
  | .unary op operand => (Expr.unary op operand).precedence ≤ operand.precedence
  | .binary op left right =>
    op.leftPrecedence ≤ left.precedence ∧ op.rightPrecedence ≤ right.precedence
  | .conditional condition yes no =>
    (Expr.conditional condition yes no).precedence < condition.precedence
  | _ => True

namespace Parser

/-- The token opens no parenthesis. -/
def Unparenthesized (token : Token) : Prop := token ≠ .leftParen

section Relations

variable {R : Nat → List Located → Expr → List Located → Prop}

/-- Subexpressions that are read without parentheses are grouped, reach the level that was asked for,
and end where nothing follows that reaches it. -/
def Groups (R : Nat → List Located → Expr → List Located → Prop) : Prop :=
  ∀ {level : Nat} {tokens : List Located} {expr : Expr} {rest : List Located},
    R level tokens expr rest → goesOn level rest = false ∧
      (AllTokens Unparenthesized tokens → expr.Everywhere Expr.Grouped ∧ expr.Admits level)

theorem Groups.yields (hR : Groups R) :
    Yields R (AllTokens Unparenthesized) fun expr => expr.Everywhere Expr.Grouped :=
  fun h hplain => ((hR h).2 hplain).1

theorem Operand.grouped (hspans : Faithful R) (hR : Groups R) {tokens rest : List Located}
    {expr : Expr} (h : Operand R tokens expr rest)
    (hplain : AllTokens Unparenthesized tokens) (level : Nat) :
    expr.Everywhere Expr.Grouped ∧ expr.Admits level ∧ expr.Closed rest := by
  cases h with
  | leaf hleaf => cases hleaf <;> exact ⟨trivial, trivial, nofun⟩
  | identifier => exact ⟨trivial, trivial, nofun⟩
  | unary hop hoperand =>
      -- closed, since its operand was left where nothing follows that reaches the operand's level
      obtain ⟨hstop, hgrouped⟩ := hR hoperand
      obtain ⟨hparts, hadmits⟩ := hgrouped hplain.tail
      refine ⟨⟨Expr.admits_unaryLevel_iff.mp hadmits, hparts⟩, trivial, ?_⟩
      rintro _ ⟨⟩
      exact hstop
  | group => exact absurd rfl hplain.head
  | array hitems =>
      have hparts := hitems.forall hspans hR.yields hplain.tail hplain.tail.behind
      exact ⟨⟨trivial, Expr.everywhereInItems_iff.mpr hparts⟩, trivial, nofun⟩
  | object hfields =>
      have hparts := hfields.forall hspans hR.yields hplain.tail.behind
      exact ⟨⟨trivial, Expr.everywhereInFields_iff.mpr hparts⟩, trivial, nofun⟩
  | call =>
      exact absurd rfl hplain.tail.head

/-- A step keeps the invariant of its chain. -/
theorem Step.grouped (hspans : Faithful R) (hR : Groups R) {level : Nat} {left next : Expr}
    {tokens rest : List Located} (h : Step R level left tokens next rest)
    (hplain : AllTokens Unparenthesized tokens)
    (hleft : left.Everywhere Expr.Grouped) (hclosed : left.Closed tokens) :
    next.Everywhere Expr.Grouped ∧ next.Admits level ∧ next.Closed rest := by
  cases h with
  | member =>
      have htarget := (Expr.closed_postfix_iff fun _ => rfl).mp hclosed
      exact ⟨⟨htarget, hleft⟩, trivial, nofun⟩
  | index hposition =>
      have htarget := (Expr.closed_postfix_iff fun _ => rfl).mp hclosed
      obtain ⟨hparts, _⟩ := (hR hposition).2 hplain.tail
      exact ⟨⟨htarget, hleft, hparts⟩, trivial, nofun⟩
  | conditional hlevel hyes hno =>
      have hcondition := Expr.closed_question_iff.mp hclosed
      have hbranch := ((hspans hyes).allTokens hplain.tail).tail
      obtain ⟨hyesParts, _⟩ := (hR hyes).2 hplain.tail
      obtain ⟨hstop, hgrouped⟩ := hR hno
      obtain ⟨hnoParts, _⟩ := hgrouped hbranch
      refine ⟨⟨hcondition, hleft, hyesParts, hnoParts⟩, hlevel, ?_⟩
      rintro _ ⟨⟩
      exact hstop
  | binary hop hlevel hright =>
      have hoperand := (Expr.closed_operator_iff hop).mp hclosed
      obtain ⟨hstop, hgrouped⟩ := hR hright
      obtain ⟨hparts, hadmits⟩ := hgrouped ((operator?_spans hop).allTokens hplain)
      refine ⟨⟨⟨hoperand, Expr.admits_rightLevel_iff.mp hadmits⟩, hleft, hparts⟩, hlevel, ?_⟩
      rintro _ ⟨⟩
      exact hstop

theorem Chain.grouped (hspans : Faithful R) (hR : Groups R) {level room : Nat} {left expr : Expr}
    {tokens rest : List Located} (h : Chain R level room left tokens expr rest)
    (hplain : AllTokens Unparenthesized tokens)
    (hleft : left.Everywhere Expr.Grouped) (hadmits : left.Admits level)
    (hclosed : left.Closed tokens) : expr.Everywhere Expr.Grouped ∧ expr.Admits level := by
  induction h with
  | stop => exact ⟨hleft, hadmits⟩
  | step hstep _ ih =>
      obtain ⟨hnext, hadmits', hclosed'⟩ := hstep.grouped hspans hR hplain hleft hclosed
      obtain ⟨_, _, hstepped⟩ := hstep.spans hspans
      exact ih (hstepped.allTokens hplain) hnext hadmits' hclosed'

end Relations

theorem Reads.groups (room : Nat) : Groups (Reads room) := by
  induction room with
  | zero => exact fun h => h.elim
  | succ room ih =>
      intro level tokens expr rest h
      refine ⟨h.stops, fun hplain => ?_⟩
      obtain ⟨first, middle, hfirst, hchain⟩ := h
      obtain ⟨hparts, hadmits, hclosed⟩ := hfirst.grouped Reads.spans ih hplain level
      have hbehind := (hfirst.spans Reads.spans).allTokens hplain
      exact hchain.grouped Reads.spans ih hbehind hparts hadmits hclosed

end Parser

/-- **The parser reads all tokens, in order, and groups by precedence.** The tokens of the tree from left
to right are the tokens of the text without the parentheses. If no parenthesis opens in the text, every
operand in the tree binds as tightly as its place asks for. -/
theorem parse_in_order {source : String} {expr : Expr} (h : parse source = .ok expr) :
    ∃ tokens, Lexer.tokens source = .ok tokens ∧
      List.Forall₂ Lexeme.Matches expr.lexemes
        ((tokens.map Located.token).filter fun token => !token.isParen) ∧
      ((∀ found ∈ tokens, found.token ≠ .leftParen) → expr.Everywhere Expr.Grouped) ∧
      ('(' ∉ source.toList → ∀ found ∈ tokens, found.token ≠ .leftParen) := by
  obtain ⟨tokens, htokens, hreads⟩ := Parser.reads_of_parse h
  obtain ⟨used, hused, hmatches⟩ := hreads.spans.forall₂
  rw [List.append_nil] at hused
  subst hused
  refine ⟨tokens, htokens, hmatches, fun hplain => ?_, Lexer.tokens_ne_leftParen htokens⟩
  exact ((Parser.Reads.groups _ hreads).2 hplain).1

/-- Synonyms of operators, quoted keys, powers with a sign in them, and no parentheses. -/
theorem in_order_without_parentheses :
    ∃ expr tokens, parse "a ^ -b ^ c && !d ? x.y[e or f] : \x7b'k': g not in h\x7d" = .ok expr ∧
      Lexer.tokens "a ^ -b ^ c && !d ? x.y[e or f] : \x7b'k': g not in h\x7d" = .ok tokens ∧
      List.Forall₂ Lexeme.Matches expr.lexemes
        ((tokens.map Located.token).filter fun token => !token.isParen) ∧
      expr.Everywhere Expr.Grouped := by
  have hparse : parse "a ^ -b ^ c && !d ? x.y[e or f] : \x7b'k': g not in h\x7d" = .ok
      (.conditional
        (.binary .and
          (.binary .power (.identifier "a")
            (.binary .power (.unary .negate (.identifier "b")) (.identifier "c")))
          (.unary .not (.identifier "d")))
        (.index (.member (.identifier "x") "y") (.binary .or (.identifier "e") (.identifier "f")))
        (.object [("k", .binary .notIn (.identifier "g") (.identifier "h"))])) := rfl
  obtain ⟨tokens, htokens, hmatches, hgrouped, hplain⟩ := parse_in_order hparse
  exact ⟨_, tokens, hparse, htokens, hmatches, hgrouped (hplain (by decide))⟩

end DecisionGraph
