import DecisionGraph.Proofs.Expression.Grammar

/-!
# Levels of binding and precedences

The parser decides by levels where an operand ends, the printer by precedences where it needs parentheses.
Both come from one table, and this is where they meet. An expression without parentheses can stand where
its first operator reaches the level that is asked for (`Expr.Admits`), and what follows it is kept out of
its last part because it does not reach the level of that part (`Expr.Closed`). In terms of precedences
these are the printer's conditions on the operands of every operator.
-/

namespace DecisionGraph

namespace BinaryOp

theorem two_le_precedence (op : BinaryOp) : 2 ≤ op.precedence := by cases op <;> decide

theorem precedence_le_nine (op : BinaryOp) : op.precedence ≤ 9 := by cases op <;> decide

/-- Among the operators that bind most tightly there are only powers, which group to the right. -/
theorem groupsRight_iff (op : BinaryOp) : op.groupsRight = true ↔ op.precedence = 9 := by
  cases op <;> decide

end BinaryOp

namespace Parser

/-- Operators compared by level bind as tightly as a left operand must. -/
theorem leftLevel_lt_rightLevel_iff (op inner : BinaryOp) :
    leftLevel op < rightLevel inner ↔ op.leftPrecedence ≤ inner.precedence := by
  have hop := op.groupsRight_iff
  have hinner := inner.groupsRight_iff
  have hle := inner.precedence_le_nine
  unfold leftLevel rightLevel BinaryOp.leftPrecedence
  split <;> split <;> grind

/-- Operators compared by level bind as tightly as a right operand must. -/
theorem rightLevel_le_leftLevel_iff (op inner : BinaryOp) :
    rightLevel op ≤ leftLevel inner ↔ op.rightPrecedence ≤ inner.precedence := by
  have hpos := op.two_le_precedence
  unfold leftLevel rightLevel BinaryOp.rightPrecedence
  split <;> omega

theorem goesOn_of_operator? {level : Nat} {tokens rest : List Located} {op : BinaryOp}
    (h : operator? tokens = some (op, rest)) : goesOn level tokens = decide (level ≤ leftLevel op) := by
  rw [goesOn.eq_4, h]
  · rfl
  all_goals
    rintro offset more rfl
    cases h

/-- A chain that does not go on at a level does not go on at another that fewer operators reach. -/
theorem goesOn_eq_false_of_imp {level level' : Nat}
    (hquestion : level' ≤ conditionalLevel → level ≤ conditionalLevel)
    (hop : ∀ op, level' ≤ leftLevel op → level ≤ leftLevel op) {tokens : List Located}
    (h : goesOn level tokens = false) : goesOn level' tokens = false := by
  unfold goesOn at h ⊢
  split
  · cases h
  · cases h
  · rw [decide_eq_false_iff_not] at h ⊢
    exact fun hlevel => h (hquestion hlevel)
  · rename_i hdot hbracket hmark
    split at h
    · cases h
    · cases h
    · exact absurd rfl (hmark _ _)
    · cases hfound : operator? tokens with
      | none => rfl
      | some found =>
          rw [hfound, Option.any_some, decide_eq_false_iff_not] at h
          rw [Option.any_some, decide_eq_false_iff_not]
          exact fun hlevel => h (hop _ hlevel)

/-- A chain that goes on at a level goes on at every lower one. -/
theorem goesOn_mono {level level' : Nat} (hle : level ≤ level') {tokens : List Located}
    (h : goesOn level tokens = false) : goesOn level' tokens = false :=
  goesOn_eq_false_of_imp (Nat.le_trans hle) (fun _ => Nat.le_trans hle) h

end Parser

namespace Expr

open DecisionGraph.Parser

/-- The expression can be read at the level without parentheses around it. -/
def Admits (level : Nat) : Expr → Prop
  | .binary op _ _ => level ≤ leftLevel op
  | .conditional _ _ _ => level ≤ conditionalLevel
  | _ => True

/-- The level that the last part of the expression is read at, if it does not end with a token of its
own. -/
def lastLevel? : Expr → Option Nat
  | .unary _ _ => some unaryLevel
  | .binary op _ _ => some (rightLevel op)
  | .conditional _ _ _ => some conditionalLevel
  | _ => none

/-- The tokens behind the expression are no part of it. -/
def Closed (expr : Expr) (tokens : List Located) : Prop :=
  ∀ level ∈ expr.lastLevel?, goesOn level tokens = false

theorem closed_of_lastLevel?_eq_none {expr : Expr} (h : expr.lastLevel? = none) (tokens : List Located) :
    expr.Closed tokens := by
  intro level hlevel
  rw [h] at hlevel
  cases hlevel

/-- An expression that ends with a token of its own binds as tightly as a target of a member. -/
theorem lastLevel?_eq_none_iff {expr : Expr} : expr.lastLevel? = none ↔ 11 ≤ expr.precedence := by
  cases expr with
  | binary op left right =>
      have hle : op.precedence ≤ 9 := op.precedence_le_nine
      simp only [lastLevel?, precedence, reduceCtorEq, false_iff]
      omega
  | _ => simp [lastLevel?, precedence]

theorem admits_rightLevel_iff {op : BinaryOp} {right : Expr} :
    right.Admits (rightLevel op) ↔ op.rightPrecedence ≤ right.precedence := by
  have hlow := op.two_le_precedence
  have hhigh := op.precedence_le_nine
  cases right with
  | binary inner _ _ => exact rightLevel_le_leftLevel_iff op inner
  | conditional _ _ _ =>
      simp only [Admits, precedence, conditionalLevel, rightLevel, BinaryOp.rightPrecedence]
      split <;> omega
  | _ =>
      simp only [Admits, precedence, BinaryOp.rightPrecedence, true_iff]
      split <;> omega

theorem admits_unaryLevel_iff {op : UnaryOp} {operand : Expr} :
    operand.Admits unaryLevel ↔ (Expr.unary op operand).precedence ≤ operand.precedence := by
  cases operand with
  | binary inner _ _ =>
      have hle : inner.precedence ≤ 9 := inner.precedence_le_nine
      simp only [Admits, precedence, unaryLevel, leftLevel]
      omega
  | _ => simp [Admits, precedence, conditionalLevel, unaryLevel]

/-- An operator that follows a closed expression finds in it a left operand that binds tightly
enough. -/
theorem closed_operator_iff {op : BinaryOp} {left : Expr} {tokens rest : List Located}
    (h : operator? tokens = some (op, rest)) :
    left.Closed tokens ↔ op.leftPrecedence ≤ left.precedence := by
  have hlow := op.two_le_precedence
  have hhigh := op.precedence_le_nine
  have hright := op.groupsRight_iff
  unfold Closed
  simp only [goesOn_of_operator? h, decide_eq_false_iff_not, Nat.not_le]
  cases left with
  | binary inner _ _ =>
      simp only [lastLevel?, Option.mem_some_iff, forall_eq', precedence]
      exact leftLevel_lt_rightLevel_iff op inner
  | unary _ _ =>
      simp only [lastLevel?, Option.mem_some_iff, forall_eq', precedence, leftLevel, unaryLevel,
        BinaryOp.leftPrecedence]
      split <;> omega
  | conditional _ _ _ =>
      simp only [lastLevel?, Option.mem_some_iff, forall_eq', precedence, leftLevel, conditionalLevel,
        BinaryOp.leftPrecedence]
      split <;> omega
  | _ =>
      simp only [lastLevel?, Option.not_mem_none, false_imp_iff, implies_true, precedence,
        BinaryOp.leftPrecedence, true_iff]
      split <;> omega

/-- A question mark that follows a closed expression finds a condition in it. -/
theorem closed_question_iff {condition : Expr} {offset : Nat} {rest : List Located} :
    condition.Closed (⟨.question, offset⟩ :: rest) ↔ 1 < condition.precedence := by
  unfold Closed
  simp only [goesOn, decide_eq_false_iff_not, Nat.not_le]
  cases condition with
  | binary op _ _ =>
      have hlow : 2 ≤ op.precedence := op.two_le_precedence
      simp only [lastLevel?, Option.mem_some_iff, forall_eq', precedence, conditionalLevel, rightLevel]
      split <;> omega
  | _ => simp [lastLevel?, precedence, conditionalLevel, unaryLevel]

/-- A dot or a bracket that follows a closed expression finds a target in it. -/
theorem closed_postfix_iff {target : Expr} {tokens : List Located}
    (h : ∀ level, goesOn level tokens = true) : target.Closed tokens ↔ 11 ≤ target.precedence := by
  rw [← lastLevel?_eq_none_iff]
  unfold Closed
  simp [h, Option.eq_none_iff_forall_not_mem]

end Expr

end DecisionGraph
