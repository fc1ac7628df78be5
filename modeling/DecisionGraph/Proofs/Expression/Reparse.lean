import DecisionGraph.Proofs.Expression.Printed

/-!
# Reading a printed expression again

The printer leaves parentheses out by precedence, the parser decides by levels where an operand ends. That
the two agree is shown for the tokens of an expression, form by form, with anything behind them that can
stand there: **the parser comes to the expression and leaves what is behind it** (`Expr.Rereads`), unless
it runs out of levels. An operand of an operator is the front of a chain that goes on, so the statement is
about where the chain stands after the expression (`Parser.Leads`), not only about what a reader returns.

Too deep a nesting cannot be ruled out: parentheses in a source start a chain of their own, which gets its
own share of levels, and the printer leaves them out where the chain is the left operand of another one.
-/

namespace DecisionGraph

namespace Parser

/-! ## Readers that only fail by depth -/

/-- The reader gives the value and leaves the rest, or what it reads is nested too deeply. -/
def Finds {α : Type} (result : Except ExprError (α × List Located)) (value : α) (rest : List Located) :
    Prop :=
  result = .ok (value, rest) ∨ result = .error .tooDeep

theorem Finds.map {α β : Type} {result : Except ExprError (α × List Located)} {a : α} {b : β}
    {rest rest' : List Located} {f : α × List Located → β × List Located} (h : Finds result a rest)
    (hf : f (a, rest) = (b, rest')) : Finds (result.map f) b rest' := by
  rcases h with rfl | rfl
  · exact .inl (congrArg Except.ok hf)
  · exact .inr rfl

theorem Finds.bind {α β : Type} {result : Except ExprError (α × List Located)} {a : α} {b : β}
    {rest rest' : List Located} {f : α × List Located → Except ExprError (β × List Located)}
    (h : Finds result a rest) (hf : Finds (f (a, rest)) b rest') : Finds (result >>= f) b rest' := by
  rcases h with rfl | rfl
  · exact hf
  · exact .inr rfl

/-- The tokens make no call of a name before them. -/
def Uncalled (tokens : List Located) : Prop := ∀ offset rest, tokens ≠ ⟨.leftParen, offset⟩ :: rest

/-- Tokens that end the expression before them. -/
def closing : List Token := [.rightParen, .rightBracket, .rightBrace, .comma, .colon]

theorem goesOn_closing {close : Token} (h : close ∈ closing) (level offset : Nat)
    (rest : List Located) : goesOn level (⟨close, offset⟩ :: rest) = false := by
  simp only [closing, List.mem_cons, List.not_mem_nil, or_false] at h
  rcases h with rfl | rfl | rfl | rfl | rfl <;> rfl

theorem uncalled_cons {token : Token} (h : token ≠ .leftParen) (offset : Nat) (rest : List Located) :
    Uncalled (⟨token, offset⟩ :: rest) := by
  rintro _ _ heq
  exact h (congrArg Located.token (List.cons.inj heq).1)

theorem ne_leftParen_of_closing {close : Token} (h : close ∈ closing) : close ≠ .leftParen := by
  rintro rfl
  simp [closing] at h

section Chains

variable {sub : Nat → Parser Expr} {level : Nat} {expr next : Expr} {tokens middle rest : List Located}

variable (sub level) in
/-- Reading the tokens at the level, the parser comes to where the expression has been read and the rest
is left: after the operand at the front, the chain gets there with whatever room it has, if it has
enough. -/
def Leads (tokens : List Located) (expr : Expr) (rest : List Located) : Prop :=
  operand sub tokens = .error .tooDeep ∨
    ∃ first behind, operand sub tokens = .ok (first, behind) ∧
      ∀ room, chain sub level room first behind = .error .tooDeep ∨
        ∃ room', chain sub level room first behind = chain sub level room' expr rest

theorem Leads.of_operand (h : Finds (operand sub tokens) expr rest) : Leads sub level tokens expr rest := by
  rcases h with h | h
  · exact .inr ⟨expr, rest, h, fun room => .inr ⟨room, rfl⟩⟩
  · exact .inl h

/-- The chain takes one step more. -/
theorem Leads.step (h : Leads sub level tokens expr middle)
    {result : Except ExprError (Expr × List Located)}
    (hstep : step? sub level expr middle = some result) (hresult : Finds result next rest) :
    Leads sub level tokens next rest := by
  refine h.imp_right fun ⟨first, behind, hfirst, hchain⟩ => ⟨first, behind, hfirst, fun room => ?_⟩
  rcases hchain room with hdeep | ⟨room', hchain⟩
  · exact .inl hdeep
  · rw [hchain]
    rcases hresult with rfl | rfl
    · -- the step costs one of the levels that the chain has left
      cases room' with
      | zero => exact .inl (by rw [chain, hstep])
      | succ room' => exact .inr ⟨room', by rw [chain, hstep]⟩
    · exact .inl (by cases room' <;> rw [chain, hstep])

/-- If no step follows, this is what the parser gives. -/
theorem Leads.finds {room : Nat} (h : Leads (expression room) level tokens expr rest)
    (hstop : goesOn level rest = false) : Finds (expression (room + 1) level tokens) expr rest := by
  have hnone : step? (expression room) level expr rest = none := step?_eq_none_iff.mpr hstop
  rcases h with hdeep | ⟨first, behind, hfirst, hchain⟩
  · exact .inr (by rw [expression, hdeep])
  · rw [expression, hfirst]
    rcases hchain room with hdeep | ⟨room', hchain⟩
    · exact .inr hdeep
    · exact .inl (hchain.trans (by cases room' <;> rw [chain, hnone]))

theorem step?_of_operator? {op : BinaryOp} (h : operator? tokens = some (op, rest))
    (hlevel : level ≤ leftLevel op) : step? sub level expr tokens =
      some ((sub (rightLevel op) rest).map fun (right, rest) => (.binary op expr right, rest)) := by
  rw [step?.eq_4, h]
  · exact if_neg (Nat.not_lt.mpr hlevel)
  all_goals
    rintro offset more rfl
    cases h

end Chains

theorem operator?_tokens {op : BinaryOp} {tokens : List Located}
    (h : tokens.map Located.token = op.tokens) (rest : List Located) :
    operator? (tokens ++ rest) = some (op, rest) := by
  cases op with
  | notIn =>
      obtain ⟨⟨_, _⟩, behind, rfl, rfl, hbehind⟩ := List.map_eq_cons_iff.mp h
      obtain ⟨⟨_, _⟩, rfl, rfl⟩ := List.map_eq_singleton_iff.mp hbehind
      rfl
  | _ =>
      obtain ⟨⟨_, _⟩, rfl, rfl⟩ := List.map_eq_singleton_iff.mp h
      rfl

/-- An operator is no parenthesis. -/
theorem uncalled_operator {op : BinaryOp} {tokens : List Located}
    (h : tokens.map Located.token = op.tokens) (rest : List Located) : Uncalled (tokens ++ rest) := by
  rintro offset more heq
  have hop := operator?_tokens h rest
  rw [heq] at hop
  cases hop

end Parser

namespace Expr

open DecisionGraph.Parser

/-! ## Where an expression can stand -/

/-- What binds as tightly as a target can stand anywhere. -/
theorem admits_of_le {expr : Expr} (h : 10 ≤ expr.precedence) (level : Nat) : expr.Admits level := by
  cases expr with
  | binary op left right => exact absurd op.precedence_le_nine (Nat.not_le.mpr h)
  | conditional _ _ _ => exact absurd (show 10 ≤ 1 from h) (by decide)
  | _ => trivial

/-- Nothing needs parentheses where a branch of a conditional stands. -/
theorem admits_of_le_conditionalLevel {level : Nat} (h : level ≤ conditionalLevel) (expr : Expr) :
    expr.Admits level := by
  cases expr with
  | binary op _ _ =>
      have hlow := op.two_le_precedence
      simp only [Admits, conditionalLevel, leftLevel] at h ⊢
      omega
  | conditional _ _ _ => exact h
  | _ => trivial

/-- What binds as tightly as a left operand can stand where the operator can. -/
theorem admits_left {op : BinaryOp} {left : Expr} {level : Nat} (hlevel : level ≤ leftLevel op)
    (h : op.leftPrecedence ≤ left.precedence) : left.Admits level := by
  have hlow := op.two_le_precedence
  cases left with
  | binary inner _ _ =>
      have hinner := (leftLevel_lt_rightLevel_iff op inner).mpr h
      have hright := inner.groupsRight_iff
      simp only [Admits, leftLevel, rightLevel] at *
      split at hinner <;> omega
  | conditional _ _ _ =>
      simp only [precedence, BinaryOp.leftPrecedence] at h
      split at h <;> omega
  | _ => trivial

/-- What ends where a level is asked for is closed, since no operator has a level between that of a
power and that of its right operand. -/
theorem Admits.closed {expr : Expr} {level : Nat} (h : expr.Admits level) {rest : List Located}
    (hstop : goesOn level rest = false) : expr.Closed rest := by
  intro last hlast
  cases expr with
  | binary op _ _ =>
      cases hlast
      have hlevel : level ≤ leftLevel op := h
      have hlow := op.two_le_precedence
      refine goesOn_eq_false_of_imp (fun hle => ?_) (fun other hle => ?_) hstop
      · simp only [rightLevel, conditionalLevel] at hle
        split at hle <;> omega
      · simp only [rightLevel, leftLevel] at hle hlevel ⊢
        split at hle <;> omega
  | unary op _ =>
      cases hlast
      refine goesOn_eq_false_of_imp (fun hle => absurd hle (by decide)) (fun other hle => ?_) hstop
      have hhigh := other.precedence_le_nine
      simp only [unaryLevel, leftLevel] at hle
      omega
  | conditional _ _ _ =>
      cases hlast
      exact goesOn_mono h hstop
  | _ => cases hlast

/-! ## The first token -/

/-- There is a first token, and it does not end the expression before it. -/
def Begins (tokens : List Token) : Prop := ∃ first more, tokens = first :: more ∧ first ∉ closing

theorem Begins.append {tokens : List Token} (h : Begins tokens) (more : List Token) :
    Begins (tokens ++ more) := by
  obtain ⟨first, tail, rfl, hfirst⟩ := h
  exact ⟨first, tail ++ more, rfl, hfirst⟩

theorem Begins.enclosed {tokens : List Token} (h : Begins tokens) (needed : Bool) :
    Begins (enclosed needed tokens) := by
  cases needed with
  | false => exact h
  | true => exact ⟨.leftParen, tokens ++ [.rightParen], rfl, by decide⟩

theorem begins_cons {first : Token} (h : first ∉ closing) (more : List Token) :
    Begins (first :: more) := ⟨first, more, rfl, h⟩

theorem word_not_mem_closing (name : String) : .word name ∉ closing := by simp [closing]

theorem begins_written : ∀ expr : Expr, Begins expr.written
  | .literal value => by
    refine begins_cons ?_ []
    cases value with
    | boolean value => cases value <;> decide
    | number _ | text _ | null => simp [Literal.token, closing]
  | .identifier name => begins_cons (word_not_mem_closing name) _
  | .pointer => begins_cons (by decide) _
  | .member target _ => ((begins_written target).enclosed _).append _
  | .index target _ => (((begins_written target).enclosed _).append _).append _
  | .array _ => begins_cons (by decide) _
  | .object _ => begins_cons (by decide) _
  | .unary op _ => begins_cons (by cases op <;> decide) _
  | .binary _ left _ => (((begins_written left).enclosed _).append _).append _
  | .conditional condition _ _ => (((begins_written condition).enclosed _).append _).append _
  | .call name _ => begins_cons (word_not_mem_closing name) _

theorem begins_writtenItems {items : List Expr} (h : items ≠ []) : Begins (writtenItems items) := by
  cases items with
  | nil => exact absurd rfl h
  | cons item rest =>
      cases rest with
      | nil => exact item.begins_written
      | cons => exact item.begins_written.append _

theorem exists_writtenFields {fields : List (String × Expr)} (h : fields ≠ []) :
    ∃ key more, writtenFields fields = .word key :: more := by
  cases fields with
  | nil => exact absurd rfl h
  | cons field rest => cases rest <;> exact ⟨field.1, _, rfl⟩

/-- Every item has a token, so there are no more rounds than tokens. -/
theorem length_le_writtenItems : ∀ items : List Expr, items.length ≤ (writtenItems items).length
  | [] => Nat.le_refl _
  | [item] => by
    obtain ⟨first, more, hwritten, _⟩ := item.begins_written
    simp [writtenItems, hwritten]
  | item :: next :: items => by
    have ih := length_le_writtenItems (next :: items)
    simp only [writtenItems, List.length_append, List.length_cons] at ih ⊢
    omega

theorem length_le_writtenFields :
    ∀ fields : List (String × Expr), fields.length ≤ (writtenFields fields).length
  | [] => Nat.le_refl _
  | [_] => by simp [writtenFields]
  | (key, value) :: next :: fields => by
    have ih := length_le_writtenFields (next :: fields)
    simp only [writtenFields, List.length_append, List.length_cons] at ih ⊢
    omega

/-! ## The forms of an expression -/

/-- Wherever the expression can stand without parentheses, the parser gets from its tokens to it, and what
is behind it is left. -/
def Rereads (expr : Expr) : Prop :=
  ∀ (room level : Nat) (tokens rest : List Located), tokens.map Located.token = expr.written →
    expr.Admits level → expr.Closed rest → Uncalled rest →
    Leads (expression room) level (tokens ++ rest) expr rest

section Forms

variable {expr : Expr} {room level : Nat} {tokens rest : List Located}

theorem Rereads.finds (h : Rereads expr) (htokens : tokens.map Located.token = expr.written)
    (hadmits : expr.Admits level) (hstop : goesOn level rest = false) (hrest : Uncalled rest) :
    Finds (expression room level (tokens ++ rest)) expr rest := by
  cases room with
  | zero => exact .inr rfl
  | succ room => exact (h room level tokens rest htokens hadmits (hadmits.closed hstop) hrest).finds hstop

/-- Before a token that ends it. -/
theorem Rereads.finds_closing (h : Rereads expr) (htokens : tokens.map Located.token = expr.written)
    {close : Token} (hclose : close ∈ closing) {offset : Nat} :
    Finds (expression room 0 (tokens ++ ⟨close, offset⟩ :: rest)) expr (⟨close, offset⟩ :: rest) :=
  h.finds htokens (admits_of_le_conditionalLevel (Nat.zero_le _) expr) (goesOn_closing hclose 0 offset rest)
    (uncalled_cons (ne_leftParen_of_closing hclose) offset rest)

/-- Between parentheses, or without them where it can stand so. -/
theorem Rereads.leads_enclosed (h : Rereads expr) {needed : Bool}
    (htokens : tokens.map Located.token = enclosed needed expr.written)
    (hbare : needed = false → expr.Admits level ∧ expr.Closed rest) (hrest : Uncalled rest) :
    Leads (expression room) level (tokens ++ rest) expr rest := by
  cases needed with
  | false => exact h room level tokens rest htokens (hbare rfl).1 (hbare rfl).2 hrest
  | true =>
      obtain ⟨⟨_, opening⟩, behind, rfl, rfl, hbehind⟩ := List.map_eq_cons_iff.mp htokens
      obtain ⟨inner, last, rfl, hinner, hlast⟩ := List.map_eq_append_iff.mp hbehind
      obtain ⟨⟨_, offset⟩, rfl, rfl⟩ := List.map_eq_singleton_iff.mp hlast
      refine .of_operand ?_
      rw [List.cons_append, List.append_assoc]
      exact (h.finds_closing hinner (by decide)).bind (.inl rfl)

theorem Rereads.finds_enclosed (h : Rereads expr) {needed : Bool}
    (htokens : tokens.map Located.token = enclosed needed expr.written)
    (hbare : needed = false → expr.Admits level) (hstop : goesOn level rest = false)
    (hrest : Uncalled rest) : Finds (expression room level (tokens ++ rest)) expr rest := by
  cases room with
  | zero => exact .inr rfl
  | succ room =>
      have hleads : Leads (expression room) level (tokens ++ rest) expr rest :=
        h.leads_enclosed htokens (fun hneeded => ⟨hbare hneeded, (hbare hneeded).closed hstop⟩) hrest
      exact hleads.finds hstop

section Operands

variable {sub : Nat → Parser Expr}

theorem operand_literal (value : Literal) (offset : Nat) :
    operand sub (⟨value.token, offset⟩ :: rest) = .ok (.literal value, rest) := by
  cases value with
  | boolean value => cases value <;> rfl
  | _ => rfl

/-- A name that no parenthesis follows is an identifier, unless it is one of the reserved words. -/
theorem operand_identifier {name : String} (hname : name ∉ reserved) (hrest : Uncalled rest) (offset : Nat) :
    operand sub (⟨.word name, offset⟩ :: rest) = .ok (.identifier name, rest) := by
  simp only [reserved, List.mem_cons, List.not_mem_nil, or_false, not_or] at hname
  obtain ⟨htrue, hfalse, hnull, hnot⟩ := hname
  rw [operand]
  simp only [word, htrue, hfalse, hnull, hnot, if_false]
  split
  · exact absurd rfl (hrest _ _)
  · rfl

end Operands

theorem Rereads.literal (value : Literal) : Rereads (.literal value) := by
  intro room level tokens rest htokens _ _ _
  obtain ⟨⟨_, offset⟩, rfl, rfl⟩ := List.map_eq_singleton_iff.mp htokens
  exact .of_operand (.inl (operand_literal value offset))

theorem Rereads.identifier {name : String} (hname : name ∉ reserved) : Rereads (.identifier name) := by
  intro room level tokens rest htokens _ _ hrest
  obtain ⟨⟨_, offset⟩, rfl, rfl⟩ := List.map_eq_singleton_iff.mp htokens
  exact .of_operand (.inl (operand_identifier hname hrest offset))

theorem Rereads.pointer : Rereads .pointer := by
  intro room level tokens rest htokens _ _ _
  obtain ⟨⟨_, offset⟩, rfl, rfl⟩ := List.map_eq_singleton_iff.mp htokens
  exact .of_operand (.inl rfl)

theorem Rereads.unary {op : UnaryOp} (h : Rereads expr) : Rereads (.unary op expr) := by
  intro room level tokens rest htokens _ hclosed hrest
  obtain ⟨⟨_, offset⟩, behind, rfl, rfl, hbehind⟩ := List.map_eq_cons_iff.mp htokens
  have hbare : decide (expr.precedence < 10) = false → expr.Admits unaryLevel := fun hle =>
    admits_of_le (Nat.not_lt.mp (of_decide_eq_false hle)) unaryLevel
  have hoperand : Finds (expression room unaryLevel (behind ++ rest)) expr rest :=
    h.finds_enclosed hbehind hbare (hclosed _ rfl) hrest
  cases op <;> exact .of_operand (hoperand.map rfl)

/-- A target in front of a dot or a bracket. -/
theorem Rereads.leads_target (h : Rereads expr)
    (htokens : tokens.map Located.token = enclosed (expr.precedence < 11) expr.written)
    (hrest : Uncalled rest) : Leads (expression room) level (tokens ++ rest) expr rest := by
  refine h.leads_enclosed htokens (fun hle => ?_) hrest
  have hprecedence : 11 ≤ expr.precedence := Nat.not_lt.mp (of_decide_eq_false hle)
  have hlast : expr.lastLevel? = none := lastLevel?_eq_none_iff.mpr hprecedence
  exact ⟨admits_of_le (Nat.le_of_succ_le hprecedence) level, closed_of_lastLevel?_eq_none hlast rest⟩

theorem Rereads.member {name : String} (h : Rereads expr) : Rereads (.member expr name) := by
  intro room level tokens rest htokens _ _ _
  obtain ⟨target, suffix, rfl, htarget, hsuffix⟩ := List.map_eq_append_iff.mp htokens
  obtain ⟨⟨_, dot⟩, last, rfl, rfl, hlast⟩ := List.map_eq_cons_iff.mp hsuffix
  obtain ⟨⟨_, offset⟩, rfl, rfl⟩ := List.map_eq_singleton_iff.mp hlast
  have hstart : Leads (expression room) level (target ++ ⟨.dot, dot⟩ :: ⟨.word name, offset⟩ :: rest)
      expr (⟨.dot, dot⟩ :: ⟨.word name, offset⟩ :: rest) :=
    h.leads_target htarget (fun _ _ => nofun)
  rw [List.append_assoc]
  exact hstart.step rfl (.inl rfl)

theorem Rereads.index {position : Expr} (h : Rereads expr) (hposition : Rereads position) :
    Rereads (.index expr position) := by
  intro room level tokens rest htokens _ _ _
  obtain ⟨front, last, rfl, hfront, hlast⟩ := List.map_eq_append_iff.mp htokens
  obtain ⟨target, behind, rfl, htarget, hbehind⟩ := List.map_eq_append_iff.mp hfront
  obtain ⟨⟨_, opening⟩, inner, rfl, rfl, hinner⟩ := List.map_eq_cons_iff.mp hbehind
  obtain ⟨⟨_, offset⟩, rfl, rfl⟩ := List.map_eq_singleton_iff.mp hlast
  have hinside : Finds (expression room 0 (inner ++ ⟨.rightBracket, offset⟩ :: rest)) position
      (⟨.rightBracket, offset⟩ :: rest) := hposition.finds_closing hinner (by decide)
  have hstart : Leads (expression room) level
      (target ++ ⟨.leftBracket, opening⟩ :: (inner ++ ⟨.rightBracket, offset⟩ :: rest))
      expr (⟨.leftBracket, opening⟩ :: (inner ++ ⟨.rightBracket, offset⟩ :: rest)) :=
    h.leads_target htarget (fun _ _ => nofun)
  rw [List.append_assoc, List.append_assoc]
  exact hstart.step rfl (hinside.bind (.inl rfl))

theorem Rereads.binary {op : BinaryOp} {left right : Expr} (hleft : Rereads left)
    (hright : Rereads right) : Rereads (.binary op left right) := by
  intro room level tokens rest htokens hadmits hclosed hrest
  obtain ⟨front, back, rfl, hfront, hback⟩ := List.map_eq_append_iff.mp htokens
  obtain ⟨before, sign, rfl, hbefore, hsign⟩ := List.map_eq_append_iff.mp hfront
  have hop : operator? (sign ++ (back ++ rest)) = some (op, back ++ rest) :=
    operator?_tokens hsign (back ++ rest)
  have hlevel : level ≤ leftLevel op := hadmits
  -- the right operand reaches the level that is asked for, and what is behind it does not
  have hoperand : Finds (expression room (rightLevel op) (back ++ rest)) right rest := by
    refine hright.finds_enclosed hback (fun hle => ?_) (hclosed _ rfl) hrest
    exact admits_rightLevel_iff.mpr (Nat.not_lt.mp (of_decide_eq_false hle))
  -- the left operand can stand where the operator can, and the operator is no part of it
  have hstart : Leads (expression room) level (before ++ (sign ++ (back ++ rest))) left
      (sign ++ (back ++ rest)) := by
    refine hleft.leads_enclosed hbefore (fun hle => ?_) (uncalled_operator hsign _)
    have hprecedence := Nat.not_lt.mp (of_decide_eq_false hle)
    exact ⟨admits_left hlevel hprecedence, (closed_operator_iff hop).mpr hprecedence⟩
  rw [List.append_assoc, List.append_assoc]
  exact hstart.step (step?_of_operator? hop hlevel) (hoperand.map rfl)

theorem Rereads.conditional {condition yes no : Expr} (hcondition : Rereads condition)
    (hyes : Rereads yes) (hno : Rereads no) : Rereads (.conditional condition yes no) := by
  intro room level tokens rest htokens hadmits hclosed hrest
  obtain ⟨front, behind, rfl, hfront, hbehind⟩ := List.map_eq_append_iff.mp htokens
  obtain ⟨before, middle, rfl, hbefore, hmiddle⟩ := List.map_eq_append_iff.mp hfront
  obtain ⟨⟨_, mark⟩, first, rfl, rfl, hfirst⟩ := List.map_eq_cons_iff.mp hmiddle
  obtain ⟨⟨_, colon⟩, second, rfl, rfl, hsecond⟩ := List.map_eq_cons_iff.mp hbehind
  have hfirst' : Finds (expression room 0 (first ++ ⟨.colon, colon⟩ :: (second ++ rest))) yes
      (⟨.colon, colon⟩ :: (second ++ rest)) := hyes.finds_closing hfirst (by decide)
  have hsecond' : Finds (expression room conditionalLevel (second ++ rest)) no rest :=
    hno.finds hsecond (admits_of_le_conditionalLevel (Nat.le_refl _) no) (hclosed _ rfl) hrest
  have hstart : Leads (expression room) level
      (before ++ ⟨.question, mark⟩ :: (first ++ ⟨.colon, colon⟩ :: (second ++ rest))) condition
      (⟨.question, mark⟩ :: (first ++ ⟨.colon, colon⟩ :: (second ++ rest))) := by
    refine hcondition.leads_enclosed hbefore (fun hle => ?_) (fun _ _ => nofun)
    have hprecedence : 1 < condition.precedence := Nat.not_lt.mp (of_decide_eq_false hle)
    exact ⟨admits_of_le_conditionalLevel hadmits condition, closed_question_iff.mpr hprecedence⟩
  have hstep : step? (expression room) level condition
      (⟨.question, mark⟩ :: (first ++ ⟨.colon, colon⟩ :: (second ++ rest))) =
      some (branchesOf (expression room) condition (first ++ ⟨.colon, colon⟩ :: (second ++ rest))) :=
    if_neg (Nat.not_lt.mpr hadmits)
  rw [List.append_assoc, List.append_assoc]
  refine hstart.step hstep (hfirst'.bind (b := Expr.conditional condition yes no) ?_)
  exact hsecond'.bind (.inl rfl)

theorem finds_items {close : Token} (hclose : close ∈ closing) (hcomma : close ≠ .comma)
    {items : List Expr} {fuel offset : Nat} (hitems : ∀ item ∈ items, Rereads item) (hne : items ≠ [])
    (hfuel : items.length ≤ fuel) (htokens : tokens.map Located.token = writtenItems items) :
    Finds (Parser.items (expression room) close fuel (tokens ++ ⟨close, offset⟩ :: rest)) items rest := by
  induction items generalizing fuel tokens with
  | nil => exact absurd rfl hne
  | cons item items ih =>
      obtain ⟨hfirst, hmore⟩ := List.forall_mem_cons.mp hitems
      obtain ⟨fuel, rfl⟩ := Nat.exists_eq_add_of_lt (Nat.lt_of_lt_of_le (Nat.succ_pos _) hfuel)
      rw [Nat.zero_add] at hfuel ⊢
      cases items with
      | nil =>
          have hitem : Finds (expression room 0 (tokens ++ ⟨close, offset⟩ :: rest)) item
              (⟨close, offset⟩ :: rest) := hfirst.finds_closing htokens hclose
          rcases hitem with hitem | hitem
          · left
            rw [Parser.items, hitem]
            simp [hcomma]
          · exact .inr (by rw [Parser.items, hitem])
      | cons next items =>
          obtain ⟨front, behind, rfl, hfront, hbehind⟩ := List.map_eq_append_iff.mp htokens
          obtain ⟨⟨_, comma⟩, others, rfl, rfl, hothers⟩ := List.map_eq_cons_iff.mp hbehind
          have hothers' : Finds
              (Parser.items (expression room) close fuel (others ++ ⟨close, offset⟩ :: rest))
              (next :: items) rest :=
            ih hmore (List.cons_ne_nil _ _) (Nat.le_of_succ_le_succ hfuel) hothers
          have hitem : Finds (expression room 0
              (front ++ ⟨.comma, comma⟩ :: (others ++ ⟨close, offset⟩ :: rest))) item
              (⟨.comma, comma⟩ :: (others ++ ⟨close, offset⟩ :: rest)) :=
            hfirst.finds_closing hfront (by decide)
          rw [List.append_assoc, List.cons_append]
          rcases hitem with hitem | hitem
          · rw [Parser.items, hitem]
            exact hothers'.map rfl
          · exact .inr (by rw [Parser.items, hitem])

/-- A list that does not end at once has items. -/
theorem list_eq_items {sub : Nat → Parser Expr} {close : Token} (hclose : close ∈ closing)
    (h : Begins (tokens.map Located.token)) :
    list sub close tokens = items sub close (tokens.length + 1) tokens := by
  obtain ⟨first, more, heq, hfirst⟩ := h
  obtain ⟨⟨found, _⟩, behind, rfl, rfl, _⟩ := List.map_eq_cons_iff.mp heq
  have hother : found ≠ close := fun hsame => hfirst (hsame ▸ hclose)
  exact if_neg hother

/-- A list, which may be empty, before the token that closes it. -/
theorem finds_list {close : Token} (hclose : close ∈ closing) (hcomma : close ≠ .comma)
    {items : List Expr} {offset : Nat} (hitems : ∀ item ∈ items, Rereads item)
    (htokens : tokens.map Located.token = writtenItems items) :
    Finds (list (expression room) close (tokens ++ ⟨close, offset⟩ :: rest)) items rest := by
  by_cases hne : items = []
  · subst hne
    obtain rfl := List.map_eq_nil_iff.mp htokens
    exact .inl (if_pos rfl)
  · have hfuel : items.length ≤ (tokens ++ ⟨close, offset⟩ :: rest).length + 1 := by
      have hle := length_le_writtenItems items
      rw [← htokens, List.length_map] at hle
      rw [List.length_append]
      omega
    have hbegins : Begins ((tokens ++ ⟨close, offset⟩ :: rest).map Located.token) := by
      rw [List.map_append, htokens]
      exact (begins_writtenItems hne).append _
    rw [list_eq_items hclose hbegins]
    exact finds_items hclose hcomma hitems hne hfuel htokens

theorem Rereads.array {items : List Expr} (hitems : ∀ item ∈ items, Rereads item) :
    Rereads (.array items) := by
  intro room level tokens rest htokens _ _ _
  obtain ⟨front, last, rfl, hfront, hlast⟩ := List.map_eq_append_iff.mp htokens
  obtain ⟨⟨_, _⟩, inner, rfl, rfl, hinner⟩ := List.map_eq_cons_iff.mp hfront
  obtain ⟨⟨_, offset⟩, rfl, rfl⟩ := List.map_eq_singleton_iff.mp hlast
  have hinside : Finds (list (expression room) .rightBracket
      (inner ++ ⟨.rightBracket, offset⟩ :: rest)) items rest :=
    finds_list (by decide) (by decide) hitems hinner
  rw [List.append_assoc]
  exact .of_operand (hinside.map rfl)

theorem Rereads.call {name : String} {args : List Expr} (hname : name ∉ reserved)
    (hargs : ∀ arg ∈ args, Rereads arg) : Rereads (.call name args) := by
  intro room level tokens rest htokens _ _ _
  obtain ⟨front, last, rfl, hfront, hlast⟩ := List.map_eq_append_iff.mp htokens
  obtain ⟨⟨_, _⟩, behind, rfl, rfl, hbehind⟩ := List.map_eq_cons_iff.mp hfront
  obtain ⟨⟨_, _⟩, inner, rfl, rfl, hinner⟩ := List.map_eq_cons_iff.mp hbehind
  obtain ⟨⟨_, offset⟩, rfl, rfl⟩ := List.map_eq_singleton_iff.mp hlast
  simp only [reserved, List.mem_cons, List.not_mem_nil, or_false, not_or] at hname
  obtain ⟨htrue, hfalse, hnull, hnot⟩ := hname
  have hinside : Finds (list (expression room) .rightParen
      (inner ++ ⟨.rightParen, offset⟩ :: rest)) args rest :=
    finds_list (by decide) (by decide) hargs hinner
  refine .of_operand ?_
  rw [List.append_assoc, List.cons_append, List.cons_append, operand]
  simp only [word, htrue, hfalse, hnull, hnot, if_false]
  exact hinside.map rfl

theorem finds_field {sub : Nat → Parser Expr} {value : Expr} (hvalue : Finds (sub 0 tokens) value rest)
    (key : String) (o o' : Nat) :
    Finds (field sub (⟨.word key, o⟩ :: ⟨.colon, o'⟩ :: tokens)) (key, value) rest :=
  hvalue.bind (.inl rfl)

theorem finds_fields {fields : List (String × Expr)} {fuel offset : Nat}
    (hfields : ∀ field ∈ fields, Rereads field.2) (hne : fields ≠ []) (hfuel : fields.length ≤ fuel)
    (htokens : tokens.map Located.token = writtenFields fields) :
    Finds (Parser.fields (expression room) fuel (tokens ++ ⟨.rightBrace, offset⟩ :: rest)) fields rest := by
  induction fields generalizing fuel tokens with
  | nil => exact absurd rfl hne
  | cons field fields ih =>
      obtain ⟨key, value⟩ := field
      obtain ⟨hfirst, hmore⟩ := List.forall_mem_cons.mp hfields
      obtain ⟨fuel, rfl⟩ := Nat.exists_eq_add_of_lt (Nat.lt_of_lt_of_le (Nat.succ_pos _) hfuel)
      rw [Nat.zero_add] at hfuel ⊢
      cases fields with
      | nil =>
          obtain ⟨⟨_, o⟩, behind, rfl, rfl, hbehind⟩ := List.map_eq_cons_iff.mp htokens
          obtain ⟨⟨_, o'⟩, inner, rfl, rfl, hinner⟩ := List.map_eq_cons_iff.mp hbehind
          have hvalue : Finds (expression room 0 (inner ++ ⟨.rightBrace, offset⟩ :: rest)) value
              (⟨.rightBrace, offset⟩ :: rest) := hfirst.finds_closing hinner (by decide)
          have hfield := finds_field hvalue key o o'
          rw [List.cons_append, List.cons_append]
          rcases hfield with hfield | hfield
          · left
            rw [Parser.fields, hfield]
            rfl
          · exact .inr (by rw [Parser.fields, hfield])
      | cons next fields =>
          obtain ⟨front, back, rfl, hfront, hback⟩ := List.map_eq_append_iff.mp htokens
          obtain ⟨⟨_, o⟩, behind, rfl, rfl, hbehind⟩ := List.map_eq_cons_iff.mp hfront
          obtain ⟨⟨_, o'⟩, inner, rfl, rfl, hinner⟩ := List.map_eq_cons_iff.mp hbehind
          obtain ⟨⟨_, comma⟩, others, rfl, rfl, hothers⟩ := List.map_eq_cons_iff.mp hback
          have hothers' : Finds
              (Parser.fields (expression room) fuel (others ++ ⟨.rightBrace, offset⟩ :: rest))
              (next :: fields) rest :=
            ih hmore (List.cons_ne_nil _ _) (Nat.le_of_succ_le_succ hfuel) hothers
          have hvalue : Finds (expression room 0
              (inner ++ ⟨.comma, comma⟩ :: (others ++ ⟨.rightBrace, offset⟩ :: rest))) value
              (⟨.comma, comma⟩ :: (others ++ ⟨.rightBrace, offset⟩ :: rest)) :=
            hfirst.finds_closing hinner (by decide)
          have hfield := finds_field hvalue key o o'
          rw [List.append_assoc, List.cons_append, List.cons_append]
          rcases hfield with hfield | hfield
          · rw [Parser.fields, List.cons_append, hfield]
            exact hothers'.map rfl
          · exact .inr (by rw [Parser.fields, List.cons_append, hfield])

theorem Rereads.object {fields : List (String × Expr)} (hfields : ∀ field ∈ fields, Rereads field.2) :
    Rereads (.object fields) := by
  intro room level tokens rest htokens _ _ _
  obtain ⟨front, last, rfl, hfront, hlast⟩ := List.map_eq_append_iff.mp htokens
  obtain ⟨⟨_, _⟩, inner, rfl, rfl, hinner⟩ := List.map_eq_cons_iff.mp hfront
  obtain ⟨⟨_, offset⟩, rfl, rfl⟩ := List.map_eq_singleton_iff.mp hlast
  refine .of_operand ?_
  rw [List.append_assoc]
  by_cases hne : fields = []
  · subst hne
    obtain rfl := List.map_eq_nil_iff.mp hinner
    exact .inl rfl
  · have hfuel : fields.length ≤ (inner ++ ⟨.rightBrace, offset⟩ :: rest).length := by
      have hle := length_le_writtenFields fields
      rw [← hinner, List.length_map] at hle
      rw [List.length_append]
      omega
    have hinside : Finds (Parser.fields (expression room)
        (inner ++ ⟨.rightBrace, offset⟩ :: rest).length (inner ++ ⟨.rightBrace, offset⟩ :: rest))
        fields rest := finds_fields hfields hne hfuel hinner
    obtain ⟨key, more, hwritten⟩ := exists_writtenFields hne
    obtain ⟨⟨_, _⟩, behind, rfl, rfl, _⟩ := List.map_eq_cons_iff.mp (hinner.trans hwritten)
    exact hinside.map rfl

end Forms

mutual

/-- **Wherever an expression can stand, its tokens are read as the expression.** -/
theorem rereads : ∀ expr : Expr, expr.Everywhere Named → Rereads expr
  | .literal value, _ => .literal value
  | .identifier _, hnamed => .identifier hnamed.2
  | .pointer, _ => .pointer
  | .member target _, hnamed => (rereads target hnamed.2).member
  | .index target position, hnamed =>
    (rereads target hnamed.2.1).index (rereads position hnamed.2.2)
  | .array items, hnamed => .array (rereads_items items hnamed.2)
  | .object fields, hnamed => .object (rereads_fields fields hnamed.2)
  | .unary _ operand, hnamed => (rereads operand hnamed.2).unary
  | .binary _ left right, hnamed => (rereads left hnamed.2.1).binary (rereads right hnamed.2.2)
  | .conditional condition yes no, hnamed =>
    (rereads condition hnamed.2.1).conditional (rereads yes hnamed.2.2.1) (rereads no hnamed.2.2.2)
  | .call _ args, hnamed => .call hnamed.1.2 (rereads_items args hnamed.2)

theorem rereads_items : ∀ items : List Expr, EverywhereInItems Named items → ∀ item ∈ items, Rereads item
  | [], _ => fun _ hitem => absurd hitem List.not_mem_nil
  | item :: rest, hnamed =>
    List.forall_mem_cons.mpr ⟨rereads item hnamed.1, rereads_items rest hnamed.2⟩

theorem rereads_fields : ∀ fields : List (String × Expr), EverywhereInFields Named fields →
    ∀ field ∈ fields, Rereads field.2
  | [], _ => fun _ hfield => absurd hfield List.not_mem_nil
  | (_, value) :: rest, hnamed =>
    List.forall_mem_cons.mpr ⟨rereads value hnamed.1, rereads_fields rest hnamed.2⟩

end

/-- Tokens that an expression is written with are read as the expression, or they are nested too deeply. -/
theorem parse_of_written {source : String} {expr : Expr} (hnamed : expr.Everywhere Named)
    {tokens : List Located} (htokens : Lexer.tokens source = .ok tokens)
    (hwritten : tokens.map Located.token = expr.written) :
    parse source = .ok expr ∨ parse source = .error .tooDeep := by
  have hfinds : Finds (expression maxDepth 0 (tokens ++ [])) expr [] :=
    (rereads expr hnamed).finds hwritten (admits_of_le_conditionalLevel (Nat.zero_le _) expr) rfl
      (fun _ _ => nofun)
  have hparse : parse source = whole tokens := by
    rw [parse, htokens]
    rfl
  rw [List.append_nil] at hfinds
  rw [hparse, whole]
  rcases hfinds with hok | hdeep
  · exact .inl (by rw [hok])
  · exact .inr (by rw [hdeep])

end Expr

/-- **A printed expression is read as the same expression**, or it is nested too deeply. Its keys have to be
words, its texts legible and its numbers finite. -/
theorem parse_print {source : String} {expr : Expr} (h : parse source = .ok expr)
    (hprintable : expr.Everywhere Expr.Printable) :
    parse expr.print = .ok expr ∨ parse expr.print = .error .tooDeep := by
  have hnamed : expr.Everywhere Expr.Named := Expr.named_of_parse h
  obtain ⟨found, hfound, hwritten⟩ := Expr.tokens_print hnamed hprintable
  exact Expr.parse_of_written hnamed hfound hwritten

/-- With parentheses that are needed and others that are not, powers to the right and to the left, and an
operator for a name. -/
theorem parse_print_powers :
    ∃ expr, parse "((a or b)) ^ (c ^ d) ? (f(#) ^ e)['q'] : \x7bk: not in\x7d" = .ok expr ∧
      expr.Everywhere Expr.Printable ∧
      (parse expr.print = .ok expr ∨ parse expr.print = .error .tooDeep) := by
  have hparse : parse "((a or b)) ^ (c ^ d) ? (f(#) ^ e)['q'] : \x7bk: not in\x7d" = .ok
      (.conditional
        (.binary .power (.binary .or (.identifier "a") (.identifier "b"))
          (.binary .power (.identifier "c") (.identifier "d")))
        (.index (.binary .power (.call "f" [.pointer]) (.identifier "e")) (.literal (.text "q")))
        (.object [("k", .unary .not (.identifier "in"))])) := rfl
  have hkey : Text.IsWord "k" := by decide
  have hlegible : ∀ c ∈ "q".toList, Text.IsLegible c := List.forall_mem_singleton.mpr (by decide)
  refine ⟨_, hparse, ?_, parse_print hparse ?_⟩ <;>
    simp [Expr.Everywhere, Expr.EverywhereInItems, Expr.EverywhereInFields, Expr.Printable, hkey, hlegible]

end DecisionGraph
