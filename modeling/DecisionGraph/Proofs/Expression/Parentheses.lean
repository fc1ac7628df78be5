import DecisionGraph.Proofs.Expression.Printed
import DecisionGraph.Proofs.Expression.Splitting

/-!
# Printed parentheses are needed

Every text that is read as an expression has as many opening parentheses as the printed one
(`count_leftParen_print_le`). So when a pair of parentheses is taken out of the printed text, what is left
cannot be read as the expression any more, whatever else it may be (`parse_without_pair`).

Parentheses are counted along the grammar. A call is read with one and written with one. Around an operand one
is written if the operand binds less tightly than its place asks for, and there it was also read with one: an
operand that the parser takes without parentheses is admitted by the level that was asked for, and closed
against the tokens behind it, and this is what the printer goes by. So the invariant of a chain is that its
left part has paid for a parenthesis unless it is admitted and closed (`Parser.Paid`).

In texts between quotes parentheses stand for themselves, so they can be counted in the source and in the
printed text alike.
-/

namespace DecisionGraph

/-- How many opening parentheses the tokens were read from, those in texts included. -/
def openings (tokens : List Token) : Nat := (tokens.map (Lexer.occurrences (· == '('))).sum

section Openings

variable (tokens more : List Token)

@[simp] theorem openings_nil : openings [] = 0 := rfl

@[simp] theorem openings_cons (token : Token) :
    openings (token :: tokens) = Lexer.occurrences (· == '(') token + openings tokens := rfl

@[simp] theorem openings_append : openings (tokens ++ more) = openings tokens + openings more := by
  unfold openings
  rw [List.map_append, List.sum_append]

@[simp] theorem openings_enclosed (needed : Bool) :
    openings (Expr.enclosed needed tokens) = openings tokens + needed.toNat := by
  cases needed with
  | false => rfl
  | true =>
      simp [Expr.enclosed, Lexer.occurrences]
      omega

end Openings

namespace Expr

@[simp] theorem openings_writtenItems (items : List Expr) :
    openings (writtenItems items) = (items.map fun item => openings item.written).sum := by
  induction items with
  | nil => rfl
  | cons item rest ih =>
      cases rest with
      | nil => simp [writtenItems]
      | cons next rest =>
          rw [writtenItems, openings_append, openings_cons, ih]
          · simp [Lexer.occurrences]
          · exact List.cons_ne_nil _ _

@[simp] theorem openings_writtenFields (fields : List (String × Expr)) :
    openings (writtenFields fields) = (fields.map fun field => openings field.2.written).sum := by
  induction fields with
  | nil => rfl
  | cons field rest ih =>
      obtain ⟨key, value⟩ := field
      cases rest with
      | nil => simp [writtenFields, Lexer.occurrences]
      | cons next rest =>
          rw [writtenFields, List.cons_append, List.cons_append, openings_cons, openings_cons, openings_append,
            openings_cons, ih]
          · simp [Lexer.occurrences]
          · exact List.cons_ne_nil _ _

end Expr

namespace Parser

/-- How many opening parentheses the tokens were read from. -/
def opened (tokens : List Located) : Nat := openings (tokens.map Located.token)

@[simp] theorem opened_cons (found : Located) (tokens : List Located) :
    opened (found :: tokens) = Lexer.occurrences (· == '(') found.token + opened tokens := rfl

/-- Operators are read and written without parentheses. -/
theorem opened_operator {op : BinaryOp} {tokens rest : List Located}
    (h : operator? tokens = some (op, rest)) : opened tokens = opened rest ∧ openings op.tokens = 0 := by
  refine ⟨?_, by cases op <;> rfl⟩
  cases operator?_eq_some h <;> simp [Lexer.occurrences]

section Relations

variable {R : Nat → List Located → Expr → List Located → Prop} {tokens rest : List Located}

/-- Subexpressions are read from as many opening parentheses as they are written with, and from one more
where they cannot stand without. -/
def Pays (R : Nat → List Located → Expr → List Located → Prop) : Prop :=
  ∀ {level : Nat} {tokens : List Located} {expr : Expr} {rest : List Located},
    R level tokens expr rest → goesOn level rest = false ∧ ∀ needed : Bool,
      (needed = true → ¬expr.Admits level) →
        opened rest + openings (Expr.enclosed needed expr.written) ≤ opened tokens

section Lists

variable (hR : Pays R)
include hR

theorem Pays.written {level : Nat} {expr : Expr} (h : R level tokens expr rest) :
    opened rest + openings expr.written ≤ opened tokens :=
  (hR h).2 false nofun

theorem Items.pays {close : Token} {items : List Expr} (h : Items R close tokens items rest) :
    opened rest + openings (Expr.writtenItems items) ≤ opened tokens := by
  induction h with
  | last hitem =>
      have hpays := hR.written hitem
      simp only [opened_cons, Expr.openings_writtenItems, List.map_cons, List.map_nil, List.sum_cons,
        List.sum_nil] at hpays ⊢
      omega
  | more hitem _ ih =>
      have hpays := hR.written hitem
      simp only [opened_cons, Expr.openings_writtenItems, List.map_cons, List.sum_cons] at hpays ih ⊢
      omega

theorem Listed.pays {close : Token} {items : List Expr} (h : Listed R close tokens items rest) :
    opened rest + openings (Expr.writtenItems items) ≤ opened tokens := by
  cases h with
  | empty => exact Nat.le_add_left ..
  | items hitems => exact hitems.pays hR

theorem Fields.pays {fields : List (String × Expr)} (h : Fields R tokens fields rest) :
    opened rest + openings (Expr.writtenFields fields) ≤ opened tokens := by
  induction h with
  | last _ hvalue =>
      have hpays := hR.written hvalue
      simp only [opened_cons, Expr.openings_writtenFields, List.map_cons, List.map_nil, List.sum_cons,
        List.sum_nil] at hpays ⊢
      omega
  | more _ hvalue _ ih =>
      have hpays := hR.written hvalue
      simp only [opened_cons, Expr.openings_writtenFields, List.map_cons, List.sum_cons] at hpays ih ⊢
      omega

theorem Entries.pays {fields : List (String × Expr)} (h : Entries R tokens fields rest) :
    opened rest + openings (Expr.writtenFields fields) ≤ opened tokens := by
  cases h with
  | empty => exact Nat.le_add_left ..
  | fields hfields => exact hfields.pays hR

end Lists

/-- The expression was read from as many opening parentheses as it is written with, out of a number of which
the tokens behind it are left. There was one more if it would not have been read here without. -/
def Paid (level budget : Nat) (expr : Expr) (rest : List Located) : Prop :=
  ∀ needed : Bool, (needed = true → ¬(expr.Admits level ∧ expr.Closed rest)) →
    opened rest + openings (Expr.enclosed needed expr.written) ≤ budget

/-- Where it stands without parentheses. -/
theorem Paid.of_bare {level budget : Nat} {expr : Expr} (hbare : expr.Admits level ∧ expr.Closed rest)
    (h : opened rest + openings expr.written ≤ budget) : Paid level budget expr rest := by
  intro needed hneeded
  cases needed with
  | false => exact h
  | true => exact absurd hbare (hneeded rfl)

theorem Operand.paid (hR : Pays R) {expr : Expr} (h : Operand R tokens expr rest) (level : Nat) :
    Paid level (opened tokens) expr rest := by
  cases h with
  | leaf hleaf =>
      refine .of_bare ?_ ?_
      · cases hleaf <;> exact ⟨trivial, Expr.closed_of_lastLevel?_eq_none rfl rest⟩
      · cases hleaf <;> simp [Expr.written, Literal.token] <;> omega
  | identifier =>
      refine .of_bare ⟨trivial, Expr.closed_of_lastLevel?_eq_none rfl rest⟩ ?_
      simp [Expr.written]
      omega
  | @unary token op _ _ operand _ hop hoperand =>
      obtain ⟨hstop, hpays⟩ := hR hoperand
      refine .of_bare ⟨trivial, ?_⟩ ?_
      · rintro _ ⟨⟩
        exact hstop
      · have hadmits := @Expr.admits_unaryLevel_iff op operand
        have hoperand := hpays (operand.precedence < 10) fun hneeded hadmitted =>
          (of_decide_eq_true hneeded).not_ge (hadmits.mp hadmitted)
        have htoken : Lexer.occurrences (· == '(') op.token = 0 := by cases op <;> rfl
        rw [opened_cons, Expr.written, openings_cons, htoken]
        omega
  | group hinner =>
      -- the parenthesis itself pays for whatever is asked
      intro needed _
      have hpays := hR.written hinner
      simp only [opened_cons, openings_enclosed, Lexer.occurrences] at hpays ⊢
      have hle := needed.toNat_le
      have hone : ('(' == '(').toNat = 1 := rfl
      omega
  | array hitems =>
      have hpays := hitems.pays hR
      refine .of_bare ⟨trivial, Expr.closed_of_lastLevel?_eq_none rfl rest⟩ ?_
      simp only [opened_cons, Expr.written, openings_cons, openings_append, openings_nil,
        Lexer.occurrences] at hpays ⊢
      omega
  | object hfields =>
      have hpays := hfields.pays hR
      refine .of_bare ⟨trivial, Expr.closed_of_lastLevel?_eq_none rfl rest⟩ ?_
      simp only [opened_cons, Expr.written, openings_cons, openings_append, openings_nil,
        Lexer.occurrences] at hpays ⊢
      omega
  | call _ hargs =>
      have hpays := hargs.pays hR
      refine .of_bare ⟨trivial, Expr.closed_of_lastLevel?_eq_none rfl rest⟩ ?_
      simp only [opened_cons, Expr.written, openings_cons, openings_append, openings_nil,
        Lexer.occurrences] at hpays ⊢
      omega

/-- A step keeps the invariant of its chain. -/
theorem Step.paid (hR : Pays R) {level budget : Nat} {left next : Expr}
    (h : Step R level left tokens next rest) (hleft : Paid level budget left tokens) :
    Paid level budget next rest := by
  cases h with
  | member =>
      have htarget := hleft (left.precedence < 11) fun hneeded hbare =>
        (of_decide_eq_true hneeded).not_ge ((Expr.closed_postfix_iff fun _ => rfl).mp hbare.2)
      refine .of_bare ⟨trivial, Expr.closed_of_lastLevel?_eq_none rfl rest⟩ ?_
      simp only [opened_cons, Expr.written, openings_cons, openings_append, openings_nil,
        Lexer.occurrences] at htarget ⊢
      omega
  | index hposition =>
      have htarget := hleft (left.precedence < 11) fun hneeded hbare =>
        (of_decide_eq_true hneeded).not_ge ((Expr.closed_postfix_iff fun _ => rfl).mp hbare.2)
      have hpays := hR.written hposition
      refine .of_bare ⟨trivial, Expr.closed_of_lastLevel?_eq_none rfl rest⟩ ?_
      simp only [opened_cons, Expr.written, openings_cons, openings_append, openings_nil,
        Lexer.occurrences] at htarget hpays ⊢
      omega
  | conditional hlevel hyes hno =>
      have hcondition := hleft (left.precedence < 2) fun hneeded hbare =>
        (of_decide_eq_true hneeded).not_ge (Expr.closed_question_iff.mp hbare.2)
      have hpaysYes := hR.written hyes
      have hpaysNo := hR.written hno
      refine .of_bare ⟨hlevel, ?_⟩ ?_
      · rintro _ ⟨⟩
        exact (hR hno).1
      · simp only [opened_cons, Expr.written, openings_cons, openings_append,
          Lexer.occurrences] at hcondition hpaysYes hpaysNo ⊢
        omega
  | @binary _ _ _ op right hop hlevel hright =>
      have hleft := hleft (left.precedence < op.leftPrecedence) fun hneeded hbare =>
        (of_decide_eq_true hneeded).not_ge ((Expr.closed_operator_iff hop).mp hbare.2)
      obtain ⟨hstop, hpays⟩ := hR hright
      have hright := hpays (right.precedence < op.rightPrecedence) fun hneeded hadmits =>
        (of_decide_eq_true hneeded).not_ge (Expr.admits_rightLevel_iff.mp hadmits)
      obtain ⟨hopened, hoperator⟩ := opened_operator hop
      refine .of_bare ⟨hlevel, ?_⟩ ?_
      · rintro _ ⟨⟩
        exact hstop
      · simp only [Expr.written, openings_append, hoperator] at hleft hright ⊢
        omega

theorem Chain.paid (hR : Pays R) {level room budget : Nat} {left expr : Expr}
    (h : Chain R level room left tokens expr rest) (hleft : Paid level budget left tokens) :
    Paid level budget expr rest := by
  induction h with
  | stop => exact hleft
  | step hstep _ ih => exact ih (hstep.paid hR hleft)

end Relations

theorem Reads.pays (room : Nat) : Pays (Reads room) := by
  induction room with
  | zero => exact fun h => h.elim
  | succ room ih =>
      intro level tokens expr rest h
      refine ⟨h.stops, fun needed hneeded => ?_⟩
      obtain ⟨first, middle, hfirst, hchain⟩ := h
      exact hchain.paid ih (hfirst.paid ih level) needed fun h hbare => hneeded h hbare.1

end Parser

/-- **No text with fewer opening parentheses is read as the expression** than the printed one, be they between
its operands, in its calls or in its texts. -/
theorem count_leftParen_print_le {source : String} {expr : Expr} (h : parse source = .ok expr)
    (hprintable : expr.Everywhere Expr.Printable) :
    expr.print.toList.count '(' ≤ source.toList.count '(' := by
  obtain ⟨tokens, htokens, hreads⟩ := Parser.reads_of_parse h
  obtain ⟨found, hfound, hwritten⟩ :=
    Expr.tokens_print (Expr.named_of_parse h) hprintable
  have hpays := Parser.Pays.written (Parser.Reads.pays _) hreads
  have hprint := (Lexer.lexes_of_tokens hfound).countP_delimiter Lexer.delimiter_leftParen
  have hsource := (Lexer.lexes_of_tokens htokens).countP_delimiter Lexer.delimiter_leftParen
  rw [hwritten] at hprint
  rw [List.count_eq_countP, List.count_eq_countP, hprint, hsource]
  exact Nat.le_of_add_left_le hpays

/--
**Printed parentheses are needed.**

Take any pair of parentheses out of the printed text of an expression, and what is left is not read as the
expression. The pair may stand around an operand, behind the name of a call, or within a text. Keys have to be
words, texts legible and numbers finite, as it takes for the printed text to be read as the expression.
-/
theorem parse_without_pair {expr : Expr} (hprintable : expr.Everywhere Expr.Printable)
    {before inside behind : String} (hpair : expr.print = before ++ "(" ++ inside ++ ")" ++ behind) :
    parse (before ++ inside ++ behind) ≠ .ok expr := by
  intro hparse
  have hle := count_leftParen_print_le hparse hprintable
  rw [hpair] at hle
  simp only [String.toList_append, List.count_append] at hle
  have hone : "(".toList.count '(' = 1 := rfl
  omega

/-- A sum as a factor, and a factor that is negated as a whole. -/
theorem parse_without_pair_product :
    ∃ expr, parse "(a + b) * -((c or 'd'))" = .ok expr ∧ expr.Everywhere Expr.Printable
      ∧ expr.print = "" ++ "(" ++ "a + b" ++ ")" ++ " * -(c or \"d\")"
      ∧ parse ("" ++ "a + b" ++ " * -(c or \"d\")") ≠ .ok expr
      ∧ expr.print = "(a + b) * -" ++ "(" ++ "c or \"d\"" ++ ")" ++ ""
      ∧ parse ("(a + b) * -" ++ "c or \"d\"" ++ "") ≠ .ok expr := by
  have hparse : parse "(a + b) * -((c or 'd'))" = .ok
      (.binary .multiply (.binary .add (.identifier "a") (.identifier "b"))
        (.unary .negate (.binary .or (.identifier "c") (.literal (.text "d"))))) := rfl
  have hlegible : ∀ c ∈ "d".toList, Text.IsLegible c := List.forall_mem_singleton.mpr (by decide)
  have hprintable : (Expr.binary .multiply (.binary .add (.identifier "a") (.identifier "b"))
      (.unary .negate (.binary .or (.identifier "c") (.literal (.text "d"))))).Everywhere
        Expr.Printable := by
    simp [Expr.Everywhere, Expr.Printable, hlegible]
  exact ⟨_, hparse, hprintable, by rfl, parse_without_pair hprintable (by rfl), by rfl,
    parse_without_pair hprintable (by rfl)⟩

end DecisionGraph
