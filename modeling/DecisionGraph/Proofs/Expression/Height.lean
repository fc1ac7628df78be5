import DecisionGraph.Proofs.Expression.Everywhere
import Mathlib.Data.List.Chain
import Mathlib.Tactic.Ring

/-!
# How high the tree of an expression gets

The parser counts levels: one for every expression inside another, and one for every step of a chain. But a
step counts at the place where its chain stands, while the parts of the chain have all the levels below that
place to themselves, however many steps are taken over them. So the levels of a part and the steps over it
add up, level by level.

* `Reads.height_le`: with `n` levels a tree is no higher than `n (n + 1) / 2`.
* `Reads.height_le_of_lefts`: it is no higher than `n` if what lies under the steps is within `n`.
* `Reads.height_le_of_covered`: where parentheses are only put around arguments, the steps of a chain
  themselves are counted right, and only the parts that they are taken over can be too deep.

**`height_of_parse`** says so of the parser and its number of levels.
-/

namespace DecisionGraph

namespace Expr

mutual

/-- The number of nodes on the longest way from the root to a leaf. -/
def height : Expr → Nat
  | .literal _ | .identifier _ | .pointer => 1
  | .member target _ => 1 + height target
  | .index target position => 1 + max (height target) (height position)
  | .array items => 1 + heightOfItems items
  | .object fields => 1 + heightOfFields fields
  | .unary _ operand => 1 + height operand
  | .binary _ left right => 1 + max (height left) (height right)
  | .conditional condition yes no => 1 + max (height condition) (max (height yes) (height no))
  | .call _ args => 1 + heightOfItems args

/-- The height of the highest item. -/
def heightOfItems : List Expr → Nat
  | [] => 0
  | item :: rest => max (height item) (heightOfItems rest)

/-- The height of the highest value. -/
def heightOfFields : List (String × Expr) → Nat
  | [] => 0
  | (_, value) :: rest => max (height value) (heightOfFields rest)

end

theorem height_pos (expr : Expr) : 1 ≤ expr.height := by
  cases expr <;> simp only [height] <;> omega

theorem heightOfItems_le_iff {items : List Expr} {n : Nat} :
    heightOfItems items ≤ n ↔ ∀ item ∈ items, item.height ≤ n := by
  induction items with
  | nil => simp [heightOfItems]
  | cons item rest ih => simp [heightOfItems, ih]

theorem heightOfFields_le_iff {fields : List (String × Expr)} {n : Nat} :
    heightOfFields fields ≤ n ↔ ∀ field ∈ fields, field.2.height ≤ n := by
  induction fields with
  | nil => simp [heightOfFields]
  | cons field rest ih => simp [heightOfFields, ih]

/-- What a step of a chain is taken on. -/
def left? : Expr → Option Expr
  | .member target _ | .index target _ => some target
  | .binary _ left _ => some left
  | .conditional condition _ _ => some condition
  | _ => none

/-- The parts that are expressions of their own. -/
def parts : Expr → List Expr
  | .index _ position => [position]
  | .binary _ _ right => [right]
  | .conditional _ yes no => [yes, no]
  | .unary _ operand => [operand]
  | .array items | .call _ items => items
  | .object fields => fields.map Prod.snd
  | _ => []

theorem height_le_succ_iff {expr : Expr} {n : Nat} :
    expr.height ≤ n + 1 ↔ (∀ left ∈ expr.left?, left.height ≤ n) ∧ ∀ part ∈ expr.parts, part.height ≤ n := by
  cases expr with
  | object fields =>
      simp only [height, left?, parts, Nat.add_comm 1, Nat.succ_le_succ_iff, heightOfFields_le_iff,
        List.forall_mem_map]
      exact ⟨fun h => ⟨nofun, h⟩, And.right⟩
  | _ => simp [height, left?, parts, heightOfItems_le_iff, Nat.add_comm 1]

/-- The number of steps in the chain that the expression is. -/
def steps : Expr → Nat
  | .member target _ | .index target _ => steps target + 1
  | .binary _ left _ => steps left + 1
  | .conditional condition _ _ => steps condition + 1
  | _ => 0

theorem steps_of_left? {expr left : Expr} (h : expr.left? = some left) : expr.steps = left.steps + 1 := by
  cases expr <;> cases h <;> rfl

theorem steps_of_left?_none {expr : Expr} (h : expr.left? = none) : expr.steps = 0 := by
  cases expr <;> first | rfl | cases h

/-- Another expression is found so many nodes below the root. -/
inductive Below : Expr → Nat → Expr → Prop
  | root {expr : Expr} : Below expr 0 expr
  | left {expr left found : Expr} {depth : Nat} (hleft : left ∈ expr.left?) (h : Below left depth found) :
      Below expr (depth + 1) found
  | part {expr part found : Expr} {depth : Nat} (hpart : part ∈ expr.parts) (h : Below part depth found) :
      Below expr (depth + 1) found

theorem height_lt_of_left {expr left : Expr} (h : left ∈ expr.left?) : left.height + 1 ≤ expr.height := by
  have hpos := expr.height_pos
  have hbound : expr.height ≤ expr.height - 1 + 1 := by omega
  have := (height_le_succ_iff.mp hbound).1 left h
  omega

theorem height_lt_of_part {expr part : Expr} (h : part ∈ expr.parts) : part.height + 1 ≤ expr.height := by
  have hpos := expr.height_pos
  have hbound : expr.height ≤ expr.height - 1 + 1 := by omega
  have := (height_le_succ_iff.mp hbound).2 part h
  omega

theorem Below.height_le {expr found : Expr} {depth : Nat} (h : expr.Below depth found) :
    depth + found.height ≤ expr.height := by
  induction h with
  | root => exact Nat.le_of_eq (Nat.zero_add _)
  | left hleft _ ih =>
      have := height_lt_of_left hleft
      omega
  | part hpart _ ih =>
      have := height_lt_of_part hpart
      omega

/-- So many nodes below the root there is a step that is taken on this. -/
inductive Stepped (expr : Expr) : Nat → Expr → Prop
  | intro {step left : Expr} {depth : Nat} (h : expr.Below depth step) (hleft : left ∈ step.left?) :
      Stepped expr (depth + 1) left

/-- So many nodes below the root lies a part of a chain, and more steps of the chain are taken over it. -/
inductive Covered (expr : Expr) : Nat → Expr → Prop
  | intro {left part : Expr} {depth : Nat} (h : expr.Stepped depth left) (hpart : part ∈ left.parts) :
      Covered expr (depth + 1) part

theorem Stepped.height_le {expr left : Expr} {depth : Nat} (h : expr.Stepped depth left) :
    depth + left.height ≤ expr.height := by
  obtain ⟨hstep, hleft⟩ := h
  have := hstep.height_le
  have := height_lt_of_left hleft
  omega

theorem Covered.height_le {expr part : Expr} {depth : Nat} (h : expr.Covered depth part) :
    depth + part.height ≤ expr.height := by
  obtain ⟨hleft, hpart⟩ := h
  have := hleft.height_le
  have := height_lt_of_part hpart
  omega

theorem Stepped.left {expr left found : Expr} {depth : Nat} (hleft : left ∈ expr.left?)
    (h : left.Stepped depth found) : expr.Stepped (depth + 1) found := by
  obtain ⟨hstep, hfound⟩ := h
  exact ⟨.left hleft hstep, hfound⟩

theorem Stepped.part {expr part found : Expr} {depth : Nat} (hpart : part ∈ expr.parts)
    (h : part.Stepped depth found) : expr.Stepped (depth + 1) found := by
  obtain ⟨hstep, hfound⟩ := h
  exact ⟨.part hpart hstep, hfound⟩

theorem Covered.left {expr left found : Expr} {depth : Nat} (hleft : left ∈ expr.left?)
    (h : left.Covered depth found) : expr.Covered (depth + 1) found := by
  obtain ⟨hstepped, hfound⟩ := h
  exact ⟨hstepped.left hleft, hfound⟩

theorem Covered.part {expr part found : Expr} {depth : Nat} (hpart : part ∈ expr.parts)
    (h : part.Covered depth found) : expr.Covered (depth + 1) found := by
  obtain ⟨hstepped, hfound⟩ := h
  exact ⟨hstepped.part hpart, hfound⟩

/-- Everything that lies under steps is within `n`. -/
def SteppedWithin (n : Nat) (expr : Expr) : Prop :=
  ∀ depth left, expr.Stepped depth left → depth + left.height ≤ n

/-- Everything that lies under steps and is not itself one of the steps of the chain is within `n`. -/
def CoveredWithin (n : Nat) (expr : Expr) : Prop :=
  ∀ depth part, expr.Covered depth part → depth + part.height ≤ n

theorem SteppedWithin.part {n : Nat} {expr part : Expr} (h : expr.SteppedWithin (n + 1))
    (hpart : part ∈ expr.parts) : part.SteppedWithin n := fun depth left hleft => by
  have := h (depth + 1) left (hleft.part hpart)
  omega

theorem CoveredWithin.part {n : Nat} {expr part : Expr} (h : expr.CoveredWithin (n + 1))
    (hpart : part ∈ expr.parts) : part.CoveredWithin n := fun depth found hfound => by
  have := h (depth + 1) found (hfound.part hpart)
  omega

theorem CoveredWithin.left {n : Nat} {expr left : Expr} (h : expr.CoveredWithin (n + 1))
    (hleft : left ∈ expr.left?) : left.CoveredWithin n := fun depth found hfound => by
  have := h (depth + 1) found (hfound.left hleft)
  omega

/-- What lies under a step makes it high, or else one of its own parts does. -/
theorem height_le_of_stepped {n : Nat} {expr : Expr} (hparts : ∀ part ∈ expr.parts, part.height ≤ n)
    (hstepped : expr.SteppedWithin (n + 1)) : expr.height ≤ n + 1 := by
  refine height_le_succ_iff.mpr ⟨fun left hleft => ?_, hparts⟩
  have := hstepped 1 left ⟨.root, hleft⟩
  omega

/-- The steps of a chain make it high, or else one of its parts does: one of its own, or one that it
covers. -/
theorem height_le_of_steps {n : Nat} {expr : Expr} (hsteps : expr.steps ≤ n)
    (hparts : ∀ part ∈ expr.parts, part.height ≤ n) (hcovered : expr.CoveredWithin (n + 1)) :
    expr.height ≤ n + 1 := by
  refine height_le_succ_iff.mpr ⟨fun left hleft => ?_, hparts⟩
  -- one step less in the left part, whose parts are covered by this step
  have hcount := steps_of_left? hleft
  obtain ⟨n, rfl⟩ : ∃ m, n = m + 1 := ⟨n - 1, by omega⟩
  refine height_le_of_steps (by omega) (fun part hpart => ?_) (hcovered.left hleft)
  have := hcovered _ _ ⟨⟨.root, hleft⟩, hpart⟩
  omega
termination_by n

end Expr

namespace Parser

/-- Parentheses stand only behind names, around the arguments of calls. -/
def Ungrouped (tokens : List Located) : Prop :=
  (∀ found ∈ tokens.head?, found.token ≠ .leftParen) ∧
    tokens.IsChain fun found next => next.token = .leftParen → isCallee found.token = true

instance (tokens : List Located) : Decidable (Ungrouped tokens) := inferInstanceAs (Decidable (_ ∧ _))

theorem Ungrouped.behind {tokens : List Located} (h : Ungrouped tokens) : Behind Ungrouped tokens := by
  intro found rest hsuffix hfound
  have hchain := h.2.suffix hsuffix
  refine ⟨fun next hnext hparen => ?_, hchain.tail⟩
  cases rest with
  | nil => cases hnext
  | cons next more =>
      obtain rfl := Option.some.inj hnext
      rw [(List.isChain_cons_cons.mp hchain).1 hparen] at hfound
      cases hfound

section Relations

variable {R : Nat → List Located → Expr → List Located → Prop} {P : List Located → Prop} {G : Expr → Prop}

/-- An operand is no step, and its parts are subexpressions, or it is one in parentheses. -/
theorem Operand.parts (hspans : Faithful R) (hG : Yields R P G) {tokens rest : List Located} {expr : Expr}
    (h : Operand R tokens expr rest) (hP : Behind P tokens) :
    (expr.left? = none ∧ ∀ part ∈ expr.parts, G part) ∨
      (G expr ∧ ∃ found ∈ tokens.head?, found.token = .leftParen) := by
  cases h with
  | leaf hleaf => cases hleaf <;> exact Or.inl ⟨rfl, List.forall_mem_nil _⟩
  | identifier => exact Or.inl ⟨rfl, List.forall_mem_nil _⟩
  | unary hop hoperand =>
      exact Or.inl ⟨rfl, List.forall_mem_singleton.mpr (hG hoperand (hP.head hop.isCallee_eq))⟩
  | group hinner => exact Or.inr ⟨hG hinner (hP.head rfl), _, rfl, rfl⟩
  | array hitems => exact Or.inl ⟨rfl, hitems.forall hspans hG (hP.head rfl) hP.tail⟩
  | object hfields =>
      have hvalues := hfields.forall hspans hG hP.tail
      exact Or.inl ⟨rfl, List.forall_mem_map.mpr hvalues⟩
  | call _ hargs => exact Or.inl ⟨rfl, hargs.forall hspans hG (hP.tail.head rfl) hP.tail.tail⟩

theorem Step.left?_eq {level : Nat} {left next : Expr} {tokens rest : List Located}
    (h : Step R level left tokens next rest) : next.left? = some left := by
  cases h <;> rfl

/-- The parts of a step are subexpressions. -/
theorem Step.parts (hspans : Faithful R) (hG : Yields R P G) {level : Nat} {left next : Expr}
    {tokens rest : List Located} (h : Step R level left tokens next rest) (hP : Behind P tokens) :
    ∀ part ∈ next.parts, G part := by
  cases h with
  | member => exact List.forall_mem_nil _
  | index hposition => exact List.forall_mem_singleton.mpr (hG hposition (hP.head rfl))
  | conditional _ hyes hno =>
      have hcolon := (hspans hyes).behind hP.tail
      have hlast := List.forall_mem_singleton.mpr (hG hno (hcolon.head rfl))
      exact List.forall_mem_cons.mpr ⟨hG hyes (hP.head rfl), hlast⟩
  | binary hop _ hright =>
      obtain ⟨found, hsuffix, hfound⟩ := operator?_isCallee hop
      exact List.forall_mem_singleton.mpr (hG hright (hP found _ hsuffix hfound))

/-- What a chain ends with is what it started with, or one of its steps. -/
theorem Chain.parts (hspans : Faithful R) (hG : Yields R P G) {level room : Nat} {left expr : Expr}
    {tokens rest : List Located} (h : Chain R level room left tokens expr rest) (hP : Behind P tokens) :
    expr = left ∨ ∀ part ∈ expr.parts, G part := by
  induction h with
  | stop => exact Or.inl rfl
  | step hstep _ ih =>
      obtain ⟨_, _, hstepped⟩ := hstep.spans hspans
      rcases ih (hstepped.behind hP) with rfl | hparts
      · exact Or.inr (hstep.parts hspans hG hP)
      · exact Or.inr hparts

/-- A chain has no more steps than there are levels for. -/
theorem Chain.steps_le {level room : Nat} {left expr : Expr} {tokens rest : List Located}
    (h : Chain R level room left tokens expr rest) : expr.steps ≤ left.steps + room := by
  induction h with
  | stop => exact Nat.le_add_right _ _
  | step hstep _ ih =>
      have := Expr.steps_of_left? hstep.left?_eq
      omega

theorem Chain.height_le (hspans : Faithful R) {n : Nat}
    (hR : Yields R (fun _ => True) fun expr => expr.height ≤ n) {level room : Nat} {left expr : Expr}
    {tokens rest : List Located} (h : Chain R level room left tokens expr rest) :
    expr.height ≤ room + max left.height n := by
  induction h with
  | stop => omega
  | @step _ left next _ _ _ _ hstep _ ih =>
      -- one node for the step, which uses up one level of the chain
      have hparts := hstep.parts hspans hR fun _ _ _ _ => trivial
      have hnext : next.height ≤ max left.height n + 1 := by
        refine Expr.height_le_succ_iff.mpr ⟨fun part hpart => ?_, fun part hpart => ?_⟩
        · obtain rfl := Option.some.inj (hstep.left?_eq.symm.trans hpart)
          exact Nat.le_max_left _ _
        · exact Nat.le_trans (hparts part hpart) (Nat.le_max_right _ _)
      omega

end Relations

/-- **With `n` levels a tree is no higher than `n (n + 1) / 2`.** -/
theorem Reads.height_le {room level : Nat} {tokens rest : List Located} {expr : Expr}
    (h : Reads room level tokens expr rest) : 2 * expr.height ≤ room * (room + 1) := by
  induction room generalizing level tokens expr rest with
  | zero => exact h.elim
  | succ room ih =>
      obtain ⟨first, middle, hfirst, hchain⟩ := h
      have hR : Yields (Reads room) (fun _ => True) fun expr => expr.height ≤ room * (room + 1) / 2 :=
        fun hsub _ => by
          have := ih hsub
          omega
      have hoperand : first.height ≤ room * (room + 1) / 2 + 1 := by
        rcases hfirst.parts Reads.spans hR fun _ _ _ _ => trivial with ⟨hleft, hparts⟩ | ⟨hinner, _⟩
        · exact Expr.height_le_succ_iff.mpr ⟨by simp [hleft], hparts⟩
        · exact Nat.le_succ_of_le hinner
      have hheight := hchain.height_le Reads.spans hR
      have hdouble : 2 * (room * (room + 1) / 2) ≤ room * (room + 1) := Nat.mul_div_le _ 2
      have hsum : (room + 1) * (room + 1 + 1) = room * (room + 1) + 2 * room + 2 := by ring
      omega

/-- A tree is within any bound that the levels are within, if what lies under its steps is. -/
theorem Reads.height_le_of_stepped (room : Nat) : Yields (Reads room) (fun _ => True) fun expr =>
    ∀ n, room ≤ n → expr.SteppedWithin n → expr.height ≤ n := by
  induction room with
  | zero => exact fun h => h.elim
  | succ room ih =>
      intro level tokens expr rest h _ n hroom hstepped
      obtain ⟨first, middle, hfirst, hchain⟩ := h
      obtain ⟨n, rfl⟩ := Nat.exists_eq_add_of_le' hroom
      have hwithin (hparts : ∀ part ∈ expr.parts, ∀ n, room ≤ n → part.SteppedWithin n → part.height ≤ n) :
          expr.height ≤ n + room + 1 := by
        refine Expr.height_le_of_stepped (fun part hpart => ?_) hstepped
        exact hparts part hpart _ (Nat.le_add_left _ _) (hstepped.part hpart)
      -- only an expression in parentheses can be neither a step nor made of subexpressions
      rcases hchain.parts Reads.spans ih fun _ _ _ _ => trivial with rfl | hparts
      · rcases hfirst.parts Reads.spans ih fun _ _ _ _ => trivial with ⟨_, hparts⟩ | ⟨hinner, _⟩
        · exact hwithin hparts
        · exact hinner _ (by omega) hstepped
      · exact hwithin hparts

/-- Where parentheses only stand around arguments, the steps of a chain are counted right, and a tree is
within any bound that the levels are within, if what its steps cover is. -/
theorem Reads.height_le_of_covered (room : Nat) : Yields (Reads room) Ungrouped fun expr =>
    ∀ n, room ≤ n → expr.CoveredWithin n → expr.height ≤ n := by
  induction room with
  | zero => exact fun h => h.elim
  | succ room ih =>
      intro level tokens expr rest h hplain n hroom hcovered
      obtain ⟨first, middle, hfirst, hchain⟩ := h
      obtain ⟨n, rfl⟩ := Nat.exists_eq_add_of_le' hroom
      obtain ⟨hfirstLeft, hfirstParts⟩ := (hfirst.parts Reads.spans ih hplain.behind).resolve_right
        fun ⟨_, found, hfound, hparen⟩ => hplain.1 found hfound hparen
      have hbehind := (hfirst.spans Reads.spans).behind hplain.behind
      have hparts : ∀ part ∈ expr.parts, ∀ n, room ≤ n → part.CoveredWithin n → part.height ≤ n := by
        rcases hchain.parts Reads.spans ih hbehind with rfl | hparts
        · exact hfirstParts
        · exact hparts
      have hsteps := hchain.steps_le
      rw [Expr.steps_of_left?_none hfirstLeft] at hsteps
      refine Expr.height_le_of_steps (n := n + room) (by omega) (fun part hpart => ?_) hcovered
      exact hparts part hpart _ (Nat.le_add_left _ _) (hcovered.part hpart)

end Parser

namespace Expr

/-- An expression with so many members taken of it. -/
def members : Nat → Expr → Expr
  | 0, target => target
  | count + 1, target => members count (.member target "a")

theorem height_members (count : Nat) (target : Expr) :
    (members count target).height = count + target.height := by
  induction count generalizing target with
  | zero => exact (Nat.zero_add _).symm
  | succ count ih =>
      rw [members, ih, height]
      omega

end Expr

/-- **How high the parser lets trees get.** No tree that it accepts is higher than the sum of all numbers up
to the number of levels. It is within the number of levels exactly if what lies under its steps is. Where
parentheses only stand around the arguments of calls, that is exactly if the parts are that its steps cover:
chains on their own are counted right. -/
theorem height_of_parse {source : String} {expr : Expr} (h : parse source = .ok expr) :
    ∃ tokens, Lexer.tokens source = .ok tokens ∧
      expr.height ≤ Expr.maxDepth * (Expr.maxDepth + 1) / 2 ∧
      (expr.height ≤ Expr.maxDepth ↔ expr.SteppedWithin Expr.maxDepth) ∧
      (Parser.Ungrouped tokens → (expr.height ≤ Expr.maxDepth ↔ expr.CoveredWithin Expr.maxDepth)) := by
  obtain ⟨tokens, htokens, hreads⟩ := Parser.reads_of_parse h
  have hbound := hreads.height_le
  refine ⟨tokens, htokens, by omega, ⟨fun hheight depth left hleft => ?_, fun hstepped => ?_⟩,
    fun hplain => ⟨fun hheight depth part hpart => ?_, fun hcovered => ?_⟩⟩
  · exact Nat.le_trans hleft.height_le hheight
  · exact Parser.Reads.height_le_of_stepped _ hreads trivial _ (Nat.le_refl _) hstepped
  · exact Nat.le_trans hpart.height_le hheight
  · exact Parser.Reads.height_le_of_covered _ hreads hplain _ (Nat.le_refl _) hcovered

/-- The parentheses of a call, which a step is taken over. -/
theorem height_of_parse_arguments :
    let expr : Expr := .member (.call "f" [.binary .add (.identifier "a") (.identifier "b")]) "c"
    ∃ tokens, parse "f(a + b).c" = .ok expr ∧ Lexer.tokens "f(a + b).c" = .ok tokens ∧
      Parser.Ungrouped tokens ∧ expr.height = 4 ∧
      expr.Covered 2 (.binary .add (.identifier "a") (.identifier "b")) ∧
      (expr.height ≤ Expr.maxDepth ↔ expr.CoveredWithin Expr.maxDepth) := by
  intro expr
  have hparse : parse "f(a + b).c" = .ok expr := rfl
  obtain ⟨tokens, htokens, _, _, hcovered⟩ := height_of_parse hparse
  have hfound : Lexer.tokens "f(a + b).c" = .ok
      [⟨.word "f", 0⟩, ⟨.leftParen, 1⟩, ⟨.word "a", 2⟩, ⟨.sign .plus, 4⟩, ⟨.word "b", 6⟩,
        ⟨.rightParen, 7⟩, ⟨.dot, 8⟩, ⟨.word "c", 9⟩] := rfl
  obtain rfl := Except.ok.inj (htokens.symm.trans hfound)
  have hpart : expr.Covered 2 (.binary .add (.identifier "a") (.identifier "b")) :=
    ⟨⟨.root, rfl⟩, List.mem_singleton_self _⟩
  exact ⟨_, hparse, htokens, by decide, rfl, hpart, hcovered (by decide)⟩

set_option maxRecDepth 20000 in
/-- A list and a chain on it that uses up the levels: the list comes on top. -/
theorem higher_than_depth : ∃ expr,
    parse "[a].a.a.a.a.a.a.a.a.a.a.a.a.a.a.a.a.a.a.a.a.a.a.a.a.a.a.a.a.a.a.a.a.a.a.a.a.a.a.a.a.a.a.a.a.a.a.a.a.a.a.a.a.a.a.a.a.a.a.a.a.a.a.a" =
        .ok expr ∧
      Expr.maxDepth < expr.height := by
  refine ⟨Expr.members 63 (.array [.identifier "a"]), rfl, ?_⟩
  rw [Expr.height_members]
  decide

end DecisionGraph
