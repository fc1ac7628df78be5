import DecisionGraph.Proofs.Expression.Height
import DecisionGraph.Proofs.Expression.Reparse
import Mathlib.Order.Bounds.Defs

/-!
# Trees as high as the parser lets them get

The bound of `Reads.height_le` is reached: on every level a list, and on the list all the members that the
level has steps for. The inner list leaves one level less to what is inside it, but the steps over it are
taken from the levels of the outer chain. **The parser accepts trees of height 2080** (`greatest_height`)
where `Expr.maxDepth` is 64.
-/

namespace DecisionGraph

namespace Expr

/-- A list inside a list, so many times, each with one member more taken of it than the one inside. -/
def tower : Nat → Expr
  | 0 => .pointer
  | count + 1 => members (count + 1) (.array [tower count])

theorem height_tower (count : Nat) : 2 * (tower count).height = (count + 1) * (count + 1 + 1) := by
  induction count with
  | zero => rfl
  | succ count ih =>
      have hsum : (count + 1 + 1) * (count + 1 + 1 + 1) =
          (count + 1) * (count + 1 + 1) + 2 * count + 4 := by ring
      rw [tower, height_members, height, heightOfItems, heightOfItems, Nat.max_zero]
      omega

theorem everywhere_members {p : Expr → Prop} (hp : ∀ target, p (.member target "a")) {count : Nat}
    {target : Expr} (h : target.Everywhere p) : (members count target).Everywhere p := by
  induction count generalizing target with
  | zero => exact h
  | succ count ih => exact ih ⟨hp target, h⟩

theorem everywhere_tower {p : Expr → Prop} (hpointer : p .pointer) (harray : ∀ items, p (.array items))
    (hmember : ∀ target, p (.member target "a")) (count : Nat) : (tower count).Everywhere p := by
  induction count with
  | zero => exact hpointer
  | succ count ih => exact everywhere_members hmember ⟨harray _, ih, trivial⟩

/-- The tokens of the members. -/
def memberTokens : Nat → List Token
  | 0 => []
  | count + 1 => .dot :: .word "a" :: memberTokens count

theorem written_members (count : Nat) {target : Expr} (h : 11 ≤ target.precedence) :
    (members count target).written = target.written ++ memberTokens count := by
  induction count generalizing target with
  | zero => exact (List.append_nil _).symm
  | succ count ih =>
      have hbare : decide (target.precedence < 11) = false := decide_eq_false (Nat.not_lt.mpr h)
      rw [members, ih (show 11 ≤ (member target "a").precedence from Nat.le_refl 11), written, hbare,
        memberTokens, List.append_assoc]
      rfl

theorem written_tower (count : Nat) : (tower (count + 1)).written =
    .leftBracket :: (tower count).written ++ [.rightBracket] ++ memberTokens (count + 1) := by
  rw [tower, written_members (count + 1) (show 11 ≤ (array [tower count]).precedence from Nat.le_succ 11)]
  rfl

end Expr

namespace Parser

open DecisionGraph.Expr

/-- A chain takes all of the members if it has room for them. -/
theorem chain_members {sub : Nat → Parser Expr} {level count room : Nat} (hroom : count ≤ room)
    {tokens rest : List Located} (htokens : tokens.map Located.token = memberTokens count)
    (hstop : goesOn level rest = false) (target : Expr) :
    chain sub level room target (tokens ++ rest) = .ok (members count target, rest) := by
  induction count generalizing tokens room target with
  | zero =>
      obtain rfl := List.map_eq_nil_iff.mp htokens
      have hnone : step? sub level target rest = none := step?_eq_none_iff.mpr hstop
      cases room <;> rw [List.nil_append, chain, hnone] <;> rfl
  | succ count ih =>
      obtain ⟨⟨_, _⟩, behind, rfl, rfl, hbehind⟩ := List.map_eq_cons_iff.mp htokens
      obtain ⟨⟨_, _⟩, others, rfl, rfl, hothers⟩ := List.map_eq_cons_iff.mp hbehind
      obtain ⟨room, rfl⟩ := Nat.exists_eq_add_of_le' hroom
      exact ih (Nat.le_add_left count room) hothers (.member target "a")

/-- The tower of so many lists is read with one level more. -/
theorem expression_tower (count : Nat) {tokens rest : List Located}
    (htokens : tokens.map Located.token = (tower count).written) (hstop : goesOn 0 rest = false) :
    expression (count + 1) 0 (tokens ++ rest) = .ok (tower count, rest) := by
  induction count generalizing tokens rest with
  | zero =>
      obtain ⟨⟨_, _⟩, rfl, rfl⟩ := List.map_eq_singleton_iff.mp htokens
      exact chain_members (Nat.le_refl 0) rfl hstop .pointer
  | succ count ih =>
      rw [written_tower] at htokens
      obtain ⟨front, suffix, rfl, hfront, hsuffix⟩ := List.map_eq_append_iff.mp htokens
      obtain ⟨before, last, rfl, hbefore, hlast⟩ := List.map_eq_append_iff.mp hfront
      obtain ⟨⟨_, opening⟩, inner, rfl, rfl, hinner⟩ := List.map_eq_cons_iff.mp hbefore
      obtain ⟨⟨_, offset⟩, rfl, rfl⟩ := List.map_eq_singleton_iff.mp hlast
      -- the inner tower has one level less, the members have all of them
      have hitem : expression (count + 1) 0 (inner ++ ⟨.rightBracket, offset⟩ :: (suffix ++ rest)) =
          .ok (tower count, ⟨.rightBracket, offset⟩ :: (suffix ++ rest)) := ih hinner rfl
      have hlist : list (expression (count + 1)) .rightBracket
          (inner ++ ⟨.rightBracket, offset⟩ :: (suffix ++ rest)) = .ok ([tower count], suffix ++ rest) := by
        have hbegins : Begins ((inner ++ ⟨.rightBracket, offset⟩ :: (suffix ++ rest)).map Located.token) := by
          rw [List.map_append, hinner]
          exact (tower count).begins_written.append _
        rw [list_eq_items (by decide) hbegins, Parser.items, hitem]
        rfl
      have hoperand : operand (expression (count + 1))
          (⟨.leftBracket, opening⟩ :: (inner ++ ⟨.rightBracket, offset⟩ :: (suffix ++ rest))) =
          .ok (.array [tower count], suffix ++ rest) := by
        rw [operand, hlist]
        rfl
      rw [List.append_assoc, List.append_assoc, List.cons_append, List.singleton_append, expression, hoperand]
      exact chain_members (Nat.le_refl _) hsuffix hstop (.array [tower count])

end Parser

namespace Expr

/-- The highest tower that there are levels for is accepted as it is printed. -/
theorem parse_tower : parse (tower 63).print = .ok (tower 63) := by
  have hword : Text.IsWord "a" := by decide
  have hnamed : (tower 63).Everywhere Named := everywhere_tower trivial (fun _ => trivial) (fun _ => hword) 63
  have hprintable : (tower 63).Everywhere Printable :=
    everywhere_tower trivial (fun _ => trivial) (fun _ => trivial) 63
  obtain ⟨found, hfound, hwritten⟩ := tokens_print hnamed hprintable
  have htower : Parser.expression (63 + 1) 0 (found ++ []) = .ok (tower 63, []) :=
    Parser.expression_tower 63 hwritten rfl
  rw [List.append_nil] at htower
  have hparse : parse (tower 63).print = Parser.whole found := by
    rw [parse, hfound]
    rfl
  rw [hparse, Parser.whole, show maxDepth = 63 + 1 from rfl, htower]

end Expr

/-- **The greatest height of a tree that the parser accepts** is not the number of levels but the sum of all
numbers up to it. -/
theorem greatest_height : IsGreatest {height | ∃ source expr, parse source = .ok expr ∧ expr.height = height}
    (Expr.maxDepth * (Expr.maxDepth + 1) / 2) := by
  constructor
  · have hheight := Expr.height_tower 63
    refine ⟨(Expr.tower 63).print, Expr.tower 63, Expr.parse_tower, ?_⟩
    rw [Expr.maxDepth]
    omega
  · rintro height ⟨source, expr, hparse, rfl⟩
    obtain ⟨tokens, _, hreads⟩ := Parser.reads_of_parse hparse
    have hbound := hreads.height_le
    omega

end DecisionGraph
