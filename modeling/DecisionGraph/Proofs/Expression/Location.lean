import DecisionGraph.Expression.Typing
import DecisionGraph.Proofs.Expression.Reparse
import DecisionGraph.Proofs.Path.Grammar
import DecisionGraph.Proofs.Shape.Access

/-!
# Locations

An identifier with accesses behind it, such as `customer.orders[0]["unit price"]`, is a path and an expression
at once. The one is followed step by step, the other is split into tokens, made a tree and typed. Both come to
the same shape (`Location.typeOf_text`), whatever it leads through.

1. As a path it is read into one step for the identifier and one for each access, by the grammar of paths
   (`Location.parse_path`).
2. As an expression it is read into a tree that has one node for the identifier and one for each access
   (`Location.parse_expression`). Each access costs a level, and 63 are left behind the identifier.
3. Typing a node takes the step of its access (`Access.typeIn_applyTo`). An expression does not keep the
   position of an index, and a step does not ask for it (`Shape.step_alike`).
-/

namespace DecisionGraph

/-- What leads one step inside a value, written in a way that paths and expressions have in common. -/
inductive Access
  /-- A dot and a word, which may be one that the expression language has a use for. -/
  | member (name : String) (hname : Text.IsWord name)
  /-- The digits of an index below `2 ^ 64` in brackets. -/
  | index (digits : List Char) (hne : digits ≠ []) (hdigits : ∀ d ∈ digits, d.isDigit = true)
      (hsmall : ofDecimalDigits digits < twoTo 64)
  /-- A key in quotes, and in brackets. In an expression a backslash would not stand for itself. -/
  | key (quote : Char) (text : List Char) (hquote : quote = '"' ∨ quote = '\'') (htext : quote ∉ text)
      (hplain : '\\' ∉ text)

/-- An identifier that is no literal and no operator in front, and accesses behind it. -/
structure Location where
  name : String
  hname : Text.IsWord name
  hfree : name ∉ Parser.reserved
  accesses : List Access
  hlength : accesses.length ≤ 63

namespace Access

def spell : Access → List Char
  | .member name _ => '.' :: name.toList
  | .index digits _ _ _ => '[' :: digits ++ [']']
  | .key quote text _ _ _ => '[' :: quote :: text ++ [quote] ++ [']']

/-- The step that it is in a path. -/
def segment : Access → Segment
  | .member name _ => .key name
  | .index digits _ _ _ => .index (ofDecimalDigits digits)
  | .key _ text _ _ _ => .key (String.ofList text)

/-- The node that it is in an expression. -/
def applyTo (target : Expr) : Access → Expr
  | .member name _ => .member target name
  | .index digits _ _ _ => .index target (.literal (.number (.ofDecimal (ofDecimalDigits digits) 0)))
  | .key _ text _ _ _ => .index target (.literal (.text (String.ofList text)))

def tokens : Access → List Token
  | .member name _ => [.dot, .word name]
  | .index digits _ _ _ =>
    [.leftBracket, .number (.ofDecimal (ofDecimalDigits digits) 0), .rightBracket]
  | .key _ text _ _ _ => [.leftBracket, .text (String.ofList text), .rightBracket]

end Access

namespace Location

def chars (location : Location) : List Char := location.name.toList ++ location.accesses.flatMap Access.spell

def text (location : Location) : String := String.ofList location.chars

/-- The steps of the location as a path. -/
def path (location : Location) : Path := .key location.name :: location.accesses.map Access.segment

/-- The tree of the location as an expression. -/
def expr (location : Location) : Expr := location.accesses.foldl Access.applyTo (.identifier location.name)

end Location

/-! ## As a path -/

namespace Text

theorem IsWord.ne_nil {text : String} (h : IsWord text) : text.toList ≠ [] := by
  obtain ⟨c, tail, hchars, -⟩ := h
  rw [hchars]
  exact List.cons_ne_nil c tail

theorem IsWord.continues {text : String} (h : IsWord text) :
    ∀ c ∈ text.toList, continuesIdentifier c = true := by
  obtain ⟨c, tail, hchars, hstart, htail⟩ := h
  rw [hchars]
  exact List.forall_mem_cons.mpr ⟨continuesIdentifier_of_starts hstart, htail⟩

/-- There is no white space in a word. -/
theorem IsWord.trimChars {text : String} (h : IsWord text) : trimChars text.toList = text.toList :=
  trimChars_eq_self_iff.mpr
    ⟨fun c hc => isBlank_of_continues (h.continues c (List.mem_of_mem_head? hc)),
      fun c hc => isBlank_of_continues (h.continues c (List.mem_of_mem_getLast? hc))⟩

end Text

/-- A word in front of a dot or a bracket is a bare key as it is. -/
theorem Path.step_word {name : String} (hname : Text.IsWord name) {rest : List Char}
    (hend : ∀ c ∈ rest.head?, c = '.' ∨ c = '[') : Path.Step (name.toList ++ rest) (.key name) rest := by
  have hrun : ∀ c ∈ name.toList, c ≠ '.' ∧ c ≠ '[' := by
    intro c hc
    have hcontinues := hname.continues c hc
    constructor <;> rintro rfl <;> exact absurd hcontinues (by decide)
  have hletter : ∃ c ∈ name.toList, Text.isBlank c = false := by
    obtain ⟨c, hc⟩ := List.exists_mem_of_ne_nil _ hname.ne_nil
    exact ⟨c, hc, Text.isBlank_of_continues (hname.continues c hc)⟩
  have hstep := Path.Step.key hrun hletter hend
  rwa [hname.trimChars, String.ofList_toList] at hstep

namespace Access

theorem spell_ne_nil (access : Access) : access.spell ≠ [] := by
  cases access <;> exact List.cons_ne_nil _ _

theorem head?_spells (accesses : List Access) :
    ∀ c ∈ (accesses.flatMap spell).head?, c = '.' ∨ c = '[' := by
  cases accesses with
  | nil => nofun
  | cons access rest => cases access <;> rintro _ ⟨⟩ <;> simp

theorem trimChars_spell (access : Access) : Text.trimChars access.spell = access.spell := by
  refine Text.trimChars_eq_self_iff.mpr ⟨fun c hc => ?_, fun c hc => ?_⟩
  · cases access <;> cases hc <;> rfl
  · cases access with
    | member name hname =>
        rw [spell, List.getLast?_cons_of_ne_nil hname.ne_nil] at hc
        exact Text.isBlank_of_continues (hname.continues c (List.mem_of_mem_getLast? hc))
    | index | key =>
        rw [spell, List.getLast?_concat] at hc
        cases hc
        rfl

/-- There is no white space around accesses behind something that has none around it. -/
theorem trimChars_append_spells (accesses : List Access) {front : List Char} (hne : front ≠ [])
    (htrimmed : Text.trimChars front = front) :
    Text.trimChars (front ++ accesses.flatMap spell) = front ++ accesses.flatMap spell := by
  induction accesses generalizing front with
  | nil => rwa [List.flatMap_nil, List.append_nil]
  | cons access rest ih =>
      have hlonger : front ++ access.spell ≠ [] := List.append_ne_nil_of_left_ne_nil hne _
      rw [List.flatMap_cons, ← List.append_assoc]
      exact ih hlonger (Text.trimChars_append htrimmed access.trimChars_spell hne access.spell_ne_nil)

/-- Accesses are what can come behind a step in a path. -/
theorem behind_spells (accesses : List Access) :
    Path.Behind (accesses.flatMap spell) (accesses.map segment) := by
  induction accesses with
  | nil => exact .nothing
  | cons access rest ih =>
      have hblank : Path.Blank [] := nofun
      rw [List.flatMap_cons, List.map_cons]
      cases access with
      | member name hname =>
          have hstep := Path.step_word hname (head?_spells rest)
          exact .dot (Path.steps_iff_behind.mpr ⟨_, _, _, hstep, ih, rfl⟩)
      | index digits hne hdigits hsmall =>
          have hsteps := Path.steps_iff_behind.mpr
            ⟨_, _, _, .bracket hblank (.index hne hdigits hsmall) hblank, ih, rfl⟩
          simpa [spell, segment] using Path.Behind.bracket hsteps
      | key quote text hquote htext =>
          have hsteps := Path.steps_iff_behind.mpr
            ⟨_, _, _, .bracket hblank (.key hquote htext) hblank, ih, rfl⟩
          simpa [spell, segment] using Path.Behind.bracket hsteps

end Access

/-- **A location is a path**, of its identifier and its accesses. -/
theorem Location.parse_path (location : Location) : Path.parse location.text = .ok location.path := by
  have hchars : location.text.toList = location.chars := String.toList_ofList
  have hne : location.chars ≠ [] := List.append_ne_nil_of_left_ne_nil location.hname.ne_nil _
  have htrimmed : Text.trimChars location.chars = location.chars :=
    Access.trimChars_append_spells location.accesses location.hname.ne_nil location.hname.trimChars
  have hsteps : Path.Steps location.chars location.path := by
    have hstep := Path.step_word location.hname (Access.head?_spells location.accesses)
    exact Path.steps_iff_behind.mpr ⟨_, _, _, hstep, Access.behind_spells location.accesses, rfl⟩
  have hlength : location.path.length ≤ Path.maxLength := by
    have hfew := location.hlength
    simp only [path, List.length_cons, List.length_map, Path.maxLength]
    omega
  refine (Path.parse_iff_steps ?_).mpr ⟨?_, hlength⟩ <;> rw [hchars, htrimmed]
  · exact hne
  · exact hsteps

/-! ## As an expression -/

namespace Lexer

variable {rest : List Char} {tokens : List Token}

/-- Without a backslash, characters stand for themselves up to the quote. -/
theorem textBody?_plain {quote : Char} {text : List Char} (hquote : quote ≠ '\\') (htext : quote ∉ text)
    (hplain : '\\' ∉ text) :
    textBody? quote false (text ++ quote :: rest) = some (text, text.length + 1) := by
  induction text with
  | nil => simp [textBody?, hquote]
  | cons c text ih =>
      obtain ⟨hc, htext⟩ := not_or.mp (mt List.mem_cons.mpr htext)
      obtain ⟨hc', hplain⟩ := not_or.mp (mt List.mem_cons.mpr hplain)
      rw [List.cons_append, textBody?, ih htext hplain]
      simp [Ne.symm hc, Ne.symm hc']

theorem Lexes.plain {quote : Char} {text : List Char} (hquote : quote = '"' ∨ quote = '\'')
    (htext : quote ∉ text) (hplain : '\\' ∉ text) (h : Lexes rest tokens) :
    Lexes (quote :: (text ++ [quote] ++ rest)) (.text (String.ofList text) :: tokens) := by
  have hclass : Text.isBlank quote = false ∧ quote.isDigit = false ∧ isQuote quote = true ∧ quote ≠ '\\' := by
    rcases hquote with rfl | rfl <;> decide
  obtain ⟨hblank, hdigit, hisQuote, hbackslash⟩ := hclass
  refine .token hblank (fun offset => ?_) h
  have hbody : textBody? quote false (text ++ [quote] ++ rest) = some (text, text.length + 1) := by
    rw [List.append_assoc]
    exact textBody?_plain hbackslash htext hplain
  rw [read, if_neg (by simp [hdigit]), if_pos hisQuote, hbody]
  simp

/-- The digits of a whole number in front of a closing bracket. -/
theorem Lexes.digits {digits : List Char} (hne : digits ≠ []) (hdigits : ∀ d ∈ digits, d.isDigit = true)
    (hrest : Boundary rest) (h : Lexes rest tokens) :
    Lexes (digits ++ rest) (.number (.ofDecimal (ofDecimalDigits digits) 0) :: tokens) := by
  have hfraction : ∀ d ∈ [], Char.isDigit d = true := nofun
  simpa [Double.pointed] using Lexes.number hne hdigits hfraction hrest h

end Lexer

namespace Access

open Lexer

theorem boundary_spells (accesses : List Access) : Boundary (accesses.flatMap spell) := by
  cases accesses with
  | nil => trivial
  | cons access rest =>
      cases access with
      | member name hname => exact Expr.boundary_dot hname _
      | index | key => exact Expr.boundary_cons (by decide) _

/-- **Accesses split into their tokens.** -/
theorem lexes_spells (accesses : List Access) : Lexes (accesses.flatMap spell) (accesses.flatMap tokens) := by
  induction accesses with
  | nil => exact .nil
  | cons access rest ih =>
      rw [List.flatMap_cons, List.flatMap_cons]
      have hclose : Lexes (']' :: rest.flatMap spell) (.rightBracket :: rest.flatMap tokens) :=
        .mark rfl (by decide) ih
      cases access with
      | member name hname => exact .mark rfl (by decide) (.word hname (boundary_spells rest) ih)
      | index digits hne hdigits =>
          have hinside := Lexes.digits hne hdigits (Expr.boundary_cons (by decide) _) hclose
          simpa [spell, tokens] using Lexes.mark (c := '[') rfl (by decide) hinside
      | key quote text hquote htext hplain =>
          have hinside := Lexes.plain hquote htext hplain hclose
          simpa [spell, tokens] using Lexes.mark (c := '[') rfl (by decide) hinside

end Access

namespace Parser

open DecisionGraph.Expr

variable {room level : Nat} {tokens rest : List Located}

/-- A literal in front of a closing bracket is all there is to an index. -/
theorem expression_literal (value : Literal) (offset offset' : Nat) :
    expression (room + 1) 0 (⟨value.token, offset⟩ :: ⟨.rightBracket, offset'⟩ :: rest)
      = .ok (.literal value, ⟨.rightBracket, offset'⟩ :: rest) := by
  rw [expression, operand_literal]
  cases room <;> rfl

/-- A literal in brackets is a step of a chain. -/
theorem step?_literal (value : Literal)
    (htokens : tokens.map Located.token = [.leftBracket, value.token, .rightBracket]) (target : Expr) :
    step? (expression (room + 1)) level target (tokens ++ rest)
      = some (.ok (.index target (.literal value), rest)) := by
  obtain ⟨⟨_, _⟩, inside, rfl, rfl, hinside⟩ := List.map_eq_cons_iff.mp htokens
  obtain ⟨⟨_, _⟩, last, rfl, rfl, hlast⟩ := List.map_eq_cons_iff.mp hinside
  obtain ⟨⟨_, _⟩, rfl, rfl⟩ := List.map_eq_singleton_iff.mp hlast
  rw [List.cons_append, List.cons_append, List.singleton_append, step?, indexOf, expression_literal]
  rfl

/-- **An access is a step of a chain.** -/
theorem step?_access {access : Access} (htokens : tokens.map Located.token = access.tokens) (target : Expr) :
    step? (expression (room + 1)) level target (tokens ++ rest)
      = some (.ok (access.applyTo target, rest)) := by
  cases access with
  | member name =>
      obtain ⟨⟨_, _⟩, behind, rfl, rfl, hbehind⟩ := List.map_eq_cons_iff.mp htokens
      obtain ⟨⟨_, _⟩, rfl, rfl⟩ := List.map_eq_singleton_iff.mp hbehind
      rfl
  | index digits => exact step?_literal (.number (.ofDecimal (ofDecimalDigits digits) 0)) htokens target
  | key quote text => exact step?_literal (.text (String.ofList text)) htokens target

/-- **A chain takes all accesses that it has room for.** -/
theorem chain_accesses {accesses : List Access} {count : Nat} (hroom : accesses.length ≤ count)
    (htokens : tokens.map Located.token = accesses.flatMap Access.tokens) (target : Expr) :
    chain (expression (room + 1)) level count target tokens
      = .ok (accesses.foldl Access.applyTo target, []) := by
  induction accesses generalizing tokens count target with
  | nil =>
      obtain rfl := List.map_eq_nil_iff.mp htokens
      cases count <;> rfl
  | cons access others ih =>
      rw [List.flatMap_cons] at htokens
      obtain ⟨first, behind, rfl, hfirst, hbehind⟩ := List.map_eq_append_iff.mp htokens
      cases count with
      | zero => exact absurd hroom (Nat.not_succ_le_zero _)
      | succ count =>
          rw [List.foldl_cons, chain, step?_access hfirst target]
          exact ih (Nat.le_of_succ_le_succ hroom) hbehind _

end Parser

/-- No parenthesis is among the tokens of accesses. -/
theorem Access.uncalled {accesses : List Access} {tokens : List Located}
    (htokens : tokens.map Located.token = accesses.flatMap Access.tokens) : Parser.Uncalled tokens := by
  rintro offset rest rfl
  cases accesses with
  | nil => cases htokens
  | cons access others => cases access <;> cases htokens

/-- **A location is an expression**, of one node for the identifier and one for each access. -/
theorem Location.parse_expression (location : Location) : parse location.text = .ok location.expr := by
  have hlexes : Lexer.Lexes location.chars (.word location.name :: location.accesses.flatMap Access.tokens) :=
    .word location.hname (Access.boundary_spells _) (Access.lexes_spells _)
  have hsource : location.text.toList = location.chars := String.toList_ofList
  obtain ⟨found, hfound, htokens⟩ := Lexer.Lexes.tokens (hsource ▸ hlexes)
  obtain ⟨⟨_, offset⟩, behind, rfl, rfl, hbehind⟩ := List.map_eq_cons_iff.mp htokens
  have hchain : Parser.chain (Parser.expression (62 + 1)) 0 63 (.identifier location.name) behind
      = .ok (location.expr, []) := Parser.chain_accesses location.hlength hbehind _
  have hwhole : Parser.expression Expr.maxDepth 0 (⟨.word location.name, offset⟩ :: behind)
      = .ok (location.expr, []) := by
    rw [show Expr.maxDepth = 63 + 1 from rfl, Parser.expression,
      Expr.operand_identifier location.hfree (Access.uncalled hbehind)]
    exact hchain
  rw [parse, hfound]
  show Parser.whole _ = _
  rw [Parser.whole, hwhole]

/-! ## Both come to the same shape -/

/-- **An access takes its step**, whatever the shape of its target is. -/
theorem Access.typeIn_applyTo {root item shape : Shape} {target : Expr}
    (h : target.typeIn root item = .ok shape) (access : Access) :
    (access.applyTo target).typeIn root item = .ok (shape.step access.segment) := by
  cases access with
  | member name =>
      rw [applyTo, Expr.typeIn, h]
      rfl
  | index digits =>
      -- the expression has kept that it is an index, and all of them are alike
      have halike : shape.step (.index (ofDecimalDigits digits)) = shape.step (.index 0) :=
        Shape.step_alike (.index _ _) shape
      rw [applyTo, Expr.typeIn, h, segment, halike]
      rfl
  | key quote text =>
      rw [applyTo, Expr.typeIn, h]
      rfl

/-- Accesses lead from the shape of the target along their steps. -/
theorem Access.typeIn_accesses {root item shape : Shape} {target : Expr}
    (h : target.typeIn root item = .ok shape) (accesses : List Access) :
    (accesses.foldl applyTo target).typeIn root item = .ok (shape.getAt (accesses.map segment)) := by
  induction accesses generalizing target shape with
  | nil => exact h
  | cons access rest ih => exact ih (access.typeIn_applyTo h)

/-- **Paths and expressions read a location in the same way.** As an expression it has a shape, and this is the
one that is found along the path. -/
theorem Location.typeOf_text (location : Location) (root : Shape) :
    typeOf root location.text = .ok (root.get location.text)
      ∧ root.get location.text = root.getAt location.path := by
  have hget : root.get location.text = root.getAt location.path :=
    Shape.get_of_parse location.parse_path root
  have hname : (Expr.identifier location.name).typeIn root .any = .ok (root.step (.key location.name)) := rfl
  have htype : location.expr.typeIn root .any = .ok (root.getAt location.path) :=
    Access.typeIn_accesses hname location.accesses
  rw [typeOf, location.parse_expression, hget]
  exact ⟨htype, rfl⟩

/-- Words that are operators elsewhere name fields here, and a step leads into all members of a union. -/
theorem Location.typeOf_text_through_union :
    let item : Shape := .union [.object [("a b", .number)], .object [("a b", .text)]]
    typeOf (.object [("in", .object [("not", .array item)])]) "in.not[07]['a b']"
      = .ok (.union [.number, .text]) := by
  intro item
  let location : Location :=
    { name := "in"
      hname := by decide
      hfree := by decide
      accesses := [.member "not" (by decide), .index ['0', '7'] (by decide) (by simp) (by decide),
        .key '\'' ['a', ' ', 'b'] (by decide) (by decide) (by decide)]
      hlength := by decide }
  have htext : location.text = "in.not[07]['a b']" := by decide
  obtain ⟨htype, hget⟩ := Location.typeOf_text location (.object [("in", .object [("not", .array item)])])
  rw [← htext, htype, hget]
  rfl

end DecisionGraph
