import DecisionGraph.Proofs.Expression.Quotes
import DecisionGraph.Proofs.Expression.Reparse

/-!
# Literals and keys in a printed expression

Which literals and keys are read back from what is printed for them? Node by node this can be said exactly
(`Expr.readsBack_iff`): texts of legible characters, finite numbers and keys that are words. And these nodes
decide what becomes of the whole (`parse_print_readsBack`). If all of them are read back, so is the expression.
If one is not, the printed text is read as another expression, or not at all.

As long as keys are words, the other expression is `Expr.reread`: a literal that is not read back is still
read as one token, and the tokens around it stay what they are.
-/

namespace DecisionGraph

/-- The text is one token. -/
def Lexer.Sole (text : String) (token : Token) : Prop := ∃ offset, tokens text = .ok [⟨token, offset⟩]

theorem Lexer.sole_iff {text : String} {token : Token} {found : List Located}
    (h : tokens text = .ok found) : Sole text token ↔ found.map Located.token = [token] := by
  constructor
  · rintro ⟨offset, hsole⟩
    cases h.symm.trans hsole
    rfl
  · intro hmap
    obtain ⟨⟨_, offset⟩, rfl, rfl⟩ := List.map_eq_singleton_iff.mp hmap
    exact ⟨offset, h⟩

namespace Expr

/-! ## One node -/

/-- What is printed of this node for a literal or a key is the token of the literal, or one of the key. -/
def ReadsBack : Expr → Prop
  | .literal value => Lexer.Sole value.print value.token
  | .object fields => ∀ field ∈ fields, ∃ token, Parser.Key token field.1 ∧ Lexer.Sole field.1 token
  | _ => True

theorem written_rereadLiteral_iff {value : Literal} :
    (rereadLiteral value).written = [value.token] ↔ Printable (.literal value) := by
  rw [← rereadLiteral_eq_iff]
  cases value with
  | number value =>
      rw [rereadLiteral]
      split
      · exact iff_of_true rfl rfl
      · simp [written, Literal.token]
  | text value => simp [rereadLiteral, written, Literal.token]
  | boolean | null => exact iff_of_true rfl rfl

/-- A key that is no word is not even the text that it would be with quotes, since it has not got them. -/
theorem sole_key_iff {name : String} :
    (∃ token, Parser.Key token name ∧ Lexer.Sole name token) ↔ Text.IsWord name := by
  constructor
  · rintro ⟨token, hkey, offset, htokens⟩
    cases hkey with
    | word => exact Lexer.tokens_proper htokens _ (List.mem_singleton_self _)
    | text =>
        have hquotes : Text.quotes name = Text.quotes name + 2 := Lexer.quotes_eq_quoted htokens
        omega
  · intro hname
    obtain ⟨found, hfound, hmap⟩ := (spells_word hname).lexes.tokens
    exact ⟨_, .word name, (Lexer.sole_iff hfound).mpr hmap⟩

/-- **Literals and keys that are read back are those that are printable.** -/
theorem readsBack_iff {expr : Expr} (hnamed : Named expr) : expr.ReadsBack ↔ expr.Printable := by
  cases expr with
  | literal value =>
      obtain ⟨found, hfound, hmap⟩ := (spells_literal hnamed).lexes.tokens
      rw [ReadsBack, Lexer.sole_iff hfound, hmap, written_rereadLiteral_iff]
  | object fields => exact forall₂_congr fun _ _ => sole_key_iff
  | _ => exact Iff.rfl

/-! ## The whole expression -/

mutual

/-- Where a literal is read as a name, it is one that can be written. -/
theorem named_reread : ∀ {expr : Expr}, expr.Everywhere Named → expr.reread.Everywhere Named
  | .literal (.number value), hnamed => by
    rw [reread, rereadLiteral]
    split
    · exact hnamed
    · exact (by decide : Text.IsWord "inf" ∧ "inf" ∉ Parser.reserved)
  | .literal (.text _), _ | .literal (.boolean _), _ | .literal .null, _ => trivial
  | .identifier _, hnamed => hnamed
  | .pointer, _ => trivial
  | .member .., hnamed => ⟨hnamed.1, named_reread hnamed.2⟩
  | .index .., hnamed => ⟨trivial, named_reread hnamed.2.1, named_reread hnamed.2.2⟩
  | .array _, hnamed => ⟨trivial, named_rereadItems hnamed.2⟩
  | .object _, hnamed => ⟨trivial, named_rereadFields hnamed.2⟩
  | .unary .., hnamed => ⟨trivial, named_reread hnamed.2⟩
  | .binary .., hnamed => ⟨trivial, named_reread hnamed.2.1, named_reread hnamed.2.2⟩
  | .conditional .., hnamed =>
    ⟨trivial, named_reread hnamed.2.1, named_reread hnamed.2.2.1, named_reread hnamed.2.2.2⟩
  | .call .., hnamed => ⟨hnamed.1, named_rereadItems hnamed.2⟩

theorem named_rereadItems : ∀ {items : List Expr}, EverywhereInItems Named items →
    EverywhereInItems Named (rereadItems items)
  | [], _ => trivial
  | _ :: _, hnamed => ⟨named_reread hnamed.1, named_rereadItems hnamed.2⟩

theorem named_rereadFields : ∀ {fields : List (String × Expr)}, EverywhereInFields Named fields →
    EverywhereInFields Named (rereadFields fields)
  | [], _ => trivial
  | (_, _) :: _, hnamed => ⟨named_reread hnamed.1, named_rereadFields hnamed.2⟩

end

end Expr

/-- **A printed expression is read with its literals as they are read,** or it is nested too deeply. Its keys
have to be words. -/
theorem parse_print_reread {expr : Expr} (hnamed : expr.Everywhere Expr.Named)
    (hkeys : expr.Everywhere Expr.Keyworded) :
    parse expr.print = .ok expr.reread ∨ parse expr.print = .error .tooDeep := by
  obtain ⟨found, hfound, hwritten⟩ := Expr.tokens_print_reread hnamed hkeys
  exact Expr.parse_of_written (Expr.named_reread hnamed) hfound hwritten

/-- What is not printable is not read back. -/
theorem printable_of_parse_print {expr : Expr} (hnamed : expr.Everywhere Expr.Named)
    (h : parse expr.print = .ok expr) : expr.Everywhere Expr.Printable := by
  have hkeys : expr.Everywhere Expr.Keyworded := Expr.keyworded_of_parse_print hnamed h
  -- with words for keys it is known what is read, and only printable literals are read as they are
  refine (Expr.reread_eq_iff expr hkeys).mp ?_
  rcases parse_print_reread hnamed hkeys with hok | hdeep
  · exact Except.ok.inj (hok.symm.trans h)
  · cases hdeep.symm.trans h

/--
**Literals and keys in a printed expression.**

In an expression that was read, a text is read back from what is printed for it if its characters are legible,
a number if it is finite and a key if it is a word, and not otherwise. If all are read back, the printed text
is read as the expression, or it is nested too deeply. It is never read as the expression if one is not; as
long as keys are words, it is then read with these literals as they are read.
-/
theorem parse_print_readsBack {source : String} {expr : Expr} (h : parse source = .ok expr) :
    expr.Everywhere (fun node => node.ReadsBack ↔ node.Printable) ∧
      (expr.Everywhere Expr.ReadsBack →
        parse expr.print = .ok expr ∨ parse expr.print = .error .tooDeep) ∧
      (parse expr.print = .ok expr → expr.Everywhere Expr.ReadsBack) ∧
      (expr.Everywhere Expr.Keyworded →
        parse expr.print = .ok expr.reread ∨ parse expr.print = .error .tooDeep) := by
  have hnamed : expr.Everywhere Expr.Named := Expr.named_of_parse h
  have hiff := hnamed.imp fun _ => Expr.readsBack_iff
  refine ⟨hiff, fun hback => ?_, fun hsame => ?_, parse_print_reread hnamed⟩
  · have hprintable : expr.Everywhere Expr.Printable := (hiff.and hback).imp fun _ h => h.1.mp h.2
    have hkeys : expr.Everywhere Expr.Keyworded := hprintable.imp fun _ => Expr.Printable.keyworded
    have hreread := parse_print_reread hnamed hkeys
    rwa [(Expr.reread_eq_iff expr hkeys).mpr hprintable] at hreread
  · have hprintable : expr.Everywhere Expr.Printable := printable_of_parse_print hnamed hsame
    exact (hiff.and hprintable).imp fun _ h => h.1.mpr h.2

/-- A combining mark in a text is printed by its code point. The keys and the number are read back. -/
theorem parse_print_readsBack_mark :
    ∃ expr, parse "\x7bk: 'e\u0301', n: 0.5\x7d" = .ok expr ∧ ¬expr.Everywhere Expr.ReadsBack ∧
      parse expr.print ≠ .ok expr ∧
      (parse expr.print = .ok expr.reread ∨ parse expr.print = .error .tooDeep) := by
  have hparse : parse "\x7bk: 'e\u0301', n: 0.5\x7d" = .ok (.object [("k", .literal (.text "e\u0301")),
      ("n", .literal (.number (.ofDecimal 5 (-1))))]) := rfl
  obtain ⟨hiff, -, hsame, hreread⟩ := parse_print_readsBack hparse
  have hmark : ¬∀ c ∈ "e\u0301".toList, Text.IsLegible c := fun h =>
    absurd (h '\u0301' (by decide)) (by decide)
  have hkeys : Text.IsWord "k" ∧ Text.IsWord "n" := by decide
  refine ⟨_, hparse, fun hback => hmark (hiff.2.1.mp hback.2.1),
    fun h => hmark (hiff.2.1.mp (hsame h).2.1), hreread ⟨?_, trivial, trivial, trivial⟩⟩
  exact List.forall_mem_cons.mpr ⟨hkeys.1, List.forall_mem_singleton.mpr hkeys.2⟩

/-- A key that is read as two, a text that is read as a code point, and a number that is read as a name. -/
theorem print_loses_literals :
    (∃ expr, parse "\x7b\"a: 1, b\": 2\x7d" = .ok expr ∧ expr.print = "\x7ba: 1, b: 2\x7d"
      ∧ parse expr.print ≠ .ok expr) ∧
    (∃ expr, parse "'\u0301'" = .ok expr ∧ expr.print = "\"\\u\x7b301\x7d\""
      ∧ parse expr.print = .ok (.literal (.text "u\x7b301\x7d"))) ∧
    (∃ expr, parse "1e999" = .ok expr ∧ expr.print = "inf" ∧ parse expr.print = .ok (.identifier "inf")) := by
  have hkey : (Expr.object [("a: 1, b", .literal (.number (.ofDecimal 2 0)))]).print
      = "\x7ba: 1, b: 2\x7d" := by decide +kernel
  have hkeys : parse "\x7ba: 1, b: 2\x7d" = .ok (.object
      [("a", .literal (.number (.ofDecimal 1 0))), ("b", .literal (.number (.ofDecimal 2 0)))]) := rfl
  have htext : (Expr.literal (.text "\u0301")).print = "\"\\u\x7b301\x7d\"" := by decide +kernel
  have hnumber : (Expr.literal (.number (.ofDecimal 1 999))).print = "inf" := by decide +kernel
  refine ⟨⟨.object [("a: 1, b", .literal (.number (.ofDecimal 2 0)))], rfl, hkey, ?_⟩,
    ⟨.literal (.text "\u0301"), rfl, htext, ?_⟩, .literal (.number (.ofDecimal 1 999)), rfl, hnumber, ?_⟩
  · rw [hkey, hkeys]
    simp
  · rw [htext]
    rfl
  · rw [hnumber]
    rfl

end DecisionGraph
