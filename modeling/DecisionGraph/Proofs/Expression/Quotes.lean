import DecisionGraph.Proofs.Expression.Printed
import DecisionGraph.Proofs.Expression.Splitting

/-!
# The quotes of a printed expression

The printer writes keys without quotes, whatever they are. A key that is no word may then be read as anything,
as the end of its object and a field of another one, say. But it is not read as the key: an expression with
such a key can only be read from a text with quotes around the key, and **printing keeps the number of all
other quotes** (`Expr.quotes_print`). So where the printed text is read as the expression, all keys are words
(`Expr.keyworded_of_parse_print`).

Texts are counted with their quotes and the quotes in them. What is printed for a character by its code point
has no quotes, and neither have names and numbers.
-/

namespace DecisionGraph

/-! ## Quotes of texts and tokens -/

/-- How many quotes stand in the text, of whatever kind. -/
def Text.quotes (text : String) : Nat := text.toList.countP Lexer.isQuote

/-- How many quotes the lexeme takes, if those around a key are not counted. -/
@[simp] def Lexeme.quotes : Lexeme → Nat
  | .token written => Lexer.occurrences Lexer.isQuote written
  | .key name => Text.quotes name

/-- The lexeme can be written without quotes around it, if it is a key. -/
def Lexeme.Worded : Lexeme → Prop
  | .token _ => True
  | .key name => Text.IsWord name

/-- How many quotes the lexemes take, if those around keys are not counted. -/
def quotesIn (lexemes : List Lexeme) : Nat := (lexemes.map Lexeme.quotes).sum

/-- How many quotes the tokens were read from. -/
def Parser.quoted (tokens : List Located) : Nat :=
  (tokens.map fun found => Lexer.occurrences Lexer.isQuote found.token).sum

@[simp] theorem Text.quotes_append (text more : String) :
    quotes (text ++ more) = quotes text + quotes more := by
  rw [quotes, quotes, quotes, String.toList_append, List.countP_append]

theorem Text.IsWord.quotes_eq_zero {text : String} (h : IsWord text) : quotes text = 0 := by
  obtain ⟨c, tail, hchars, hstart, htail⟩ := h
  rw [quotes, hchars, List.countP_eq_zero]
  intro d hd
  have hcontinues : continuesIdentifier d = true := by
    rcases List.mem_cons.mp hd with rfl | hd
    · exact continuesIdentifier_of_starts hstart
    · exact htail d hd
  simp [Lexer.delimiter_isQuote.eq_false (Lexer.isInert_of_continues hcontinues)]

@[simp] theorem Lexeme.worded_token (written : Token) : (Lexeme.token written).Worded := trivial

@[simp] theorem Lexeme.worded_key {name : String} : (Lexeme.key name).Worded ↔ Text.IsWord name := Iff.rfl

@[simp] theorem quotesIn_nil : quotesIn [] = 0 := rfl

@[simp] theorem quotesIn_cons (lexeme : Lexeme) (lexemes : List Lexeme) :
    quotesIn (lexeme :: lexemes) = lexeme.quotes + quotesIn lexemes := rfl

@[simp] theorem quotesIn_append (lexemes more : List Lexeme) :
    quotesIn (lexemes ++ more) = quotesIn lexemes + quotesIn more := by
  unfold quotesIn
  rw [List.map_append, List.sum_append]

@[simp] theorem Parser.quoted_cons (found : Located) (tokens : List Located) :
    quoted (found :: tokens) = Lexer.occurrences Lexer.isQuote found.token + quoted tokens := rfl

theorem Lexer.quotes_eq_quoted {source : String} {found : List Located} (h : tokens source = .ok found) :
    Text.quotes source = Parser.quoted found := by
  have hcount := (lexes_of_tokens h).countP_delimiter delimiter_isQuote
  rwa [List.map_map] at hcount

namespace Text

theorem isQuote_of_not_legible {c : Char} (hc : ¬IsLegible c) : Lexer.isQuote c = false := by
  by_contra hquote
  refine hc ?_
  simp only [Lexer.isQuote, Bool.not_eq_false, Bool.or_eq_true, beq_iff_eq] at hquote
  rcases hquote with (rfl | rfl) | rfl <;> decide

/-- What is read for a character has a quote if the character is one. -/
theorem countP_rereadChar (c : Char) :
    (rereadChar c).countP Lexer.isQuote = [c].countP Lexer.isQuote := by
  unfold rereadChar
  split
  · rfl
  · rename_i hc
    obtain ⟨d, more, hchars, hd, hmore⟩ := quoteChar_of_not_legible hc
    have hfirst : Lexer.isQuote d = false := by rcases hd with rfl | rfl <;> decide
    rw [hchars, List.tail_cons, List.countP_singleton, isQuote_of_not_legible hc,
      if_neg Bool.false_ne_true, List.countP_eq_zero]
    intro e he
    rcases List.mem_cons.mp he with rfl | he
    · simp [hfirst]
    · simp [(hmore e he).1]

theorem quotes_reread (text : String) : quotes (reread text) = quotes text := by
  rw [quotes, quotes, reread, String.toList_ofList]
  induction text.toList with
  | nil => rfl
  | cons c cs ih =>
      rw [List.flatMap_cons, List.countP_append, ih, countP_rereadChar, ← List.countP_append,
        List.singleton_append]

end Text

/-- The other spelling of an operator is no text either. -/
theorem Lexer.occurrences_spelledOut (p : Char → Bool) (token : Token) :
    occurrences p token.spelledOut = occurrences p token := by
  unfold Token.spelledOut
  split <;> rfl

namespace Parser

/-- The tokens have at least the quotes of what they spell, and two more for each key that stands in quotes.
If they have no more, no key does. -/
theorem Spans.quotes_le {lexemes : List Lexeme} {tokens rest : List Located} (h : Spans lexemes tokens rest)
    (hproper : AllTokens Lexer.Proper tokens) :
    quotesIn lexemes + quoted rest ≤ quoted tokens ∧
      (quoted tokens ≤ quotesIn lexemes + quoted rest → ∀ lexeme ∈ lexemes, lexeme.Worded) := by
  induction h with
  | nil => exact ⟨Nat.le_of_eq (Nat.zero_add _), fun _ => List.forall_mem_nil _⟩
  | @token lexeme lexemes found tokens rest hmatch hparen _ ih =>
      obtain ⟨hle, hkeys⟩ := ih hproper.tail
      have hfound := hproper.head
      rw [quotesIn_cons, quoted_cons]
      cases lexeme with
      | token written =>
          have hspelled : found.token.spelledOut = written := hmatch
          rw [← Lexer.occurrences_spelledOut, hspelled, Lexeme.quotes]
          exact ⟨by omega, fun hge => List.forall_mem_cons.mpr ⟨trivial, hkeys (by omega)⟩⟩
      | key name =>
          rcases hmatch with hword | htext
          · rw [hword] at hfound ⊢
            have hname : Text.quotes name = 0 := hfound.quotes_eq_zero
            simp only [Lexeme.quotes, Lexer.occurrences, hname]
            exact ⟨by omega, fun hge => List.forall_mem_cons.mpr ⟨hfound, hkeys (by omega)⟩⟩
          · -- the quotes around the key are too many, so the tokens cannot have as few as the lexemes
            have htwo : Lexer.occurrences Lexer.isQuote found.token = Text.quotes name + 2 := by
              rw [htext]
              rfl
            simp only [Lexeme.quotes, htwo]
            exact ⟨by omega, fun hge => by omega⟩
  | @paren lexemes found tokens rest hparen _ ih =>
      have hnone : Lexer.occurrences Lexer.isQuote found.token = 0 := by
        revert hparen
        cases found.token <;> intro hparen <;> first | rfl | cases hparen
      obtain ⟨hle, hkeys⟩ := ih hproper.tail
      rw [quoted_cons, hnone, Nat.zero_add]
      exact ⟨hle, hkeys⟩

end Parser

namespace Expr

@[simp] theorem quotes_enclose (needed : Bool) (text : String) :
    Text.quotes (enclose needed text) = Text.quotes text := by
  cases needed with
  | false => rfl
  | true =>
      have hopen : Text.quotes "(" = 0 := rfl
      have hclose : Text.quotes ")" = 0 := rfl
      simp [enclose, hopen, hclose]

theorem quotes_printAt (expr : Expr) (least : Nat) :
    Text.quotes (expr.printAt least) = Text.quotes (expr.printAt 0) := by
  rw [printAt_eq, quotes_enclose]

/-- The quotes of a printed literal are those around it, if it is a text, and those in it. -/
theorem quotes_print_literal {value : Literal} (hnamed : Named (.literal value)) :
    Text.quotes value.print = Lexer.occurrences Lexer.isQuote value.token := by
  -- whatever a literal is read as, it is one token, and the quotes can be counted in it
  refine ((spells_literal hnamed).lexes.countP_delimiter Lexer.delimiter_isQuote).trans ?_
  cases value with
  | number value =>
      rw [rereadLiteral]
      split <;> rfl
  | text value =>
      have hreread : (Text.reread value).toList.countP Lexer.isQuote = value.toList.countP Lexer.isQuote :=
        Text.quotes_reread value
      simp [rereadLiteral, written, Literal.token, Lexer.occurrences, hreread]
  | boolean value => cases value <;> rfl
  | null => rfl

theorem quotes_symbol (op : BinaryOp) :
    Text.quotes op.symbol = 0 ∧ quotesIn (op.tokens.map .token) = 0 := by
  cases op <;> decide

/-- What is written between the parts of an expression has no quotes. -/
theorem quotes_mark {mark : String}
    (h : mark ∈ [".", "[", "]", "\x7b", "\x7d", "-", "not ", " ", " ? ", " : ", "(", ")", ", ", ": "]) :
    Text.quotes mark = 0 := by
  revert mark
  decide

mutual

/-- **Printing keeps the quotes that an expression is written with,** those around keys apart. -/
theorem quotes_print : ∀ expr : Expr, expr.Everywhere Named →
    Text.quotes (expr.printAt 0) = quotesIn expr.lexemes
  | .literal _, hnamed => quotes_print_literal hnamed
  | .identifier _, hnamed => hnamed.1.quotes_eq_zero
  | .pointer, _ => rfl
  | .member target name, hnamed => by
    have htarget := quotes_print target hnamed.2
    have hname := Text.IsWord.quotes_eq_zero hnamed.1
    simp [printAt, lexemes, Lexer.occurrences, quotes_mark, quotes_printAt target 11, htarget, hname]
  | .index target position, hnamed => by
    have htarget := quotes_print target hnamed.2.1
    have hposition := quotes_print position hnamed.2.2
    simp [printAt, lexemes, Lexer.occurrences, quotes_mark, quotes_printAt target 11, htarget, hposition]
  | .array items, hnamed => by
    have hitems := quotes_printItems items hnamed.2
    simp [printAt, lexemes, Lexer.occurrences, quotes_mark, hitems]
  | .object fields, hnamed => by
    have hfields := quotes_printFields fields hnamed.2
    simp [printAt, lexemes, Lexer.occurrences, quotes_mark, hfields]
  | .unary op operand, hnamed => by
    have hoperand := quotes_print operand hnamed.2
    cases op <;>
      simp [printAt, lexemes, Lexer.occurrences, quotes_mark, quotes_printAt operand 10, hoperand,
        UnaryOp.token]
  | .binary op left right, hnamed => by
    have hleft := quotes_print left hnamed.2.1
    have hright := quotes_print right hnamed.2.2
    obtain ⟨hsymbol, htokens⟩ := quotes_symbol op
    simp [printAt, lexemes, quotes_mark, quotes_printAt left op.leftPrecedence,
      quotes_printAt right op.rightPrecedence, hleft, hright, hsymbol, htokens]
  | .conditional condition yes no, hnamed => by
    have hcondition := quotes_print condition hnamed.2.1
    have hyes := quotes_print yes hnamed.2.2.1
    have hno := quotes_print no hnamed.2.2.2
    simp [printAt, lexemes, Lexer.occurrences, quotes_mark, quotes_printAt condition 2,
      quotes_printAt no 1, hcondition, hyes, hno, Nat.add_assoc]
  | .call name args, hnamed => by
    have hname := Text.IsWord.quotes_eq_zero hnamed.1.1
    have hargs := quotes_printItems args hnamed.2
    simp [printAt, lexemes, Lexer.occurrences, quotes_mark, hname, hargs]

theorem quotes_printItems : ∀ items : List Expr, EverywhereInItems Named items →
    Text.quotes (printItems items) = quotesIn (lexemesOfItems items)
  | [], _ => rfl
  | [item], hnamed => quotes_print item hnamed.1
  | item :: next :: items, hnamed => by
    have hitem := quotes_print item hnamed.1
    have hbehind := quotes_printItems (next :: items) hnamed.2
    simp [printItems, lexemesOfItems, Lexer.occurrences, quotes_mark, hitem, hbehind]

theorem quotes_printFields : ∀ fields : List (String × Expr), EverywhereInFields Named fields →
    Text.quotes (printFields fields) = quotesIn (lexemesOfFields fields)
  | [], _ => rfl
  | [(key, value)], hnamed => by
    have hvalue := quotes_print value hnamed.1
    simp [printFields, lexemesOfFields, Lexer.occurrences, quotes_mark, hvalue]
  | (key, value) :: next :: fields, hnamed => by
    have hvalue := quotes_print value hnamed.1
    have hbehind := quotes_printFields (next :: fields) hnamed.2
    simp [printFields, lexemesOfFields, Lexer.occurrences, quotes_mark, hvalue, hbehind, Nat.add_assoc]

end

mutual

/-- The keys of an expression are among its lexemes. -/
theorem keyworded_iff : ∀ expr : Expr,
    expr.Everywhere Keyworded ↔ ∀ lexeme ∈ expr.lexemes, lexeme.Worded
  | .literal _ | .identifier _ | .pointer => by simp [Everywhere, Keyworded, lexemes]
  | .member target _ => by
    simp [Everywhere, Keyworded, lexemes, or_imp, forall_and, keyworded_iff target]
  | .index target position => by
    simp [Everywhere, Keyworded, lexemes, or_imp, forall_and, keyworded_iff target,
      keyworded_iff position]
  | .array items => by
    simp [Everywhere, Keyworded, lexemes, or_imp, forall_and, keywordedItems_iff items]
  | .object fields => by
    rw [Everywhere, Keyworded, keywordedFields_iff fields]
    simp [lexemes, or_imp, forall_and]
  | .unary _ operand => by
    simp [Everywhere, Keyworded, lexemes, keyworded_iff operand]
  | .binary _ left right => by
    simp [Everywhere, Keyworded, lexemes, or_imp, forall_and, keyworded_iff left,
      keyworded_iff right]
  | .conditional condition yes no => by
    simp [Everywhere, Keyworded, lexemes, or_imp, forall_and, keyworded_iff condition,
      keyworded_iff yes, keyworded_iff no]
  | .call _ args => by
    simp [Everywhere, Keyworded, lexemes, keywordedItems_iff args]

theorem keywordedItems_iff : ∀ items : List Expr,
    EverywhereInItems Keyworded items ↔ ∀ lexeme ∈ lexemesOfItems items, lexeme.Worded
  | [] => by simp [EverywhereInItems, lexemesOfItems]
  | [item] => by simp [EverywhereInItems, lexemesOfItems, keyworded_iff item]
  | item :: next :: items => by
    have hbehind := keywordedItems_iff (next :: items)
    rw [EverywhereInItems, hbehind]
    simp [lexemesOfItems, or_imp, forall_and, keyworded_iff item]

theorem keywordedFields_iff : ∀ fields : List (String × Expr),
    ((∀ field ∈ fields, Text.IsWord field.1) ∧ EverywhereInFields Keyworded fields)
      ↔ ∀ lexeme ∈ lexemesOfFields fields, lexeme.Worded
  | [] => by simp [EverywhereInFields, lexemesOfFields]
  | [(key, value)] => by simp [EverywhereInFields, lexemesOfFields, keyworded_iff value]
  | (key, value) :: next :: fields => by
    have hbehind := keywordedFields_iff (next :: fields)
    rw [EverywhereInFields, List.forall_mem_cons, and_and_and_comm, hbehind]
    simp [lexemesOfFields, or_imp, forall_and, keyworded_iff value, and_assoc]

end

/-- **If the printed text is read as the expression, all keys are words.** -/
theorem keyworded_of_parse_print {expr : Expr} (hnamed : expr.Everywhere Named)
    (h : parse expr.print = .ok expr) : expr.Everywhere Keyworded := by
  obtain ⟨tokens, htokens, hreads⟩ := Parser.reads_of_parse h
  obtain ⟨_, hkeys⟩ := hreads.spans.quotes_le (Lexer.tokens_proper htokens)
  refine (keyworded_iff expr).mpr (hkeys ?_)
  calc
    Parser.quoted tokens = Text.quotes expr.print := (Lexer.quotes_eq_quoted htokens).symm
    _ = quotesIn expr.lexemes := quotes_print expr hnamed
    _ ≤ quotesIn expr.lexemes + Parser.quoted [] := Nat.le_add_right ..

end Expr

end DecisionGraph
