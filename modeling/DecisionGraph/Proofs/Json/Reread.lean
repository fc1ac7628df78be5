import DecisionGraph.Proofs.Double.Numeral
import Mathlib.Data.List.Forall2

/-!
# Compact text is read back

The compact text of a JSON value is a document by the grammar, and what is read of it is the value part by
part (`Written.parse?_compact`), with numbers as the numerals that they are written as. So **the compact text
determines the value** (`Json.compact_injective`), whatever a document may hold that has no value of its own.

The proof follows the reader. A text ends at its quote and an array or an object at its bracket, but a number
ends where something else begins, so what follows a value must not go on with it (`Ends`).
-/

namespace DecisionGraph

namespace Written

/-! ## Numbers -/

/-- What follows begins with nothing that a number can go on with. -/
def Ends (rest : List Char) : Prop :=
  ∀ c ∈ rest.head?, c.isDigit = false ∧ c ≠ '.' ∧ c ≠ 'e' ∧ c ≠ 'E'

/-- Digits are read up to something else. -/
theorem digits?_append {digits rest : List Char} (hne : digits ≠ [])
    (hdigits : ∀ d ∈ digits, d.isDigit = true) (hrest : ∀ c ∈ rest.head?, c.isDigit = false) :
    digits? (digits ++ rest) = some (digits, rest) := by
  have hstop : rest.takeWhile Char.isDigit = [] ∧ rest.dropWhile Char.isDigit = rest := by
    cases rest with
    | nil => exact ⟨rfl, rfl⟩
    | cons c more =>
        have hc : c.isDigit = false := hrest c rfl
        exact ⟨List.takeWhile_cons_of_neg (by simp [hc]), List.dropWhile_cons_of_neg (by simp [hc])⟩
  unfold digits?
  rw [List.takeWhile_append_of_pos hdigits, List.dropWhile_append_of_pos hdigits, hstop.1, hstop.2,
    List.append_nil, if_neg (by simpa using hne)]

theorem whole?_append {digits rest : List Char} (hne : digits ≠ [])
    (hdigits : ∀ d ∈ digits, d.isDigit = true) (hleading : digits.head? = some '0' → digits = ['0'])
    (hrest : ∀ c ∈ rest.head?, c.isDigit = false) : whole? (digits ++ rest) = some (digits, rest) := by
  unfold whole?
  rw [digits?_append hne hdigits hrest]
  split
  · rename_i heq
    obtain ⟨hzero, _⟩ := Prod.mk.inj (Option.some.inj heq)
    rw [hzero] at hleading
    cases hleading rfl
  · rfl

theorem fraction?_append {fraction : Option (List Char)}
    (hfraction : ∀ digits ∈ fraction, digits ≠ [] ∧ ∀ d ∈ digits, d.isDigit = true) {rest : List Char}
    (hrest : ∀ c ∈ rest.head?, c.isDigit = false ∧ c ≠ '.') :
    fraction? (fraction.elim [] ('.' :: ·) ++ rest) = some (fraction, rest) := by
  cases fraction with
  | none =>
      rw [Option.elim_none, List.nil_append]
      unfold fraction?
      split
      · exact absurd rfl (hrest '.' rfl).2
      · rfl
  | some digits =>
      obtain ⟨hne, hdigits⟩ := hfraction digits rfl
      rw [Option.elim_some, List.cons_append]
      have hpoint : ∀ cs, fraction? ('.' :: cs) = (digits? cs).map fun parts => (some parts.1, parts.2) :=
        fun _ => rfl
      rw [hpoint, digits?_append hne hdigits fun c hc => (hrest c hc).1]
      rfl

theorem exponent?_append (exponent : Option Int) {rest : List Char} (hrest : Ends rest) :
    exponent? (exponent.elim [] (fun exponent =>
        'e' :: (if exponent < 0 then '-' else '+') :: decimalDigits exponent.natAbs) ++ rest)
      = some (exponent, rest) := by
  cases exponent with
  | none =>
      rw [Option.elim_none, List.nil_append]
      cases rest with
      | nil => rfl
      | cons c more =>
          obtain ⟨_, _, hlower, hupper⟩ := hrest c rfl
          unfold exponent?
          dsimp only
          rw [if_neg (by simp [hlower, hupper])]
  | some exponent =>
      have hdigits : digits? (decimalDigits exponent.natAbs ++ rest)
          = some (decimalDigits exponent.natAbs, rest) :=
        digits?_append Nat.toDigits_ne_nil
          (fun d hd => Nat.isDigit_of_mem_toDigits (by decide) (by decide) hd) fun c hc => (hrest c hc).1
      rw [Option.elim_some, List.cons_append, List.cons_append]
      unfold exponent?
      dsimp only
      rw [if_pos (Or.inl rfl)]
      by_cases hsign : exponent < 0
      · have hminus : ∀ cs, splitSign ('-' :: cs) = (true, cs) := fun _ => rfl
        rw [if_pos hsign, hminus]
        dsimp only
        rw [hdigits, Option.map_some, ofDecimalDigits_decimalDigits, if_pos rfl,
          Int.ofNat_natAbs_of_nonpos (Int.le_of_lt hsign), Int.neg_neg]
      · have hplus : ∀ cs, splitSign ('+' :: cs) = (false, cs) := fun _ => rfl
        rw [if_neg hsign, hplus]
        dsimp only
        rw [hdigits, Option.map_some, ofDecimalDigits_decimalDigits, if_neg Bool.false_ne_true,
          Int.natAbs_of_nonneg (Int.not_lt.mp hsign)]

/-- What follows the fraction begins with no digit and no point. -/
theorem head?_behind_fraction (exponent : Option Int) {rest : List Char} (hrest : Ends rest) :
    ∀ c ∈ (exponent.elim [] (fun exponent =>
        'e' :: (if exponent < 0 then '-' else '+') :: decimalDigits exponent.natAbs) ++ rest).head?,
      c.isDigit = false ∧ c ≠ '.' := by
  intro c hc
  cases exponent with
  | some exponent =>
      obtain rfl := Option.some.inj hc
      exact ⟨rfl, by decide⟩
  | none => exact ⟨(hrest c hc).1, (hrest c hc).2.1⟩

/-- What follows the digits before the point begins with no digit. -/
theorem head?_behind_whole (fraction : Option (List Char)) {rest : List Char}
    (hrest : ∀ c ∈ rest.head?, c.isDigit = false) :
    ∀ c ∈ (fraction.elim [] ('.' :: ·) ++ rest).head?, c.isDigit = false := by
  intro c hc
  cases fraction with
  | some digits =>
      obtain rfl := Option.some.inj hc
      rfl
  | none => exact hrest c hc

/-- A numeral behind its sign. -/
def unsigned? (negative : Bool) (cs : List Char) : Option (Numeral × List Char) := do
  let (whole, cs) ← whole? cs
  let (fraction, cs) ← fraction? cs
  let (exponent, cs) ← exponent? cs
  return (⟨negative, whole, fraction, exponent⟩, cs)

theorem numeral?_minus (cs : List Char) : numeral? ('-' :: cs) = unsigned? true cs := rfl

theorem numeral?_of_ne_minus {c : Char} (h : c ≠ '-') (cs : List Char) :
    numeral? (c :: cs) = unsigned? false (c :: cs) := by
  unfold numeral?
  split
  rename_i negative rest heq
  split at heq
  · rename_i hfirst
    exact absurd (List.cons.inj hfirst).1 h
  · obtain ⟨rfl, rfl⟩ := Prod.mk.inj heq
    rfl

/-- **A numeral is read back.** -/
theorem numeral?_chars {numeral : Numeral} (h : numeral.WellFormed) {rest : List Char}
    (hrest : Ends rest) : numeral? (numeral.chars ++ rest) = some (numeral, rest) := by
  obtain ⟨negative, whole, fraction, exponent⟩ := numeral
  obtain ⟨hne, hdigits, hleading, hfraction⟩ := h
  dsimp only at hne hdigits hleading hfraction
  have hbehind := head?_behind_fraction exponent hrest
  have hunsigned : ∀ negative, unsigned? negative (whole ++ (fraction.elim [] ('.' :: ·) ++
      (exponent.elim [] (fun exponent =>
        'e' :: (if exponent < 0 then '-' else '+') :: decimalDigits exponent.natAbs) ++ rest)))
        = some (⟨negative, whole, fraction, exponent⟩, rest) := by
    intro negative
    unfold unsigned?
    rw [whole?_append hne hdigits hleading
      (head?_behind_whole fraction fun c hc => (hbehind c hc).1), Option.bind_eq_bind, Option.bind_some]
    dsimp only
    rw [fraction?_append hfraction hbehind, Option.bind_eq_bind, Option.bind_some]
    dsimp only
    rw [exponent?_append exponent hrest]
    rfl
  unfold Numeral.chars
  dsimp only
  rw [List.append_assoc, List.append_assoc, List.append_assoc]
  cases negative with
  | true =>
      rw [if_pos rfl, List.singleton_append, numeral?_minus]
      exact hunsigned true
  | false =>
      obtain ⟨first, more, rfl⟩ := List.exists_cons_of_ne_nil hne
      have hminus : first ≠ '-' := by
        rintro rfl
        exact absurd (hdigits '-' (List.mem_cons_self ..)) (by decide)
      rw [if_neg Bool.false_ne_true, List.nil_append, List.cons_append, numeral?_of_ne_minus hminus]
      exact hunsigned false

/-! ## Texts -/

/-- A piece that a printed character is read as: the character, or its number if that is small. -/
def Stands (piece : Piece) (c : Char) : Prop :=
  piece = .char c ∨ piece = .unit c.toNat ∧ c.toNat < 32

theorem pieces?_digit {c : Char} {digit : Nat} (h : hexValue? c = some digit) (done : List Piece)
    (more value : Nat) (rest : List Char) :
    pieces? done (.digits (more + 1) value) (c :: rest)
      = pieces? done (.digits more (16 * value + digit)) rest := by
  simp only [pieces?, h]

theorem pieces?_last_digit {c : Char} {digit : Nat} (h : hexValue? c = some digit) (done : List Piece)
    (value : Nat) (rest : List Char) :
    pieces? done (.digits 0 value) (c :: rest)
      = pieces? (.unit (16 * value + digit) :: done) .absent rest := by
  simp only [pieces?, h]

/-- An escape of two characters. -/
theorem pieces?_escape {c escaped : Char} (hu : c ≠ 'u') (h : unescape? c = some escaped)
    (done : List Piece) (rest : List Char) :
    pieces? done .absent ('\\' :: c :: rest) = pieces? (.char escaped :: done) .absent rest := by
  rw [pieces?, if_neg (by decide), if_pos rfl, pieces?, if_neg hu, h]

/-- The digits of a number below 32 in base 16. -/
theorem hexDigits_small : ∀ n < 32, (Text.hexDigits n).map hexValue?
    = if n < 16 then [some n] else [some 1, some (n - 16)] := by decide

/-- A character that is no control, quote or backslash stands for itself. -/
theorem pieces?_plain {c : Char} (hquote : c ≠ '"') (hbackslash : c ≠ '\\') (hcontrol : ¬c.toNat < 32)
    (done : List Piece) (rest : List Char) :
    pieces? done .absent (c :: rest) = pieces? (.char c :: done) .absent rest := by
  rw [pieces?, if_neg hquote, if_neg hbackslash, if_neg hcontrol]

/-- An escape names a character below 32 by its digits. -/
theorem pieces?_unit {n : Nat} (h : n < 32) (done : List Piece) (rest : List Char) :
    pieces? done .absent
        ((if n < 16 then ['\\', 'u', '0', '0', '0'] ++ Text.hexDigits n
          else ['\\', 'u', '0', '0'] ++ Text.hexDigits n) ++ rest)
      = pieces? (.unit n :: done) .absent rest := by
  have hzero : hexValue? '0' = some 0 := rfl
  have hbegun : ∀ cs, pieces? done .absent ('\\' :: 'u' :: cs) = pieces? done (.digits 3 0) cs := by
    intro cs
    rw [pieces?, if_neg (by decide), if_pos rfl, pieces?, if_pos rfl]
  have hdigits := hexDigits_small n h
  by_cases hshort : n < 16
  · rw [if_pos hshort] at hdigits ⊢
    obtain ⟨digit, hdigit, hvalue⟩ := List.map_eq_singleton_iff.mp hdigits
    rw [hdigit]
    refine (hbegun ('0' :: '0' :: '0' :: digit :: rest)).trans ?_
    rw [pieces?_digit hzero, pieces?_digit hzero, pieces?_digit hzero, pieces?_last_digit hvalue]
    simp
  · rw [if_neg hshort] at hdigits ⊢
    obtain ⟨high, more, hdigits', hhigh, hmore⟩ := List.map_eq_cons_iff.mp hdigits
    obtain ⟨low, hlow, hvalue⟩ := List.map_eq_singleton_iff.mp hmore
    rw [hdigits', hlow]
    refine (hbegun ('0' :: '0' :: high :: low :: rest)).trans ?_
    rw [pieces?_digit hzero, pieces?_digit hzero, pieces?_digit hhigh, pieces?_last_digit hvalue]
    have hsum : 16 * (16 * (16 * (16 * 0 + 0) + 0) + 1) + (n - 16) = n := by omega
    rw [hsum]

/-- **A printed character is read as a piece.** -/
theorem pieces?_printChar (c : Char) (done : List Piece) (rest : List Char) :
    ∃ piece, Stands piece c
      ∧ pieces? done .absent (Json.printChar c ++ rest) = pieces? (piece :: done) .absent rest := by
  have hescape : ∀ {mark}, mark ≠ 'u' → unescape? mark = some c → ∃ piece, Stands piece c
      ∧ pieces? done .absent (['\\', mark] ++ rest) = pieces? (piece :: done) .absent rest :=
    fun hu hmark => ⟨.char c, Or.inl rfl, pieces?_escape hu hmark done rest⟩
  unfold Json.printChar
  split
  · exact hescape (by decide) (by subst c; rfl)
  rename_i hquote
  split
  · exact hescape (by decide) (by subst c; rfl)
  rename_i hbackslash
  split
  · exact hescape (by decide) (by subst c; rfl)
  split
  · exact hescape (by decide) (by subst c; rfl)
  split
  · exact hescape (by decide) (by subst c; rfl)
  split
  · exact hescape (by decide) (by subst c; rfl)
  split
  · exact hescape (by decide) (by subst c; rfl)
  split
  · rename_i hshort
    have hunit := pieces?_unit (Nat.lt_trans hshort (by decide)) done rest
    rw [if_pos hshort] at hunit
    exact ⟨_, Or.inr ⟨rfl, Nat.lt_trans hshort (by decide)⟩, hunit⟩
  rename_i hlong
  split
  · rename_i hcontrol
    have hunit := pieces?_unit hcontrol done rest
    rw [if_neg hlong] at hunit
    exact ⟨_, Or.inr ⟨rfl, hcontrol⟩, hunit⟩
  · rename_i hcontrol
    exact ⟨.char c, Or.inl rfl, pieces?_plain hquote hbackslash hcontrol done rest⟩

/-- The pieces of a text are read up to its closing quote. -/
theorem pieces?_print (chars : List Char) (done : List Piece) (rest : List Char) :
    ∃ pieces, List.Forall₂ Stands pieces chars
      ∧ pieces? done .absent (chars.flatMap Json.printChar ++ '"' :: rest)
        = some (done.reverse ++ pieces, rest) := by
  induction chars generalizing done with
  | nil =>
      refine ⟨[], .nil, ?_⟩
      rw [List.flatMap_nil, List.nil_append, pieces?, if_pos rfl, List.append_nil]
  | cons c chars ih =>
      obtain ⟨piece, hstands, hread⟩ := pieces?_printChar c done
        (chars.flatMap Json.printChar ++ '"' :: rest)
      obtain ⟨pieces, hpieces, hrest⟩ := ih (piece :: done)
      refine ⟨piece :: pieces, .cons hstands hpieces, ?_⟩
      rw [List.flatMap_cons, List.append_assoc, hread, hrest, List.reverse_cons, List.append_assoc,
        List.singleton_append]

/-- A small unit is no half of a pair. -/
theorem join?_unit {n : Nat} (h : n < 32) (done : List Char) (pieces : List Piece) :
    join? done (.unit n :: pieces) = join? (Char.ofNat n :: done) pieces := by
  have hhigh : isHighSurrogate n = false := by
    unfold isHighSurrogate
    simp
    omega
  have hlow : isLowSurrogate n = false := by
    unfold isLowSurrogate
    simp
    omega
  cases pieces with
  | nil => simp [join?, hhigh, hlow]
  | cons next pieces => cases next <;> simp [join?, hhigh, hlow]

/-- Pieces are joined to the characters that they stand for. -/
theorem join?_stands {pieces : List Piece} {chars : List Char} (h : List.Forall₂ Stands pieces chars)
    (done : List Char) : join? done pieces = some (done.reverse ++ chars) := by
  induction h generalizing done with
  | nil => rw [join?, List.append_nil]
  | @cons piece c pieces chars hstands _ ih =>
      have hjoin : join? done (piece :: pieces) = join? (c :: done) pieces := by
        rcases hstands with rfl | ⟨rfl, hsmall⟩
        · rw [join?]
        · rw [join?_unit hsmall, Char.ofNat_toNat]
      rw [hjoin, ih, List.reverse_cons, List.append_assoc, List.singleton_append]

/-- **A printed text is read back.** -/
theorem text?_print (value : String) (rest : List Char) :
    text? (value.toList.flatMap Json.printChar ++ '"' :: rest) = some (some value, rest) := by
  obtain ⟨pieces, hstands, hpieces⟩ := pieces?_print value.toList [] rest
  unfold text?
  rw [hpieces, Option.map_some, List.reverse_nil, List.nil_append]
  dsimp only
  rw [join?_stands hstands, Option.map_some, List.reverse_nil, List.nil_append, String.ofList_toList]

/-! ## Values -/

mutual

/-- What is read of the compact text of a value. -/
def ofJson : Json → Written
  | .null => .null
  | .boolean value => .boolean value
  | .number value => .number value.numeral
  | .text value => .text (some value)
  | .array items => .array (ofItems items)
  | .object members => .object (ofMembers members)

def ofItems : List Json → List Written
  | [] => []
  | item :: rest => ofJson item :: ofItems rest

def ofMembers : List (String × Json) → List (Option String × Written)
  | [] => []
  | (name, value) :: rest => (some name, ofJson value) :: ofMembers rest

end

theorem skipSpace_of_not_space {c : Char} (h : isSpace c = false) (cs : List Char) :
    skipSpace (c :: cs) = c :: cs := List.dropWhile_cons_of_neg (by simp [h])

/-- A numeral begins with nothing that other values begin with. -/
theorem not_space_of_numeral {c : Char} (h : c.isDigit = true ∨ c = '-') : isSpace c = false ∧ c ≠ ']' := by
  constructor
  · refine Bool.eq_false_iff.mpr fun hspace => ?_
    unfold isSpace at hspace
    simp only [Bool.or_eq_true, beq_iff_eq] at hspace
    rcases hspace with ((rfl | rfl) | rfl) | rfl <;> exact absurd h (by decide)
  · rintro rfl
    exact absurd h (by decide)

/-- The text of a value begins with neither white space nor a closing bracket. -/
theorem compactChars_eq (value : Json) :
    ∃ c cs, value.compactChars = c :: cs ∧ isSpace c = false ∧ c ≠ ']' := by
  cases value with
  | null | text | array | object => exact ⟨_, _, rfl, rfl, by decide⟩
  | boolean value => cases value <;> exact ⟨_, _, rfl, rfl, by decide⟩
  | number value =>
      obtain ⟨c, cs, hchars, hc⟩ := value.numeral_wellFormed.chars_eq
      refine ⟨c, cs, ?_, not_space_of_numeral hc⟩
      rw [← hchars]
      show value.print.toList = _
      rw [value.print_eq, String.toList_ofList]

theorem value?_number {c : Char} (h : c.isDigit = true ∨ c = '-') (room : Nat) (cs : List Char) :
    value? (room + 1) (c :: cs)
      = (numeral? (c :: cs)).map fun (numeral, rest) => (.number numeral, rest) := by
  rw [value?, skipSpace_of_not_space (not_space_of_numeral h).1]
  split <;> rename_i heq
  case h_7 => rfl
  all_goals
    obtain rfl := (List.cons.inj heq).1
    exact absurd h (by decide)

/-- An array that is not closed at once has items. -/
theorem value?_array {c : Char} (hspace : isSpace c = false) (hclose : c ≠ ']') (room : Nat)
    (cs : List Char) :
    value? (room + 1) ('[' :: c :: cs)
      = (items? room (c :: cs)).map fun (items, rest) => (.array items, rest) := by
  have hopen : skipSpace ('[' :: c :: cs) = '[' :: c :: cs := rfl
  rw [value?, hopen]
  split <;> rename_i heq
  case h_5 =>
    obtain rfl := (List.cons.inj heq).2
    rw [skipSpace_of_not_space hspace]
    split
    · rename_i heq
      exact absurd (List.cons.inj heq).1 hclose
    · rfl
  case h_7 hnone => exact absurd rfl (hnone _)
  all_goals exact absurd (List.cons.inj heq).1 (by decide)

/-- The same of an object and members. -/
theorem value?_object {c : Char} (hspace : isSpace c = false) (hclose : c ≠ '\x7d') (room : Nat)
    (cs : List Char) :
    value? (room + 1) ('\x7b' :: c :: cs)
      = (members? room (c :: cs)).map fun (members, rest) => (.object members, rest) := by
  have hopen : skipSpace ('\x7b' :: c :: cs) = '\x7b' :: c :: cs := rfl
  rw [value?, hopen]
  split <;> rename_i heq
  case h_6 =>
    obtain rfl := (List.cons.inj heq).2
    rw [skipSpace_of_not_space hspace]
    split
    · rename_i heq
      exact absurd (List.cons.inj heq).1 hclose
    · rfl
  case h_7 => exact absurd rfl (heq _)
  all_goals exact absurd (List.cons.inj heq).1 (by decide)

section Parts

variable {room : Nat} {cs more rest : List Char} {item : Written} {name : Option String}

theorem items?_last (h : value? room cs = some (item, ']' :: rest)) :
    items? (room + 1) cs = some ([item], rest) := by
  rw [items?, h]
  rfl

theorem items?_more (h : value? room cs = some (item, ',' :: rest)) :
    items? (room + 1) cs = (items? room rest).map fun (items, rest) => (item :: items, rest) := by
  rw [items?, h]
  rfl

/-- A member is the last one if a brace follows, and there are more if a comma does. -/
theorem members?_quote (hname : text? cs = some (name, ':' :: more))
    (h : value? room more = some (item, rest)) :
    (∀ others, skipSpace rest = '\x7d' :: others →
        members? (room + 1) ('"' :: cs) = some ([(name, item)], others))
      ∧ ∀ others, skipSpace rest = ',' :: others → members? (room + 1) ('"' :: cs)
        = (members? room others).map fun (members, rest) => ((name, item) :: members, rest) := by
  -- the branches that read a member have what is there as their pattern, so each is taken in turn
  have hopen : skipSpace ('"' :: cs) = '"' :: cs := rfl
  have hcolon : skipSpace (':' :: more) = ':' :: more := rfl
  rw [members?, hopen]
  split
  case h_2 hnone => exact absurd rfl (hnone _)
  rename_i heq
  obtain rfl := (List.cons.inj heq).2
  rw [hname]
  dsimp only
  rw [hcolon]
  split
  case h_2 hnone => exact absurd rfl (hnone _)
  rename_i heq
  obtain rfl := (List.cons.inj heq).2
  rw [h]
  dsimp only
  constructor
  · intro others hrest
    rw [hrest]
    rfl
  · intro others hrest
    rw [hrest]
    rfl

theorem members?_last (hname : text? cs = some (name, ':' :: more))
    (h : value? room more = some (item, '\x7d' :: rest)) :
    members? (room + 1) ('"' :: cs) = some ([(name, item)], rest) :=
  (members?_quote hname h).1 rest rfl

theorem members?_more (hname : text? cs = some (name, ':' :: more))
    (h : value? room more = some (item, ',' :: rest)) :
    members? (room + 1) ('"' :: cs)
      = (members? room rest).map fun (members, rest) => ((name, item) :: members, rest) :=
  (members?_quote hname h).2 rest rfl

end Parts

theorem ends_cons {c : Char} (h : c.isDigit = false ∧ c ≠ '.' ∧ c ≠ 'e' ∧ c ≠ 'E') (rest : List Char) :
    Ends (c :: rest) := by
  intro d hd
  obtain rfl := Option.some.inj hd
  exact h

theorem length_compactChars_pos (value : Json) : 0 < value.compactChars.length := by
  obtain ⟨c, cs, hchars, _⟩ := compactChars_eq value
  rw [hchars]
  exact Nat.zero_lt_succ _

/-- The text of items begins as that of the first one. -/
theorem compactItems_eq (item : Json) (items : List Json) :
    ∃ cs, Json.compactItems (item :: items) = item.compactChars ++ cs := by
  cases items with
  | nil => exact ⟨[], (List.append_nil _).symm⟩
  | cons next more => exact ⟨_, rfl⟩

theorem compactMembers_eq (member : String × Json) (members : List (String × Json)) :
    ∃ cs, Json.compactMembers (member :: members) = '"' :: cs := by
  cases members with
  | nil => exact ⟨_, rfl⟩
  | cons next more => exact ⟨_, rfl⟩

mutual

/-- **A value is read back from its text,** if there is room enough and what follows does not go on with
it. -/
theorem value?_compactChars : ∀ (value : Json) (room : Nat) (rest : List Char),
    2 * value.compactChars.length ≤ room + 1 → Ends rest →
    value? room (value.compactChars ++ rest) = some (ofJson value, rest)
  | value, 0, rest, hroom, hrest => by
      obtain ⟨c, cs, hchars, _⟩ := compactChars_eq value
      rw [hchars, List.length_cons] at hroom
      omega
  | .null, room + 1, rest, _, _ => rfl
  | .boolean true, room + 1, rest, _, _ => rfl
  | .boolean false, room + 1, rest, _, _ => rfl
  | .number value, room + 1, rest, _, hrest => by
      obtain ⟨c, cs, hchars, hc⟩ := value.numeral_wellFormed.chars_eq
      have hprint : (Json.number value).compactChars = value.numeral.chars := by
        show value.print.toList = _
        rw [value.print_eq, String.toList_ofList]
      have hread := numeral?_chars value.numeral_wellFormed hrest
      rw [hprint]
      rw [hchars, List.cons_append] at hread ⊢
      rw [value?_number hc, hread]
      rfl
  | .text value, room + 1, rest, _, _ => by
      show (text? (value.toList.flatMap Json.printChar ++ ['"'] ++ rest)).map _ = _
      rw [List.append_assoc, List.singleton_append, text?_print]
      rfl
  | .array [], room + 1, rest, _, _ => rfl
  | .array (item :: items), room + 1, rest, hroom, _ => by
      have hlength : (Json.array (item :: items)).compactChars.length
          = (Json.compactItems (item :: items)).length + 2 := by
        show ('[' :: Json.compactItems (item :: items) ++ [']']).length = _
        simp
      have hread := items?_compactItems (item :: items) room rest (by omega) nofun
      obtain ⟨cs, hitems⟩ := compactItems_eq item items
      obtain ⟨c, cs', hitem, hspace, hclose⟩ := compactChars_eq item
      show value? (room + 1) ('[' :: Json.compactItems (item :: items) ++ [']'] ++ rest) = _
      rw [List.append_assoc, List.singleton_append, List.cons_append]
      rw [hitems, hitem, List.append_assoc, List.cons_append] at hread ⊢
      rw [value?_array hspace hclose, hread]
      rfl
  | .object [], room + 1, rest, _, _ => rfl
  | .object (member :: members), room + 1, rest, hroom, _ => by
      have hlength : (Json.object (member :: members)).compactChars.length
          = (Json.compactMembers (member :: members)).length + 2 := by
        show ('\x7b' :: Json.compactMembers (member :: members) ++ ['\x7d']).length = _
        simp
      have hread := members?_compactMembers (member :: members) room rest (by omega) nofun
      obtain ⟨cs, hmembers⟩ := compactMembers_eq member members
      show value? (room + 1) ('\x7b' :: Json.compactMembers (member :: members) ++ ['\x7d'] ++ rest) = _
      rw [List.append_assoc, List.singleton_append, List.cons_append]
      rw [hmembers, List.cons_append] at hread ⊢
      rw [value?_object rfl (by decide), hread]
      rfl

theorem items?_compactItems : ∀ (items : List Json) (room : Nat) (rest : List Char),
    2 * (Json.compactItems items).length ≤ room → items ≠ [] →
    items? room (Json.compactItems items ++ ']' :: rest) = some (ofItems items, rest)
  | [], _, _, _, hne => absurd rfl hne
  | item :: items, 0, _, hroom, _ => by
      obtain ⟨cs, hitems⟩ := compactItems_eq item items
      have hpos := length_compactChars_pos item
      rw [hitems, List.length_append] at hroom
      omega
  | [item], room + 1, rest, hroom, _ => by
      exact items?_last (value?_compactChars item room (']' :: rest) hroom (ends_cons (by decide) rest))
  | item :: next :: more, room + 1, rest, hroom, _ => by
      have hchars : Json.compactItems (item :: next :: more)
          = item.compactChars ++ ',' :: Json.compactItems (next :: more) := rfl
      rw [hchars, List.length_append, List.length_cons] at hroom
      have hitem := value?_compactChars item room
        (',' :: (Json.compactItems (next :: more) ++ ']' :: rest)) (by omega) (ends_cons (by decide) _)
      rw [hchars, List.append_assoc, List.cons_append, items?_more hitem,
        items?_compactItems (next :: more) room rest (by omega) nofun]
      rfl

theorem members?_compactMembers : ∀ (members : List (String × Json)) (room : Nat) (rest : List Char),
    2 * (Json.compactMembers members).length ≤ room → members ≠ [] →
    members? room (Json.compactMembers members ++ '\x7d' :: rest) = some (ofMembers members, rest)
  | [], _, _, _, hne => absurd rfl hne
  | member :: members, 0, _, hroom, _ => by
      obtain ⟨cs, hmembers⟩ := compactMembers_eq member members
      rw [hmembers, List.length_cons] at hroom
      omega
  | [(name, value)], room + 1, rest, hroom, _ => by
      have hchars : Json.compactMembers [(name, value)]
          = '"' :: name.toList.flatMap Json.printChar ++ ['"'] ++ ':' :: value.compactChars := rfl
      rw [hchars] at hroom ⊢
      simp only [List.length_append, List.length_cons] at hroom
      have hvalue := value?_compactChars value room ('\x7d' :: rest) (by omega)
        (ends_cons (by decide) rest)
      simp only [List.append_assoc, List.cons_append, List.nil_append]
      exact members?_last (text?_print name _) hvalue
  | (name, value) :: next :: more, room + 1, rest, hroom, _ => by
      have hchars : Json.compactMembers ((name, value) :: next :: more)
          = '"' :: name.toList.flatMap Json.printChar ++ ['"'] ++ ':' :: value.compactChars
            ++ ',' :: Json.compactMembers (next :: more) := rfl
      rw [hchars] at hroom ⊢
      simp only [List.length_append, List.length_cons] at hroom
      have hvalue := value?_compactChars value room
        (',' :: (Json.compactMembers (next :: more) ++ '\x7d' :: rest)) (by omega)
        (ends_cons (by decide) _)
      simp only [List.append_assoc, List.cons_append, List.nil_append]
      rw [members?_more (text?_print name _) hvalue,
        members?_compactMembers (next :: more) room rest (by omega) nofun]
      rfl

end

/-- **Compact text is read back.** -/
theorem parse?_compact (value : Json) : parse? value.compact = some (ofJson value) := by
  have hread := value?_compactChars value (2 * value.compactChars.length + 1) [] (by omega) nofun
  rw [List.append_nil] at hread
  unfold parse? Json.compact
  rw [String.toList_ofList]
  dsimp only
  rw [hread]
  rfl

/-! ## What is read determines the value -/

mutual

theorem ofJson_injective : ∀ {value other : Json}, ofJson value = ofJson other → value = other
  | .null, other, h => by cases other <;> first | rfl | cases h
  | .boolean value, other, h => by
      cases other <;> cases h
      rfl
  | .number value, other, h => by
      cases other with
      | number value' => rw [Number.numeral_injective (Written.number.inj h)]
      | _ => cases h
  | .text value, other, h => by
      cases other <;> cases h
      rfl
  | .array items, other, h => by
      cases other with
      | array others => rw [ofItems_injective (Written.array.inj h)]
      | _ => cases h
  | .object members, other, h => by
      cases other with
      | object others => rw [ofMembers_injective (Written.object.inj h)]
      | _ => cases h

theorem ofItems_injective : ∀ {items others : List Json}, ofItems items = ofItems others → items = others
  | [], others, h => by
      cases others with
      | nil => rfl
      | cons => cases h
  | item :: rest, others, h => by
      cases others with
      | nil => cases h
      | cons other more =>
          obtain ⟨hitem, hrest⟩ := List.cons.inj h
          rw [ofJson_injective hitem, ofItems_injective hrest]

theorem ofMembers_injective : ∀ {members others : List (String × Json)},
    ofMembers members = ofMembers others → members = others
  | [], others, h => by
      cases others with
      | nil => rfl
      | cons => cases h
  | (name, value) :: rest, others, h => by
      cases others with
      | nil => cases h
      | cons other more =>
          obtain ⟨name', value'⟩ := other
          obtain ⟨hmember, hrest⟩ := List.cons.inj h
          obtain ⟨hname, hvalue⟩ := Prod.mk.inj hmember
          rw [Option.some.inj hname, ofJson_injective hvalue, ofMembers_injective hrest]

end

end Written

/-- **The compact text determines the value.** -/
theorem Json.compact_injective {value other : Json} (h : value.compact = other.compact) :
    value = other := by
  have hread := Written.parse?_compact value
  rw [h, Written.parse?_compact other] at hread
  exact Written.ofJson_injective (Option.some.inj hread).symm

end DecisionGraph
