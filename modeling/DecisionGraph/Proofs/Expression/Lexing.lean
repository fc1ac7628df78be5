import DecisionGraph.Proofs.Double.Reread
import DecisionGraph.Proofs.Expression.Grammar
import Mathlib.Data.List.TakeWhile

/-!
# Which texts are which tokens

`Lexes` says that characters split into tokens, without counting rounds or offsets; the lexer does as it
says (`Lexes.tokens`). `LexesAt` says where the tokens are, too. A token can be put in front of a text whose
tokens are known if the text starts with a character that no token reaches across (`Boundary`). For each kind
of token there is a lemma that does so, and whatever is printed token by token is read back along them.
-/

namespace DecisionGraph

namespace Text

/-- A word: a character that an identifier can start with, and others that it can go on with. -/
def IsWord (text : String) : Prop :=
  ∃ c tail, text.toList = c :: tail ∧ startsIdentifier c = true ∧
    ∀ d ∈ tail, continuesIdentifier d = true

theorem isWord_iff {text : String} : IsWord text ↔
    (text.toList.head?.any startsIdentifier && text.toList.tail.all continuesIdentifier) = true := by
  unfold IsWord
  cases text.toList with
  | nil => simp
  | cons c tail =>
    constructor
    · rintro ⟨_, _, hlist, hc, htail⟩
      obtain ⟨rfl, rfl⟩ := List.cons.inj hlist
      simpa using And.intro hc htail
    · intro h
      exact ⟨c, tail, rfl, by simpa using h⟩

instance (text : String) : Decidable (IsWord text) := decidable_of_iff _ isWord_iff.symm

/-- Between quotes the character stands for itself, or behind a backslash for what it is read as there. -/
def IsLegible (c : Char) : Prop :=
  isPlain c = true ∨ c ∈ ['"', '\\', '\n', '\r', '\t']

instance (c : Char) : Decidable (IsLegible c) := inferInstanceAs (Decidable (_ ∨ _))

/-- What is read of a character that was printed between quotes: the character if it is legible, and else
what is printed for it, without the backslash. -/
def rereadChar (c : Char) : List Char := if IsLegible c then [c] else (quoteChar c).tail

/-- What is read of a text that was printed in quotes. -/
def reread (text : String) : String := String.ofList (text.toList.flatMap rereadChar)

theorem ne_of_mem_hexDigits {c : Char} (hc : ∀ k < 16, Nat.digitChar k ≠ c) {d : Char} {n : Nat}
    (h : d ∈ hexDigits n) : d ≠ c := by
  unfold hexDigits at h
  induction n using Nat.strong_induction_on with
  | _ n ih =>
      rcases Nat.lt_or_ge n 16 with hlt | hge
      · rw [Nat.toDigits_of_lt_base hlt, List.mem_singleton] at h
        exact h ▸ hc n hlt
      · rw [Nat.toDigits_of_base_le (by decide) hge, List.mem_append, List.mem_singleton] at h
        rcases h with h | rfl
        · exact ih _ (Nat.div_lt_self (by omega) (by decide)) h
        · exact hc _ (Nat.mod_lt _ (by decide))

/-- A character that is not legible is printed behind a backslash, by characters that the lexer takes as they
are, and the first of which is another one. -/
theorem quoteChar_of_not_legible {c : Char} (hc : ¬IsLegible c) :
    ∃ d more, quoteChar c = '\\' :: d :: more ∧ (d = '0' ∨ d = 'u')
      ∧ ∀ e ∈ more, Lexer.isQuote e = false ∧ e ≠ '\\' := by
  have hplain : isPlain c = false := by simpa using fun h => hc (.inl h)
  have hescaped : c ∉ ['"', '\\', '\n', '\r', '\t'] := fun h => hc (.inr h)
  simp only [List.mem_cons, List.not_mem_nil, or_false, not_or] at hescaped
  obtain ⟨hquote, hbackslash, hnewline, hreturn, htab⟩ := hescaped
  unfold quoteChar
  rw [if_neg hquote, if_neg hbackslash, if_neg hnewline, if_neg hreturn, if_neg htab, hplain]
  split
  · exact ⟨'0', [], rfl, .inl rfl, List.forall_mem_nil _⟩
  · refine ⟨'u', '\x7b' :: hexDigits c.toNat ++ ['\x7d'], rfl, .inr rfl, fun e he => ?_⟩
    rw [List.cons_append, List.mem_cons, List.mem_append, List.mem_singleton] at he
    rcases he with rfl | he | rfl
    · decide
    · have hdouble : e ≠ '"' := ne_of_mem_hexDigits (by decide) he
      have hsingle : e ≠ '\'' := ne_of_mem_hexDigits (by decide) he
      have hback : e ≠ '\x60' := ne_of_mem_hexDigits (by decide) he
      exact ⟨by simp [Lexer.isQuote, hdouble, hsingle, hback], ne_of_mem_hexDigits (by decide) he⟩
    · decide

theorem legible_of_head?_rereadChar {c : Char} {cs : List Char}
    (h : (rereadChar c ++ cs).head? = some c) : IsLegible c := by
  by_contra hc
  obtain ⟨d, more, hchars, hd, -⟩ := quoteChar_of_not_legible hc
  rw [rereadChar, if_neg hc, hchars] at h
  obtain rfl := Option.some.inj h
  rcases hd with rfl | rfl
  · exact hc (by decide)
  · exact hc (by decide)

/-- **A text is read as it was printed if all its characters are legible.** -/
theorem reread_eq_iff {text : String} : reread text = text ↔ ∀ c ∈ text.toList, IsLegible c := by
  have hchars : ∀ cs : List Char, cs.flatMap rereadChar = cs ↔ ∀ c ∈ cs, IsLegible c := by
    intro cs
    induction cs with
    | nil => simp
    | cons c cs ih =>
        rw [List.flatMap_cons, List.forall_mem_cons, ← ih]
        constructor
        · intro h
          have hc : IsLegible c := legible_of_head?_rereadChar (congrArg List.head? h)
          rw [rereadChar, if_pos hc] at h
          exact ⟨hc, (List.cons.inj h).2⟩
        · rintro ⟨hc, hcs⟩
          rw [rereadChar, if_pos hc, hcs]
          rfl
  rw [← hchars, reread, ← String.toList_inj, String.toList_ofList]

theorem continuesIdentifier_of_starts {c : Char} (h : startsIdentifier c = true) :
    continuesIdentifier c = true := by
  simp only [startsIdentifier, continuesIdentifier, Bool.or_eq_true] at h ⊢
  rcases h with (h | h) | h
  · exact Or.inl (Or.inl (Or.inl h))
  · exact Or.inl (Or.inr h)
  · exact Or.inr h

theorem toNat_of_isDigit {c : Char} (h : c.isDigit = true) : 48 ≤ c.toNat ∧ c.toNat ≤ 57 := by
  simp only [Char.isDigit, Bool.and_eq_true, decide_eq_true_eq] at h
  exact ⟨UInt32.le_iff_toNat_le.mp h.1, UInt32.le_iff_toNat_le.mp h.2⟩

theorem continuesIdentifier_of_isDigit {c : Char} (h : c.isDigit = true) :
    continuesIdentifier c = true := by
  have hsmall : c.toNat < 128 := by
    have := (toNat_of_isDigit h).2
    omega
  simp [continuesIdentifier, isNumeric, hsmall, h]

/-- The code points of white space. -/
def blankCodes : List Nat := [
  0x9, 0xA, 0xB, 0xC, 0xD, 0x20, 0x85, 0xA0, 0x1680, 0x2000, 0x2001, 0x2002, 0x2003, 0x2004, 0x2005,
  0x2006, 0x2007, 0x2008, 0x2009, 0x200A, 0x2028, 0x2029, 0x202F, 0x205F, 0x3000]

theorem mem_blankCodes {c : Char} (h : isBlank c = true) : c.toNat ∈ blankCodes := by
  simp only [isBlank, inRanges, blankRanges, List.any_cons, List.any_nil, Bool.or_eq_true,
    Bool.and_eq_true, decide_eq_true_eq, Bool.or_false] at h
  simp only [blankCodes, List.mem_cons, List.not_mem_nil, or_false]
  omega

/-- White space is no part of an identifier. -/
theorem isBlank_of_continues {c : Char} (h : continuesIdentifier c = true) : isBlank c = false := by
  have hall : ∀ code ∈ blankCodes, continuesIdentifier (Char.ofNat code) = false := by decide +kernel
  by_contra hblank
  have hc := hall _ (mem_blankCodes (by simpa using hblank))
  rw [Char.ofNat_toNat, h] at hc
  cases hc

/-- An identifier starts with no digit and no quote. -/
theorem not_digit_not_quote_of_starts {c : Char} (h : startsIdentifier c = true) :
    c.isDigit = false ∧ Lexer.isQuote c = false := by
  have hall : ∀ code ∈ [0x22, 0x27, 0x60, 48, 49, 50, 51, 52, 53, 54, 55, 56, 57],
      startsIdentifier (Char.ofNat code) = false := by decide +kernel
  constructor
  · by_contra hdigit
    have hrange := toNat_of_isDigit (by simpa using hdigit)
    have hc := hall c.toNat (by simp only [List.mem_cons, List.not_mem_nil, or_false]; omega)
    rw [Char.ofNat_toNat, h] at hc
    cases hc
  · by_contra hquote
    simp only [Lexer.isQuote, Bool.not_eq_false, Bool.or_eq_true, beq_iff_eq] at hquote
    rcases hquote with (rfl | rfl) | rfl <;> revert h <;> decide

end Text

namespace Lexer

open Text Double

/-! ## Splitting a text into tokens -/

/-- The characters split into the tokens, with nothing but white space between them. -/
inductive Lexes : List Char → List Token → Prop
  | nil : Lexes [] []
  | blank {c : Char} {rest : List Char} {tokens : List Token} (hblank : isBlank c = true)
      (hrest : Lexes rest tokens) : Lexes (c :: rest) tokens
  | token {c : Char} {more rest : List Char} {token : Token} {tokens : List Token}
      (hblank : isBlank c = false)
      (hread : ∀ offset, read offset c (more ++ rest) = .ok (token, more.length + 1))
      (hrest : Lexes rest tokens) : Lexes (c :: (more ++ rest)) (token :: tokens)

/-- As `Lexes`, with the places of the tokens: the first of the characters stands at `offset`. -/
inductive LexesAt : Nat → List Char → List Located → Prop
  | nil (offset : Nat) : LexesAt offset [] []
  | blank {offset : Nat} {c : Char} {rest : List Char} {found : List Located} (hblank : isBlank c = true)
      (hrest : LexesAt (offset + 1) rest found) : LexesAt offset (c :: rest) found
  | token {offset : Nat} {c : Char} {more rest : List Char} {token : Token} {found : List Located}
      (hblank : isBlank c = false)
      (hread : ∀ offset, read offset c (more ++ rest) = .ok (token, more.length + 1))
      (hrest : LexesAt (offset + (more.length + 1)) rest found) :
      LexesAt offset (c :: (more ++ rest)) (⟨token, offset⟩ :: found)

/-- Tokens have places wherever the first character stands. -/
theorem Lexes.exists_lexesAt {cs : List Char} {tokens : List Token} (h : Lexes cs tokens) (offset : Nat) :
    ∃ found, LexesAt offset cs found ∧ found.map Located.token = tokens := by
  induction h generalizing offset with
  | nil => exact ⟨[], .nil offset, rfl⟩
  | blank hblank _ ih =>
      obtain ⟨found, hfound, hmap⟩ := ih (offset + 1)
      exact ⟨found, .blank hblank hfound, hmap⟩
  | @token c more rest token tokens hblank hread _ ih =>
      obtain ⟨found, hfound, hmap⟩ := ih (offset + (more.length + 1))
      exact ⟨⟨token, offset⟩ :: found, .token hblank hread hfound, by rw [List.map_cons, hmap]⟩

/-- **The lexer finds the tokens where they are.** -/
theorem LexesAt.readAll {offset : Nat} {cs : List Char} {found : List Located} (h : LexesAt offset cs found)
    {room : Nat} (hroom : cs.length ≤ room) : Lexer.readAll room offset cs = .ok found := by
  induction h generalizing room with
  | nil offset => cases room <;> rfl
  | @blank offset c rest found hblank _ ih =>
      obtain ⟨room, rfl⟩ := Nat.exists_eq_add_of_lt (Nat.lt_of_lt_of_le (Nat.succ_pos _) hroom)
      rw [Nat.zero_add, Lexer.readAll, if_pos hblank]
      exact ih (Nat.le_of_succ_le_succ (by simpa using hroom))
  | @token offset c more rest token found hblank hread _ ih =>
      obtain ⟨room, rfl⟩ := Nat.exists_eq_add_of_lt (Nat.lt_of_lt_of_le (Nat.succ_pos _) hroom)
      have hlength : rest.length ≤ 0 + room := by
        simp only [List.length_cons, List.length_append] at hroom
        omega
      rw [Lexer.readAll, if_neg (by simp [hblank]), hread]
      dsimp only
      rw [List.drop_succ_cons, List.drop_left, ih hlength]
      rfl

theorem Lexes.readAll {cs : List Char} {tokens : List Token} (h : Lexes cs tokens) {room : Nat}
    (hroom : cs.length ≤ room) (offset : Nat) :
    ∃ found, readAll room offset cs = .ok found ∧ found.map Located.token = tokens := by
  obtain ⟨found, hfound, hmap⟩ := h.exists_lexesAt offset
  exact ⟨found, hfound.readAll hroom, hmap⟩

/-- **The lexer finds the tokens that the characters split into.** -/
theorem Lexes.tokens {source : String} {tokens : List Token} (h : Lexes source.toList tokens) :
    ∃ found, Lexer.tokens source = .ok found ∧ found.map Located.token = tokens :=
  h.readAll (Nat.le_of_eq String.length_toList) 0

/-! ## One token in front -/

/-- No token reaches across the start of these characters. -/
def Boundary : List Char → Prop
  | [] => True
  | c :: rest => continuesIdentifier c = false ∧ (c = '.' → ∀ d ∈ rest.head?, d.isDigit = false)

theorem Boundary.takeWhile_eq_nil {p : Char → Bool}
    (hp : ∀ c, p c = true → continuesIdentifier c = true) {rest : List Char} (h : Boundary rest) :
    rest.takeWhile p = [] := by
  cases rest with
  | nil => rfl
  | cons c rest =>
      rw [List.takeWhile_cons_of_neg]
      intro hc
      have := h.1
      rw [hp c hc] at this
      cases this

section

variable {rest : List Char} {tokens : List Token}

/-- A token of one character. -/
theorem Lexes.single {c : Char} {token : Token} (hblank : isBlank c = false)
    (hread : ∀ offset, read offset c rest = .ok (token, 1)) (h : Lexes rest tokens) :
    Lexes (c :: rest) (token :: tokens) :=
  @Lexes.token c [] rest token tokens hblank hread h

theorem Lexes.word {name : String} (hname : IsWord name) (hrest : Boundary rest)
    (h : Lexes rest tokens) : Lexes (name.toList ++ rest) (.word name :: tokens) := by
  obtain ⟨c, tail, hchars, hstart, htail⟩ := hname
  obtain ⟨hdigit, hquote⟩ := not_digit_not_quote_of_starts hstart
  have hblank := isBlank_of_continues (continuesIdentifier_of_starts hstart)
  have htake : (tail ++ rest).takeWhile continuesIdentifier = tail := by
    rw [List.takeWhile_append_of_pos htail, hrest.takeWhile_eq_nil fun _ => id, List.append_nil]
  have hofList : String.ofList (c :: tail) = name := by rw [← hchars, String.ofList_toList]
  rw [hchars]
  refine .token hblank (fun offset => ?_) h
  rw [read, if_neg (by simp [hdigit]), if_neg (by simp [hquote]), if_pos hstart, htake]
  dsimp only
  rw [hofList]

theorem sign?_of_mark {c : Char} {found : Token} (hmark : mark? c = some found) (hc : c ≠ '?') :
    sign? c rest = none := by
  unfold mark? at hmark
  cases rest <;> split at hmark <;> first | rfl | exact absurd rfl hc | cases hmark

/-- Brackets, and the other marks that no sign starts with. -/
theorem Lexes.mark {c : Char} {found : Token} (hmark : mark? c = some found) (hc : c ≠ '?')
    (h : Lexes rest tokens) : Lexes (c :: rest) (found :: tokens) := by
  have hsign : sign? c rest = none := sign?_of_mark hmark hc
  have hclass : isBlank c = false ∧ c.isDigit = false ∧ isQuote c = false ∧ startsIdentifier c = false := by
    unfold mark? at hmark
    split at hmark <;> first | decide | cases hmark
  obtain ⟨hblank, hdigit, hquote, hstart⟩ := hclass
  refine .single hblank (fun offset => ?_) h
  rw [read, if_neg (by simp [hdigit]), if_neg (by simp [hquote]), if_neg (by simp [hstart]), hsign]
  dsimp only
  rw [hmark]

theorem Lexes.minus (h : Lexes rest tokens) : Lexes ('-' :: rest) (.sign .minus :: tokens) := by
  refine .single (by decide) (fun offset => ?_) h
  cases rest <;> rfl

/-- A question mark with a space behind it is not the start of a sign. -/
theorem Lexes.question (h : Lexes rest tokens) :
    Lexes ('?' :: ' ' :: rest) (.question :: tokens) :=
  .single (by decide) (fun _ => rfl) (.blank (by decide) h)

theorem Lexes.space (h : Lexes rest tokens) : Lexes (' ' :: rest) tokens := .blank (by decide) h

/-! ## Texts -/

theorem textBody?_escaped (c : Char) {text : List Char} {width : Nat}
    (h : textBody? '"' false rest = some (text, width)) :
    textBody? '"' false ('\\' :: c :: rest) = some (unescape c :: text, 2 + width) := by
  simp [textBody?, h]
  omega

/-- What is written for a legible character is read as that character. -/
theorem textBody?_legible {c : Char} (hc : IsLegible c) {text : List Char} {width : Nat}
    (h : textBody? '"' false rest = some (text, width)) :
    textBody? '"' false (quoteChar c ++ rest) = some (c :: text, (quoteChar c).length + width) := by
  by_cases hescaped : c ∈ ['"', '\\', '\n', '\r', '\t']
  · simp only [List.mem_cons, List.not_mem_nil, or_false] at hescaped
    rcases hescaped with rfl | rfl | rfl | rfl | rfl <;> exact textBody?_escaped _ h
  · -- the character stands for itself; zero has an escape of its own, but it is not plain
    have hplain : isPlain c = true := hc.resolve_right hescaped
    have hzero : c ≠ '\x00' := by
      rintro rfl
      exact absurd hplain (by decide)
    simp only [List.mem_cons, List.not_mem_nil, or_false, not_or] at hescaped
    obtain ⟨hquote, hbackslash, hnewline, hreturn, htab⟩ := hescaped
    have hchars : quoteChar c = [c] := by
      simp [quoteChar, hquote, hbackslash, hnewline, hreturn, htab, hzero, hplain]
    rw [hchars]
    simp [textBody?, hquote, hbackslash, h, Nat.add_comm]

theorem textBody?_unescaped {cs : List Char} (hcs : ∀ c ∈ cs, isQuote c = false ∧ c ≠ '\\')
    {text : List Char} {width : Nat} (h : textBody? '"' false rest = some (text, width)) :
    textBody? '"' false (cs ++ rest) = some (cs ++ text, cs.length + width) := by
  induction cs with
  | nil => simpa using h
  | cons c cs ih =>
      obtain ⟨⟨hquote, hbackslash⟩, hcs⟩ := List.forall_mem_cons.mp hcs
      have hdouble : c ≠ '"' := by
        rintro rfl
        cases hquote
      rw [List.cons_append, textBody?, if_neg Bool.false_ne_true, if_neg hbackslash, if_neg hdouble, ih hcs]
      simp
      omega

/-- What is written for a character is read as it says. -/
theorem textBody?_quoteChar (c : Char) {text : List Char} {width : Nat}
    (h : textBody? '"' false rest = some (text, width)) :
    textBody? '"' false (quoteChar c ++ rest)
      = some (rereadChar c ++ text, (quoteChar c).length + width) := by
  unfold rereadChar
  split
  · rename_i hc
    exact textBody?_legible hc h
  · rename_i hc
    obtain ⟨d, more, hchars, hd, hmore⟩ := quoteChar_of_not_legible hc
    rw [hchars]
    have hself : unescape d = d := by rcases hd with rfl | rfl <;> rfl
    refine (textBody?_escaped d (textBody?_unescaped hmore h)).trans ?_
    simp [hself]
    omega

theorem textBody?_quoted (cs : List Char) :
    textBody? '"' false (cs.flatMap quoteChar ++ '"' :: rest)
      = some (cs.flatMap rereadChar, (cs.flatMap quoteChar).length + 1) := by
  induction cs with
  | nil => simp [textBody?]
  | cons c cs ih =>
      rw [List.flatMap_cons, List.append_assoc, textBody?_quoteChar c ih, List.flatMap_cons,
        List.length_append, Nat.add_assoc]

/-- **A text in quotes is read as one text.** -/
theorem Lexes.text (text : String) (h : Lexes rest tokens) :
    Lexes ((quote text).toList ++ rest) (.text (reread text) :: tokens) := by
  have hchars : (quote text).toList ++ rest
      = '"' :: ((text.toList.flatMap quoteChar ++ ['"']) ++ rest) := by
    rw [quote, String.toList_ofList]
    simp
  rw [hchars]
  refine .token (by decide) (fun offset => ?_) h
  rw [read, if_neg (by decide), if_pos (by decide), List.append_assoc, List.singleton_append,
    textBody?_quoted]
  simp [reread]

/-! ## Numbers -/

theorem exponent_boundary (h : Boundary rest) : exponent rest = (0, 0) := by
  cases rest with
  | nil => rfl
  | cons c rest =>
      have hc : ¬(c = 'e' ∨ c = 'E') := by
        rintro (rfl | rfl)
        · exact absurd h.1 (by decide)
        · exact absurd h.1 (by decide)
      unfold exponent
      dsimp only
      rw [if_neg hc]

theorem fractionDigits_boundary (h : Boundary rest) : fractionDigits rest = [] := by
  unfold fractionDigits
  split
  · rename_i more
    have hmore := h.2 rfl
    cases more with
    | nil => rfl
    | cons d more => rw [List.takeWhile_cons_of_neg (by simp [hmore d rfl])]
  · rfl

theorem continuesIdentifier_of_inWhole {c : Char} (h : inWhole c = true) :
    continuesIdentifier c = true := by
  rcases Bool.or_eq_true _ _ ▸ h with hdigit | hline
  · exact continuesIdentifier_of_isDigit hdigit
  · obtain rfl := beq_iff_eq.mp hline
    decide

/-- A number that is written without an exponent takes its digits and its point, and nothing more. -/
theorem number_append {whole fraction : List Char} (hwhole : ∀ d ∈ whole, d.isDigit = true)
    (hfraction : ∀ d ∈ fraction, d.isDigit = true) (hrest : Boundary rest) :
    number (whole ++ (pointed fraction ++ rest))
      = (.number (.ofDecimal (ofDecimalDigits (whole ++ fraction)) (-(fraction.length : Int))),
          whole.length + (pointed fraction).length) := by
  have hin : ∀ d ∈ whole, inWhole d = true := fun d hd => by simp [inWhole, hwhole d hd]
  -- the whole part ends at the point, or at the boundary
  have hbehind : (pointed fraction ++ rest).takeWhile inWhole = [] := by
    unfold pointed
    split
    · exact hrest.takeWhile_eq_nil fun _ => continuesIdentifier_of_inWhole
    · rfl
  have htake : (whole ++ (pointed fraction ++ rest)).takeWhile inWhole = whole := by
    rw [List.takeWhile_append_of_pos hin, hbehind, List.append_nil]
  have hfilter : whole.filter Char.isDigit = whole := List.filter_eq_self.mpr hwhole
  have hdigits : fractionDigits (pointed fraction ++ rest) = fraction := by
    unfold pointed
    split
    · rename_i hempty
      rw [List.isEmpty_iff.mp hempty]
      exact fractionDigits_boundary hrest
    · rw [List.cons_append, fractionDigits, List.takeWhile_append_of_pos hfraction,
        hrest.takeWhile_eq_nil fun _ => continuesIdentifier_of_isDigit, List.append_nil]
  have hwidth : (if fraction.isEmpty then 0 else fraction.length + 1) = (pointed fraction).length := by
    unfold pointed
    split <;> simp
  unfold number
  dsimp only
  rw [htake, List.drop_left, hdigits, hwidth, List.drop_left, exponent_boundary hrest, hfilter]
  simp

theorem Lexes.number {whole fraction : List Char} (hne : whole ≠ [])
    (hwhole : ∀ d ∈ whole, d.isDigit = true) (hfraction : ∀ d ∈ fraction, d.isDigit = true)
    (hrest : Boundary rest) (h : Lexes rest tokens) :
    Lexes (whole ++ pointed fraction ++ rest)
      (.number (.ofDecimal (ofDecimalDigits (whole ++ fraction)) (-(fraction.length : Int))) :: tokens) := by
  obtain ⟨c, more, rfl⟩ := List.exists_cons_of_ne_nil hne
  have hdigit := hwhole c (List.mem_cons_self ..)
  have hblank := isBlank_of_continues (continuesIdentifier_of_isDigit hdigit)
  rw [List.cons_append, List.cons_append]
  refine .token hblank (fun offset => ?_) h
  rw [read, if_pos hdigit, List.append_assoc, ← List.cons_append, number_append hwhole hfraction hrest]
  simp
  omega

end

/-! ## What the lexer finds -/

/-- Words are words, and numbers have no sign. -/
def Proper : Token → Prop
  | .word name => IsWord name
  | .number value => value.negative = false
  | _ => True

theorem read_proper {offset width : Nat} {c : Char} {rest : List Char} {token : Token}
    (h : read offset c rest = .ok (token, width)) : Proper token := by
  unfold read at h
  split at h
  · cases h
    rfl
  split at h
  · split at h <;> cases h
    trivial
  split at h
  · rename_i hstart
    cases h
    exact ⟨c, _, String.toList_ofList, hstart, fun d hd => List.mem_takeWhile_imp hd⟩
  split at h
  · cases h
    trivial
  split at h
  · rename_i hmark
    cases h
    unfold mark? at hmark
    split at hmark <;> cases hmark <;> trivial
  · cases h

theorem read_leftParen {offset width : Nat} {c : Char} {rest : List Char}
    (h : read offset c rest = .ok (.leftParen, width)) : c = '(' := by
  unfold read at h
  split at h
  · cases h
  split at h
  · split at h <;> cases h
  split at h
  · cases h
  split at h
  · cases h
  split at h
  · rename_i found hmark
    cases h
    unfold mark? at hmark
    split at hmark <;> first | rfl | cases hmark
  · cases h

/-- Every token was read somewhere in the text. -/
theorem exists_read_of_readAll {room offset : Nat} {cs : List Char} {tokens : List Located}
    (h : readAll room offset cs = .ok tokens) {found : Located} (hfound : found ∈ tokens) :
    ∃ c rest width, c ∈ cs ∧ read found.offset c rest = .ok (found.token, width) := by
  induction room generalizing offset cs tokens with
  | zero =>
      cases h
      exact absurd hfound List.not_mem_nil
  | succ room ih =>
      cases cs with
      | nil =>
          cases h
          exact absurd hfound List.not_mem_nil
      | cons c rest =>
          rw [readAll] at h
          split at h
          · obtain ⟨c', rest', width, hmem, hread⟩ := ih h hfound
            exact ⟨c', rest', width, List.mem_cons_of_mem c hmem, hread⟩
          · split at h
            · cases h
            · rename_i token width hread
              obtain ⟨more, hmore, rfl⟩ := Parser.map_eq_ok.mp h
              rcases List.mem_cons.mp hfound with rfl | hfound
              · exact ⟨c, rest, width, List.mem_cons_self .., hread⟩
              · obtain ⟨c', rest', width', hmem, hread'⟩ := ih hmore hfound
                exact ⟨c', rest', width', List.mem_of_mem_drop hmem, hread'⟩

theorem tokens_proper {source : String} {found : List Located} (h : tokens source = .ok found) :
    ∀ located ∈ found, Proper located.token := by
  intro located hlocated
  obtain ⟨c, rest, width, _, hread⟩ := exists_read_of_readAll h hlocated
  exact read_proper hread

/-- Where a text has no opening parenthesis, no token is one. -/
theorem tokens_ne_leftParen {source : String} {found : List Located} (h : tokens source = .ok found)
    (hsource : '(' ∉ source.toList) : ∀ located ∈ found, located.token ≠ .leftParen := by
  intro located hlocated heq
  obtain ⟨c, rest, width, hmem, hread⟩ := exists_read_of_readAll h hlocated
  rw [heq] at hread
  exact hsource (read_leftParen hread ▸ hmem)

end Lexer

end DecisionGraph
