import DecisionGraph.Proofs.Expression.Lexing
import Mathlib.Algebra.GroupWithZero.Nat

/-!
# Every character is in a token

A text in which the lexer finds tokens splits into these tokens (`Lexer.lexes_of_tokens`): each takes the
characters that it was read from, one at least, and only white space is skipped. So `Lexes` says neither more
nor less than what the lexer does.

Some characters cannot get lost on the way. An opening parenthesis is a token, or it is a character of a text
between quotes; a quote stands around such a text, or it is one of its characters. Whatever the text is made
of, **these delimiters can be counted in the tokens** (`Lexes.countP_delimiter`).
-/

namespace DecisionGraph.Lexer

open Text

/-! ## The characters of a token -/

/-- So many characters at the start have the property. -/
def Starts (q : Char → Prop) (cs : List Char) (width : Nat) : Prop :=
  ∃ taken behind, cs = taken ++ behind ∧ width = taken.length ∧ ∀ c ∈ taken, q c

section Starts

variable {q : Char → Prop} {cs : List Char} {width width' : Nat}

theorem starts_zero (cs : List Char) : Starts q cs 0 := ⟨[], cs, rfl, rfl, List.forall_mem_nil _⟩

theorem starts_takeWhile {p : Char → Bool} (h : ∀ c, p c = true → q c) (cs : List Char) :
    Starts q cs (cs.takeWhile p).length :=
  ⟨_, _, List.takeWhile_append_dropWhile.symm, rfl, fun c hc => h c (List.mem_takeWhile_imp hc)⟩

theorem Starts.cons {c : Char} (hc : q c) (h : Starts q cs width) : Starts q (c :: cs) (width + 1) := by
  obtain ⟨taken, behind, rfl, rfl, htaken⟩ := h
  exact ⟨c :: taken, behind, rfl, rfl, List.forall_mem_cons.mpr ⟨hc, htaken⟩⟩

theorem Starts.add (h : Starts q cs width) (h' : Starts q (cs.drop width) width') :
    Starts q cs (width + width') := by
  obtain ⟨taken, behind, rfl, rfl, htaken⟩ := h
  rw [List.drop_left] at h'
  obtain ⟨more, behind, rfl, rfl, hmore⟩ := h'
  refine ⟨taken ++ more, behind, (List.append_assoc ..).symm, List.length_append.symm, ?_⟩
  exact List.forall_mem_append.mpr ⟨htaken, hmore⟩

end Starts

/-- A digit, or a character that can stand between the digits of a number. -/
def inNumber (c : Char) : Bool := inWhole c || ['.', 'e', 'E', '+', '-'].contains c

theorem inNumber_of_isDigit {c : Char} (h : c.isDigit = true) : inNumber c = true := by
  simp [inNumber, inWhole, h]

theorem starts_exponent (cs : List Char) : Starts (inNumber · = true) cs (exponent cs).2 := by
  have hdigits : ∀ cs : List Char, Starts (inNumber · = true) cs (cs.takeWhile Char.isDigit).length :=
    starts_takeWhile fun _ => inNumber_of_isDigit
  unfold exponent
  split
  · rename_i mark rest
    split
    · rename_i hmark
      have hmark : inNumber mark = true := by rcases hmark with rfl | rfl <;> decide
      split
      rename_i negative signWidth behind hsign
      dsimp only
      split
      · exact starts_zero _
      · -- the mark, the sign and the digits
        have hbehind : Starts (inNumber · = true) rest
            (signWidth + (behind.takeWhile Char.isDigit).length) := by
          split at hsign <;> cases hsign
          · exact Nat.add_comm .. ▸ (hdigits _).cons (by decide)
          · exact Nat.add_comm .. ▸ (hdigits _).cons (by decide)
          · exact (Nat.zero_add _).symm ▸ hdigits _
        have hall := hbehind.cons hmark
        rwa [Nat.add_comm 1, Nat.add_right_comm]
    · exact starts_zero _
  · exact starts_zero _

/-- A number takes digits and what can stand between them. -/
theorem starts_number (cs : List Char) : Starts (inNumber · = true) cs (number cs).2 := by
  have hwhole : Starts (inNumber · = true) cs (cs.takeWhile inWhole).length :=
    starts_takeWhile (fun c hc => by simp [inNumber, hc]) cs
  have hpoint : ∀ cs : List Char, Starts (inNumber · = true) cs
      (if (fractionDigits cs).isEmpty then 0 else (fractionDigits cs).length + 1) := by
    intro cs
    split
    · exact starts_zero _
    · rename_i hfraction
      unfold fractionDigits at hfraction ⊢
      split at hfraction
      · exact (starts_takeWhile (fun _ => inNumber_of_isDigit) _).cons (by decide)
      · exact absurd rfl hfraction
  unfold number
  exact (hwhole.add (hpoint _)).add (by rw [← List.drop_drop]; exact starts_exponent _)

/-! ## Characters that are kept -/

/-- The characters are opening parentheses, or quotes of every kind, or both. -/
structure Delimiter (p : Char → Bool) : Prop where
  cases : ∀ c, p c = true → c = '(' ∨ isQuote c = true
  quotes : ∀ c, isQuote c = true → p c = p '"'

theorem delimiter_leftParen : Delimiter (· == '(') where
  cases := fun _ hc => .inl (beq_iff_eq.mp hc)
  quotes := by
    intro c hc
    simp only [isQuote, Bool.or_eq_true, beq_iff_eq] at hc
    rcases hc with (rfl | rfl) | rfl <;> rfl

theorem delimiter_isQuote : Delimiter isQuote where
  cases := fun _ hc => .inr hc
  quotes := fun _ hc => hc

/-- A character that is no delimiter of any kind. -/
def isInert (c : Char) : Bool := c != '(' && !isQuote c

/-- How many of the characters a token was read from, if only delimiters are counted. -/
def occurrences (p : Char → Bool) : Token → Nat
  | .text text => text.toList.countP p + 2 * (p '"').toNat
  | .leftParen => (p '(').toNat
  | _ => 0

namespace Delimiter

variable {p : Char → Bool} (h : Delimiter p)
include h

theorem eq_false {c : Char} (hc : isInert c = true) : p c = false := by
  by_contra hp
  rcases h.cases c (by simpa using hp) with rfl | hquote
  · cases hc
  · simp [isInert, hquote] at hc

/-- Behind a backslash a delimiter stands for itself, and no other character stands for one. -/
theorem unescape_eq (c : Char) : p (unescape c) = p c := by
  unfold unescape
  split_ifs with hn ht hr
  · rw [hn, h.eq_false (by decide), h.eq_false (by decide)]
  · rw [ht, h.eq_false (by decide), h.eq_false (by decide)]
  · rw [hr, h.eq_false (by decide), h.eq_false (by decide)]
  · rfl

/-- The delimiters of a text are those that it was read from, and the quote behind it. -/
theorem countP_textBody {mark : Char} (hmark : isQuote mark = true) {escaped : Bool} {rest text : List Char}
    {width : Nat} (hbody : textBody? mark escaped rest = some (text, width)) :
    ∃ body behind, rest = body ++ behind ∧ width = body.length
      ∧ body.countP p = text.countP p + (p '"').toNat := by
  induction rest generalizing escaped text width with
  | nil => cases hbody
  | cons c rest ih =>
      -- the character before the rest of the text gives one with as many delimiters, or none
      have hgoes : ∀ {escaped : Bool} {found : List Char × Nat} (kept : List Char),
          textBody? mark escaped rest = some found → [c].countP p = kept.countP p →
          ∃ body behind, c :: rest = body ++ behind ∧ found.2 + 1 = body.length
            ∧ body.countP p = (kept ++ found.1).countP p + (p '"').toNat := by
        intro escaped found kept hfound hkept
        obtain ⟨body, behind, rfl, hwidth, hcount⟩ := ih hfound
        refine ⟨c :: body, behind, rfl, by rw [hwidth, List.length_cons], ?_⟩
        rw [← List.singleton_append, List.countP_append, List.countP_append, hkept, hcount, Nat.add_assoc]
      rw [textBody?] at hbody
      split_ifs at hbody with hescaped hbackslash hclose
      · obtain ⟨found, hfound, heq⟩ := Option.map_eq_some_iff.mp hbody
        obtain ⟨rfl, rfl⟩ := Prod.mk.inj heq
        exact hgoes [unescape c] hfound (by rw [List.countP_singleton, List.countP_singleton, h.unescape_eq])
      · obtain ⟨found, hfound, heq⟩ := Option.map_eq_some_iff.mp hbody
        obtain ⟨rfl, rfl⟩ := Prod.mk.inj heq
        refine hgoes [] hfound ?_
        rw [List.countP_singleton, hbackslash, h.eq_false (by decide)]
        rfl
      · cases hbody
        refine ⟨[c], rest, rfl, rfl, ?_⟩
        rw [List.countP_singleton, hclose, h.quotes _ hmark]
        cases p '"' <;> rfl
      · obtain ⟨found, hfound, heq⟩ := Option.map_eq_some_iff.mp hbody
        obtain ⟨rfl, rfl⟩ := Prod.mk.inj heq
        exact hgoes [c] hfound rfl

end Delimiter

/-! ## What is read -/

/-- The characters are those that the token was read from. -/
structure Taken (taken : List Char) (width : Nat) (token : Token) : Prop where
  width : width = taken.length
  countP : ∀ {p : Char → Bool}, Delimiter p → taken.countP p = occurrences p token

theorem Taken.of_inert {taken : List Char} {width : Nat} {token : Token} (hwidth : width = taken.length)
    (htaken : taken.all isInert = true)
    (htoken : ∀ p : Char → Bool, occurrences p token = 0) : Taken taken width token where
  width := hwidth
  countP := by
    intro p hp
    rw [htoken, List.countP_eq_zero]
    intro c hc
    rw [hp.eq_false (List.all_eq_true.mp htaken c hc)]
    exact Bool.false_ne_true

/-- Characters of a class that has no delimiters. -/
theorem isInert_of_class {q : Char → Bool} (hq : ['(', '"', '\'', '\x60'].any q = false) {c : Char}
    (h : q c = true) : isInert c = true := by
  have hc : c ∉ ['(', '"', '\'', '\x60'] := fun hmem => List.any_eq_false.mp hq c hmem h
  simp only [List.mem_cons, List.not_mem_nil, or_false, not_or] at hc
  obtain ⟨hparen, hdouble, hsingle, hback⟩ := hc
  simp [isInert, isQuote, hparen, hdouble, hsingle, hback]

theorem isInert_of_continues {c : Char} (h : continuesIdentifier c = true) : isInert c = true :=
  isInert_of_class (by decide) h

theorem isInert_of_inNumber {c : Char} (h : inNumber c = true) : isInert c = true :=
  isInert_of_class (by decide) h

theorem number_width_pos {c : Char} (hdigit : c.isDigit = true) (rest : List Char) :
    0 < (number (c :: rest)).2 := by
  unfold number
  dsimp only
  rw [List.takeWhile_cons_of_pos (by simp [inWhole, hdigit]), List.length_cons]
  omega

/-- A sign is one or two characters, none of which is a delimiter. -/
theorem exists_taken_sign {c : Char} {rest : List Char} {found : Sign} {width : Nat}
    (h : sign? c rest = some (found, width)) :
    ∃ more behind, rest = more ++ behind ∧ Taken (c :: more) width (.sign found) := by
  unfold sign? at h
  split at h
  · rename_i found' hdouble
    cases h
    obtain ⟨d, hd, hsign⟩ := Option.bind_eq_some_iff.mp hdouble
    obtain ⟨behind, rfl⟩ := List.head?_eq_some_iff.mp hd
    refine ⟨[d], behind, rfl, .of_inert rfl ?_ fun _ => rfl⟩
    unfold doubleSign? at hsign
    split at hsign <;> first | decide | cases hsign
  · obtain ⟨found', hsign, heq⟩ := Option.map_eq_some_iff.mp h
    cases heq
    refine ⟨[], rest, rfl, .of_inert rfl ?_ fun _ => rfl⟩
    unfold singleSign? at hsign
    split at hsign <;> first | decide | cases hsign

theorem taken_mark {c : Char} {found : Token} (h : mark? c = some found) : Taken [c] 1 found := by
  unfold mark? at h
  split at h
  case h_2 =>
    cases h
    refine ⟨rfl, fun {p} _ => ?_⟩
    cases hp : p '(' <;> simp [occurrences, hp]
  all_goals
    cases h
  all_goals exact .of_inert rfl (by decide) fun _ => rfl

/-- **A token is read from the characters at the start.** -/
theorem exists_taken {offset width : Nat} {c : Char} {rest : List Char} {token : Token}
    (h : read offset c rest = .ok (token, width)) :
    ∃ more behind, rest = more ++ behind ∧ Taken (c :: more) width token := by
  unfold read at h
  split at h
  · rename_i hdigit
    cases h
    have hpos := number_width_pos hdigit rest
    obtain ⟨taken, behind, hcs, hwidth, htaken⟩ := starts_number (c :: rest)
    rw [hwidth] at hpos
    obtain ⟨d, more, rfl⟩ := List.exists_cons_of_length_pos hpos
    obtain ⟨rfl, rfl⟩ := List.cons.inj hcs
    refine ⟨more, behind, rfl, .of_inert hwidth ?_ fun _ => rfl⟩
    exact List.all_eq_true.mpr fun d hd => isInert_of_inNumber (htaken d hd)
  split at h
  · rename_i hquote
    split at h
    · rename_i text width hbody
      cases h
      obtain ⟨body, behind, hrest, hwidth, -⟩ := delimiter_isQuote.countP_textBody hquote hbody
      refine ⟨body, behind, hrest, by rw [hwidth, List.length_cons], fun {p} hp => ?_⟩
      obtain ⟨body', behind', hrest', hwidth', hcount⟩ := hp.countP_textBody hquote hbody
      obtain ⟨rfl, -⟩ := List.append_inj (hrest.symm.trans hrest') (hwidth.symm.trans hwidth')
      rw [List.countP_cons, hcount, hp.quotes c hquote, occurrences, String.toList_ofList]
      cases p '"' <;> simp
    · cases h
  split at h
  · rename_i hstart
    cases h
    refine ⟨_, _, List.takeWhile_append_dropWhile.symm, .of_inert rfl ?_ fun _ => rfl⟩
    refine List.all_eq_true.mpr (List.forall_mem_cons.mpr ⟨?_, fun d hd => ?_⟩)
    · exact isInert_of_continues (continuesIdentifier_of_starts hstart)
    · exact isInert_of_continues (List.mem_takeWhile_imp hd)
  split at h
  · rename_i found width hsign
    cases h
    exact exists_taken_sign hsign
  split at h
  · rename_i found hmark
    cases h
    exact ⟨[], rest, rfl, taken_mark hmark⟩
  · cases h

/-- The place of a token does not matter to it. -/
theorem read_offset {offset : Nat} {c : Char} {rest : List Char} {found : Token × Nat}
    (h : read offset c rest = .ok found) (offset' : Nat) : read offset' c rest = .ok found := by
  unfold read at h ⊢
  split_ifs at h ⊢
  · exact h
  · exact h
  · exact h
  · split at h
    · exact h
    · split at h
      · exact h
      · cases h

theorem lexes_of_readAll {room offset : Nat} {cs : List Char} {found : List Located}
    (h : readAll room offset cs = .ok found) (hroom : cs.length ≤ room) :
    Lexes cs (found.map Located.token) := by
  induction room generalizing offset cs found with
  | zero =>
      obtain rfl := List.length_eq_zero_iff.mp (Nat.le_zero.mp hroom)
      cases h
      exact .nil
  | succ room ih =>
      cases cs with
      | nil =>
          cases h
          exact .nil
      | cons c rest =>
          rw [readAll] at h
          split at h
          · rename_i hblank
            exact .blank hblank (ih h (Nat.le_of_succ_le_succ hroom))
          · rename_i hblank
            split at h
            · cases h
            · rename_i token width hread
              obtain ⟨others, hothers, rfl⟩ := Parser.map_eq_ok.mp h
              obtain ⟨more, behind, rfl, htaken⟩ := exists_taken hread
              rw [htaken.width, List.length_cons] at hread hothers
              rw [List.drop_succ_cons, List.drop_left] at hothers
              have hlength : behind.length ≤ room := by
                simp only [List.length_cons, List.length_append] at hroom
                omega
              exact .token (by simpa using hblank) (read_offset hread) (ih hothers hlength)

/-- **A text in which the lexer finds tokens splits into them.** -/
theorem lexes_of_tokens {source : String} {found : List Located} (h : tokens source = .ok found) :
    Lexes source.toList (found.map Located.token) :=
  lexes_of_readAll h (Nat.le_of_eq String.length_toList)

/-- **What the lexer finds is what there is, with its places.** -/
theorem tokens_iff_lexesAt {source : String} {found : List Located} :
    tokens source = .ok found ↔ LexesAt 0 source.toList found := by
  have hfinds : ∀ {found}, LexesAt 0 source.toList found → tokens source = .ok found :=
    fun h => h.readAll (Nat.le_of_eq String.length_toList)
  refine ⟨fun h => ?_, hfinds⟩
  obtain ⟨found', hfound', -⟩ := (lexes_of_tokens h).exists_lexesAt 0
  have heq : Except.ok found = .ok found' := h.symm.trans (hfinds hfound')
  exact Except.ok.inj heq ▸ hfound'

/-- **Delimiters can be counted in the tokens.** -/
theorem Lexes.countP_delimiter {p : Char → Bool} (hp : Delimiter p) {cs : List Char} {tokens : List Token}
    (h : Lexes cs tokens) : cs.countP p = (tokens.map (occurrences p)).sum := by
  induction h with
  | nil => rfl
  | @blank c rest tokens hblank _ ih =>
      have hinert : isInert c = true := isInert_of_class (by decide) hblank
      rw [List.countP_cons, ih, hp.eq_false hinert]
      rfl
  | @token c more rest token tokens _ hread _ ih =>
      obtain ⟨more', behind, hrest, htaken⟩ := exists_taken (hread 0)
      have hlength : more.length = more'.length := Nat.succ.inj htaken.width
      obtain ⟨rfl, rfl⟩ := List.append_inj hrest hlength
      rw [← List.cons_append, List.countP_append, htaken.countP hp, ih, List.map_cons, List.sum_cons]

end DecisionGraph.Lexer
