import DecisionGraph.Proofs.Expression.Splitting

/-!
# Texts side by side

White space separates: what stands in front of it is split into the same tokens whatever comes behind it
(`Lexer.tokens_separated`). The lexer looks at characters behind a token to see where it ends: behind digits
for a point, an exponent and its sign, behind a sign for its second character, behind a letter for more of the
word. White space is none of them, so it tells the lexer what the end of the text tells it (`read_append`). In
a text between quotes it is a character like others, but that text was closed before (`textBody?_append`).

What stands behind the white space is read as if nothing were in front of it, and its tokens lie so much
further on. Where they lie is what `LexesAt` keeps: **each token starts at its offset**, and the next one
behind its end.
-/

namespace DecisionGraph

/-- The token, so many characters further on. -/
def Located.moveBy (distance : Nat) (located : Located) : Located :=
  { located with offset := located.offset + distance }

/-- What the token looks like at its first character: a number starts with a digit, a text with a quote, and
all else as it is written. -/
def Token.startsWith : Token → Char → Bool
  | .number _, c => c.isDigit
  | .text _, c => Lexer.isQuote c
  | token, c => token.print.toList.head? == some c

namespace Lexer

open Text

/-! ## White space behind -/

section Behind

variable {w : Char} (hw : isBlank w = true)
include hw

theorem ne_of_isBlank {c : Char} (hc : isBlank c = false) : w ≠ c := by
  rintro rfl
  rw [hw] at hc
  cases hc

/-- No token reaches across white space. -/
theorem boundary_of_isBlank (behind : List Char) : Boundary (w :: behind) := by
  refine ⟨?_, fun hdot => absurd hdot (ne_of_isBlank hw (by decide))⟩
  by_contra hcontinues
  exact ne_of_isBlank hw (isBlank_of_continues (by simpa using hcontinues)) rfl

variable (behind : List Char)

theorem takeWhile_append_blank {p : Char → Bool} (hp : ∀ c, p c = true → continuesIdentifier c = true)
    (cs : List Char) : (cs ++ w :: behind).takeWhile p = cs.takeWhile p := by
  have hnone : (w :: behind).takeWhile p = [] := (boundary_of_isBlank hw behind).takeWhile_eq_nil hp
  rw [List.takeWhile_append, hnone]
  split
  · rename_i hall
    rw [List.append_nil, (List.takeWhile_prefix p).eq_of_length hall]
  · rfl

theorem takeWhile_isDigit_append (cs : List Char) :
    (cs ++ w :: behind).takeWhile Char.isDigit = cs.takeWhile Char.isDigit :=
  takeWhile_append_blank hw behind (fun _ => continuesIdentifier_of_isDigit) cs

theorem fractionDigits_append (cs : List Char) : fractionDigits (cs ++ w :: behind) = fractionDigits cs := by
  cases cs with
  | nil => exact fractionDigits_boundary (boundary_of_isBlank hw behind)
  | cons c rest =>
      by_cases hc : c = '.'
      · subst hc
        exact takeWhile_isDigit_append hw behind rest
      · unfold fractionDigits
        simp [hc]

theorem exponent_append (cs : List Char) : exponent (cs ++ w :: behind) = exponent cs := by
  have hdigits := takeWhile_isDigit_append hw behind
  cases cs with
  | nil => exact exponent_boundary (boundary_of_isBlank hw behind)
  | cons mark rest =>
      unfold exponent
      rw [List.cons_append]
      dsimp only
      split
      · cases rest with
        | nil =>
            -- neither a sign nor a digit comes behind the mark
            have hnone := hdigits []
            rw [List.nil_append] at hnone ⊢
            simp [ne_of_isBlank hw (c := '-') (by decide), ne_of_isBlank hw (c := '+') (by decide), hnone]
        | cons sign more =>
            by_cases hminus : sign = '-'
            · subst hminus
              simp [hdigits more]
            · by_cases hplus : sign = '+'
              · subst hplus
                simp [hdigits more]
              · have hmore := hdigits (sign :: more)
                rw [List.cons_append] at hmore ⊢
                simp [hminus, hplus, hmore]
      · rfl

omit hw in
/-- The point and the digits behind it are there. -/
theorem pointWidth_le (cs : List Char) :
    (if (fractionDigits cs).isEmpty then 0 else (fractionDigits cs).length + 1) ≤ cs.length := by
  unfold fractionDigits
  split
  · rename_i rest
    have hle : (rest.takeWhile Char.isDigit).length ≤ rest.length :=
      (List.takeWhile_sublist _).length_le
    rw [List.length_cons]
    split <;> omega
  · exact Nat.zero_le _

theorem number_append_blank (cs : List Char) : number (cs ++ w :: behind) = number cs := by
  have hwhole : (cs ++ w :: behind).takeWhile inWhole = cs.takeWhile inWhole :=
    takeWhile_append_blank hw behind (fun _ => continuesIdentifier_of_inWhole) cs
  have hle : (cs.takeWhile inWhole).length ≤ cs.length := (List.takeWhile_sublist _).length_le
  unfold number
  dsimp only
  rw [hwhole, List.drop_append_of_le_length hle, fractionDigits_append hw behind,
    List.drop_append_of_le_length (pointWidth_le _), exponent_append hw behind]

/-- No sign has white space for its second character. -/
theorem sign?_append (c : Char) (rest : List Char) : sign? c (rest ++ w :: behind) = sign? c rest := by
  cases rest with
  | nil =>
      have hnone : doubleSign? c w = none := by
        unfold doubleSign?
        split <;> first | rfl | exact absurd hw (by decide)
      unfold sign?
      simp [hnone]
  | cons d rest => rfl

end Behind

/-- A text that is closed does not go on. -/
theorem textBody?_append {mark : Char} {escaped : Bool} {cs : List Char} {found : List Char × Nat}
    (h : textBody? mark escaped cs = some found) (behind : List Char) :
    textBody? mark escaped (cs ++ behind) = some found := by
  induction cs generalizing escaped found with
  | nil => cases h
  | cons c rest ih =>
      rw [List.cons_append, textBody?]
      rw [textBody?] at h
      split_ifs at h ⊢ with hescaped hbackslash hclose
      · obtain ⟨inner, hinner, heq⟩ := Option.map_eq_some_iff.mp h
        rw [ih hinner, Option.map_some, heq]
      · obtain ⟨inner, hinner, heq⟩ := Option.map_eq_some_iff.mp h
        rw [ih hinner, Option.map_some, heq]
      · exact h
      · obtain ⟨inner, hinner, heq⟩ := Option.map_eq_some_iff.mp h
        rw [ih hinner, Option.map_some, heq]

/-- **A token is read in the same way with white space behind the text.** -/
theorem read_append {w : Char} (hw : isBlank w = true) {offset : Nat} {c : Char} {rest : List Char}
    {found : Token × Nat} (h : read offset c rest = .ok found) (behind : List Char) :
    read offset c (rest ++ w :: behind) = .ok found := by
  have hnumber := number_append_blank hw behind (c :: rest)
  have hword := takeWhile_append_blank hw behind (fun _ => id) rest
  have hsign := sign?_append hw behind c rest
  rw [List.cons_append] at hnumber
  unfold read at h ⊢
  rw [hnumber, hsign]
  split_ifs at h ⊢
  · exact h
  · cases hbody : textBody? c false rest with
    | none =>
        rw [hbody] at h
        cases h
    | some inner =>
        rw [hbody] at h
        rw [textBody?_append hbody]
        exact h
  · rw [hword]
    exact h
  · exact h

/-! ## Tokens and their places -/

variable {offset : Nat} {cs : List Char} {found : List Located}

/-- **Behind white space tokens are as they are on their own.** -/
theorem LexesAt.append {w : Char} (hw : isBlank w = true) {behind : List Char} {found' : List Located}
    (h : LexesAt offset cs found) (h' : LexesAt (offset + cs.length + 1) behind found') :
    LexesAt offset (cs ++ w :: behind) (found ++ found') := by
  induction h with
  | nil offset => exact .blank hw h'
  | @blank offset c rest found hblank _ ih =>
      refine .blank hblank (ih ?_)
      rwa [List.length_cons, ← Nat.add_assoc, Nat.add_right_comm offset] at h'
  | @token offset c more rest token found hblank hread _ ih =>
      have hread' : ∀ offset, read offset c (more ++ (rest ++ w :: behind)) = .ok (token, more.length + 1) := by
        intro offset
        rw [← List.append_assoc]
        exact read_append hw (hread offset) behind
      have hplace : offset + (c :: (more ++ rest)).length = offset + (more.length + 1) + rest.length := by
        rw [List.length_cons, List.length_append]
        omega
      rw [List.cons_append, List.append_assoc]
      exact .token hblank hread' (ih (hplace ▸ h'))

/-- Tokens lie as far apart wherever the first character stands. -/
theorem LexesAt.moveBy (h : LexesAt offset cs found) (distance : Nat) :
    LexesAt (offset + distance) cs (found.map (Located.moveBy distance)) := by
  induction h with
  | nil offset => exact .nil _
  | @blank offset c rest found hblank _ ih =>
      rw [Nat.add_right_comm] at ih
      exact .blank hblank ih
  | @token offset c more rest token found hblank hread _ ih =>
      rw [Nat.add_right_comm] at ih
      exact .token hblank hread ih

/-- No token lies in front of the first character. -/
theorem LexesAt.le (h : LexesAt offset cs found) : ∀ located ∈ found, offset ≤ located.offset := by
  induction h with
  | nil offset => exact List.forall_mem_nil _
  | blank _ _ ih => exact fun located hlocated => Nat.le_of_succ_le (ih located hlocated)
  | token _ _ _ ih =>
      refine List.forall_mem_cons.mpr ⟨Nat.le_refl _, fun located hlocated => ?_⟩
      exact Nat.le_trans (Nat.le_add_right _ _) (ih located hlocated)

/-- **Each token lies behind the one before it.** -/
theorem LexesAt.pairwise (h : LexesAt offset cs found) :
    found.Pairwise fun first second => first.offset < second.offset := by
  induction h with
  | nil offset => exact .nil
  | blank _ _ ih => exact ih
  | token _ _ hrest ih =>
      refine List.pairwise_cons.mpr ⟨fun located hlocated => ?_, ih⟩
      exact Nat.lt_of_lt_of_le (Nat.lt_add_of_pos_right (Nat.succ_pos _)) (hrest.le located hlocated)

/-- A token starts as it looks. -/
theorem startsWith_of_read {width : Nat} {c : Char} {rest : List Char} {token : Token}
    (h : read offset c rest = .ok (token, width)) : token.startsWith c = true := by
  unfold read at h
  split at h
  · rename_i hdigit
    cases h
    exact hdigit
  split at h
  · rename_i hquote
    split at h <;> cases h
    exact hquote
  split at h
  · cases h
    simp [Token.startsWith, Token.print]
  split at h
  · rename_i found width hsign
    cases h
    unfold sign? at hsign
    split at hsign
    · rename_i hdouble
      cases hsign
      obtain ⟨d, -, hdouble⟩ := Option.bind_eq_some_iff.mp hdouble
      unfold doubleSign? at hdouble
      split at hdouble <;> cases hdouble <;> rfl
    · obtain ⟨_, hsingle, heq⟩ := Option.map_eq_some_iff.mp hsign
      cases heq
      unfold singleSign? at hsingle
      split at hsingle <;> cases hsingle <;> rfl
  split at h
  · rename_i found hmark
    cases h
    unfold mark? at hmark
    split at hmark <;> cases hmark <;> rfl
  · cases h

/-- The token is read from some of the characters. Its offset counts those in front of them, and the first of
them is no white space and starts such a token. -/
def StandsIn (cs : List Char) (located : Located) : Prop :=
  ∃ before c more behind, cs = before ++ c :: (more ++ behind) ∧ located.offset = before.length
    ∧ isBlank c = false ∧ located.token.startsWith c = true
    ∧ read located.offset c (more ++ behind) = .ok (located.token, more.length + 1)

/-- Tokens stand where they lie, also behind other characters. -/
theorem LexesAt.standsIn (h : LexesAt offset cs found) (front : List Char) (hfront : front.length = offset) :
    ∀ located ∈ found, StandsIn (front ++ cs) located := by
  induction h generalizing front with
  | nil offset => exact List.forall_mem_nil _
  | @blank offset c rest found _ _ ih =>
      have hstands := ih (front ++ [c]) (by rw [List.length_append, hfront, List.length_singleton])
      rwa [List.append_assoc, List.singleton_append] at hstands
  | @token offset c more rest token found hblank hread _ ih =>
      have hlength : (front ++ c :: more).length = offset + (more.length + 1) := by
        rw [List.length_append, hfront, List.length_cons]
      have hstands := ih (front ++ c :: more) hlength
      rw [List.append_assoc, List.cons_append] at hstands
      have hstarts := startsWith_of_read (hread offset)
      exact List.forall_mem_cons.mpr
        ⟨⟨front, c, more, rest, rfl, hfront.symm, hblank, hstarts, hread offset⟩, hstands⟩

/--
**White space separates.**

If two texts split into tokens, so does the one that has them side by side with any white space in between:
the tokens are those of the first, and those of the second moved by the length of the first and one. In any
text the offsets of the tokens rise strictly, and each counts the characters in front of its token.
-/
theorem tokens_separated :
    (∀ (first second : String) (w : Char) (found found' : List Located), isBlank w = true →
        tokens first = .ok found → tokens second = .ok found' →
        tokens (first ++ String.singleton w ++ second)
          = .ok (found ++ found'.map (Located.moveBy (first.length + 1))))
      ∧ ∀ (source : String) (found : List Located), tokens source = .ok found →
          (found.Pairwise fun located next => located.offset < next.offset)
            ∧ ∀ located ∈ found, StandsIn source.toList located := by
  refine ⟨fun first second w found found' hw hfirst hsecond => ?_, fun source found hsource => ?_⟩
  · rw [tokens_iff_lexesAt] at hfirst hsecond ⊢
    have hmoved := hsecond.moveBy (first.length + 1)
    rw [← String.length_toList, ← Nat.add_assoc] at hmoved
    rw [String.toList_append, String.toList_append, String.toList_singleton, List.append_assoc,
      List.singleton_append, ← String.length_toList]
    exact hfirst.append hw hmoved
  · have hlexes := tokens_iff_lexesAt.mp hsource
    exact ⟨hlexes.pairwise, hlexes.standsIn [] rfl⟩

/-- Without the space the end of the first text and the start of the second were one number. -/
theorem tokens_separated_exponent :
    tokens "x ?? 2e"
        = .ok [⟨.word "x", 0⟩, ⟨.sign .questions, 2⟩, ⟨.number (.ofDecimal 2 0), 5⟩, ⟨.word "e", 6⟩]
      ∧ tokens "-3 ?" = .ok [⟨.sign .minus, 0⟩, ⟨.number (.ofDecimal 3 0), 1⟩, ⟨.question, 3⟩]
      ∧ tokens ("x ?? 2e" ++ String.singleton '\u3000' ++ "-3 ?")
          = .ok [⟨.word "x", 0⟩, ⟨.sign .questions, 2⟩, ⟨.number (.ofDecimal 2 0), 5⟩, ⟨.word "e", 6⟩,
              ⟨.sign .minus, 8⟩, ⟨.number (.ofDecimal 3 0), 9⟩, ⟨.question, 11⟩]
      ∧ tokens "x ?? 2e-3 ?"
          = .ok [⟨.word "x", 0⟩, ⟨.sign .questions, 2⟩, ⟨.number (.ofDecimal 2 (-3)), 5⟩, ⟨.question, 10⟩] := by
  have hfirst : tokens "x ?? 2e"
      = .ok [⟨.word "x", 0⟩, ⟨.sign .questions, 2⟩, ⟨.number (.ofDecimal 2 0), 5⟩, ⟨.word "e", 6⟩] := by rfl
  have hsecond : tokens "-3 ?"
      = .ok [⟨.sign .minus, 0⟩, ⟨.number (.ofDecimal 3 0), 1⟩, ⟨.question, 3⟩] := by rfl
  refine ⟨hfirst, hsecond, ?_, by rfl⟩
  exact tokens_separated.1 _ _ '\u3000' _ _ (by decide) hfirst hsecond

end Lexer

end DecisionGraph
