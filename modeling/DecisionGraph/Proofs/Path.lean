import DecisionGraph.Path
import Mathlib.Data.List.DropRight
import Mathlib.Data.List.TakeWhile

/-!
# Paths put together

A key that is written behind `$.` is the same path below `$`, one step longer. It is read in the same way,
and all that can come in between is the limit on the number of steps (`Path.parse_dollar`).

Reading counts the steps only to compare with the limit and to tell a dot at the end from the empty path
(`Path.steps_behind`). Keys are trimmed, and what is put together from trimmed texts is trimmed.
-/

namespace DecisionGraph

/-! ## Trimmed texts -/

namespace Text

theorem trimChars_eq (cs : List Char) : trimChars cs = (cs.dropWhile isBlank).rdropWhile isBlank := rfl

theorem dropWhile_isBlank_eq_self {cs : List Char} :
    cs.dropWhile isBlank = cs ↔ ∀ c ∈ cs.head?, isBlank c = false := by
  cases cs with
  | nil => exact iff_of_true rfl nofun
  | cons c rest => simp [List.dropWhile_eq_self_iff]

theorem rdropWhile_isBlank_eq_self {cs : List Char} :
    cs.rdropWhile isBlank = cs ↔ ∀ c ∈ cs.getLast?, isBlank c = false := by
  cases cs using List.reverseRecOn with
  | nil => exact iff_of_true rfl nofun
  | append_singleton front c => simp

/-- What is trimmed neither starts nor ends with white space. -/
theorem trimChars_eq_self_iff {cs : List Char} : trimChars cs = cs ↔
    (∀ c ∈ cs.head?, isBlank c = false) ∧ ∀ c ∈ cs.getLast?, isBlank c = false := by
  rw [← dropWhile_isBlank_eq_self, ← rdropWhile_isBlank_eq_self, trimChars_eq]
  constructor
  · intro h
    have hsuffix : cs.dropWhile isBlank <:+ cs := List.dropWhile_suffix _
    have hprefix := List.rdropWhile_prefix isBlank (cs.dropWhile isBlank)
    -- nothing is lost on the whole, so nothing is lost in front
    rw [h] at hprefix
    have heq := hsuffix.eq_of_length (le_antisymm hsuffix.length_le hprefix.length_le)
    exact ⟨heq, by rw [heq] at h; exact h⟩
  · intro ⟨hfront, hback⟩
    rw [hfront, hback]

theorem trimChars_trimChars (cs : List Char) : trimChars (trimChars cs) = trimChars cs := by
  have hfront : ∀ c ∈ (trimChars cs).head?, isBlank c = false := by
    intro c hc
    obtain ⟨tail, htail⟩ := List.rdropWhile_prefix isBlank (cs.dropWhile isBlank)
    have hhead := List.head?_dropWhile_not isBlank cs
    rw [← htail, List.head?_append, ← trimChars_eq, Option.mem_def.mp hc] at hhead
    exact hhead
  rw [trimChars_eq (trimChars cs), dropWhile_isBlank_eq_self.mpr hfront, trimChars_eq,
    List.rdropWhile_idempotent]

/-- Trimmed texts put together are trimmed. -/
theorem trimChars_append {first last : List Char} (hfirst : trimChars first = first)
    (hlast : trimChars last = last) (hnone : first ≠ []) (hnone' : last ≠ []) :
    trimChars (first ++ last) = first ++ last := by
  rw [trimChars_eq_self_iff] at hfirst hlast ⊢
  rw [List.head?_append_of_ne_nil _ hnone, List.getLast?_append_of_ne_nil _ hnone']
  exact ⟨hfirst.1, hlast.2⟩

/-- What is left of a text that is not blank is trimmed and not empty. -/
theorem trimmed?_eq_some {text : Option String} {trimmed : String} (h : trimmed? text = some trimmed) :
    trimChars trimmed.toList = trimmed.toList ∧ trimmed.toList ≠ [] := by
  obtain ⟨hmap, hempty⟩ := Option.filter_eq_some_iff.mp h
  obtain ⟨text, -, rfl⟩ := Option.map_eq_some_iff.mp hmap
  refine ⟨?_, by simpa using hempty⟩
  rw [trim, String.toList_ofList, trimChars_trimChars]

end Text

namespace Path

/-! ## Reading, piece by piece -/

section Pieces

variable {path : String} {room count : Nat} {due : Bool} {c : Char} {cs rest behind : List Char}
  {found : Path}

/-- At the end no dot may be left over. -/
theorem steps_end (hend : room = 0 ∨ cs = []) (hcount : count ≠ 0) :
    steps path room ⟨count, due⟩ cs = .ok found ↔ due = false ∧ found = [] := by
  have hsteps : steps path room ⟨count, due⟩ cs
      = if due ∧ count ≠ 0 then .error (.malformed path .trailingDot) else .ok [] := by
    rcases hend with rfl | rfl
    · rw [steps]; nofun
    · rw [steps]; nofun
  rw [hsteps]
  cases due with
  | true => simp [hcount]
  | false => simp [eq_comm]

theorem steps_dot (h : piece due c rest = .ok (.dot, behind)) :
    steps path (room + 1) ⟨count, due⟩ (c :: rest) = steps path room ⟨count, true⟩ behind := by
  rw [steps, h]

/-- What is read at the front is the first step, unless it is one too many. -/
theorem steps_step {segment : Segment} (h : piece due c rest = .ok (.step segment, behind)) :
    steps path (room + 1) ⟨count, due⟩ (c :: rest) = .ok found
      ↔ count < maxLength ∧ ∃ others, steps path room ⟨count + 1, false⟩ behind = .ok others
        ∧ segment :: others = found := by
  rw [steps, h]
  dsimp only
  by_cases hlimit : maxLength < count + 1
  · rw [if_pos hlimit]
    exact iff_of_false nofun fun h => absurd h.1 (by omega)
  · rw [if_neg hlimit, and_iff_right (by omega)]
    cases steps path room ⟨count + 1, false⟩ behind with
    | error error => exact iff_of_false nofun nofun
    | ok others => simp [Except.map]

end Pieces

/-! ## More steps in front -/

section Behind

variable {path path' : String} {room count more : Nat} {due : Bool} {cs : List Char} {found : Path}

theorem steps_behind_end (hend : room = 0 ∨ cs = []) (hcount : count ≠ 0)
    (hlimit : count + more ≤ maxLength) :
    steps path' room ⟨count + more, due⟩ cs = .ok found
      ↔ steps path room ⟨count, due⟩ cs = .ok found ∧ count + more + found.length ≤ maxLength := by
  rw [steps_end hend (by omega), steps_end hend hcount]
  refine (and_iff_left_of_imp fun h => ?_).symm
  rw [h.2]
  exact hlimit

/-- **Steps that were read before count against the limit, and do nothing else.** -/
theorem steps_behind (hcount : count ≠ 0) (hlimit : count + more ≤ maxLength) :
    steps path' room ⟨count + more, due⟩ cs = .ok found
      ↔ steps path room ⟨count, due⟩ cs = .ok found ∧ count + more + found.length ≤ maxLength := by
  -- each step that is read moves one from what is found to the count, and their sum stays
  induction room generalizing count due cs found with
  | zero => exact steps_behind_end (.inl rfl) hcount hlimit
  | succ room ih =>
      cases cs with
      | nil => exact steps_behind_end (.inr rfl) hcount hlimit
      | cons c rest =>
          cases hpiece : piece due c rest with
          | error fault => simp [steps, hpiece]
          | ok next =>
              obtain ⟨next, behind⟩ := next
              cases next with
              | dot =>
                  rw [steps_dot hpiece, steps_dot hpiece]
                  exact ih hcount hlimit
              | step segment =>
                  rw [steps_step hpiece, steps_step hpiece, Nat.add_right_comm]
                  constructor
                  · rintro ⟨hlt, others, hothers, rfl⟩
                    obtain ⟨hothers, hle⟩ := (ih (by omega) (by omega)).mp hothers
                    refine ⟨⟨by omega, others, hothers, rfl⟩, ?_⟩
                    rw [List.length_cons]
                    omega
                  · rintro ⟨⟨-, others, hothers, rfl⟩, hle⟩
                    rw [List.length_cons] at hle
                    refine ⟨by omega, others, (ih (by omega) (by omega)).mpr ⟨hothers, by omega⟩, rfl⟩

/-- Where a step is due there is no dot. -/
theorem piece_ne_dot {c : Char} {rest behind : List Char} : piece true c rest ≠ .ok (.dot, behind) := by
  unfold piece
  split
  · nofun
  split
  · cases bracket rest <;> nofun
  · rw [if_pos rfl]
    dsimp only
    split <;> nofun

/-- A path that is not empty is the same behind one step and a dot. -/
theorem steps_behind_one (path : String) (hnone : cs ≠ []) :
    steps path' cs.length ⟨1, true⟩ cs = .ok found
      ↔ steps path cs.length ⟨0, true⟩ cs = .ok found ∧ found.length < maxLength := by
  obtain ⟨c, rest, rfl⟩ := List.exists_cons_of_ne_nil hnone
  rw [List.length_cons]
  cases hpiece : piece true c rest with
  | error fault => simp [steps, hpiece]
  | ok next =>
      obtain ⟨next, behind⟩ := next
      cases next with
      | dot => exact absurd hpiece piece_ne_dot
      | step segment =>
          rw [steps_step hpiece, steps_step hpiece]
          have hbehind {others : Path} : steps path' rest.length ⟨1 + 1, false⟩ behind = .ok others
              ↔ steps path rest.length ⟨1, false⟩ behind = .ok others
                ∧ 1 + 1 + others.length ≤ maxLength :=
            steps_behind (by decide) (by decide)
          simp only [hbehind]
          constructor
          · rintro ⟨-, others, ⟨hothers, hle⟩, rfl⟩
            refine ⟨⟨by decide, others, hothers, rfl⟩, ?_⟩
            rw [List.length_cons]
            omega
          · rintro ⟨⟨-, others, hothers, rfl⟩, hlt⟩
            rw [List.length_cons] at hlt
            exact ⟨by decide, others, ⟨hothers, by omega⟩, rfl⟩

end Behind

/-- **A key behind `$.` is the same path below `$`.** It is refused if it is no path, and if there is no room
for one step more. -/
theorem parse_dollar {key : String} (htrimmed : Text.trimChars key.toList = key.toList)
    (hkey : key.toList ≠ []) (path : Path) : parse ("$." ++ key) = .ok path
      ↔ ∃ rest, parse key = .ok rest ∧ rest.length < maxLength ∧ .key "$" :: rest = path := by
  have hchars : ("$." ++ key).toList = '$' :: '.' :: key.toList := by simp
  have hfront : Text.trimChars ['$', '.'] = ['$', '.'] := by decide
  have hwhole : Text.trimChars ('$' :: '.' :: key.toList) = '$' :: '.' :: key.toList :=
    Text.trimChars_append hfront htrimmed nofun hkey
  have hdollar : piece true '$' ('.' :: key.toList) = .ok (.step (.key "$"), '.' :: key.toList) := rfl
  have hdot : piece false '.' key.toList = .ok (.dot, key.toList) := rfl
  unfold parse
  rw [hchars, hwhole, htrimmed]
  dsimp only [List.length_cons]
  rw [steps_step hdollar, steps_dot hdot, and_iff_right (by decide)]
  simp only [Nat.zero_add, steps_behind_one key hkey, and_assoc]

end Path

end DecisionGraph
