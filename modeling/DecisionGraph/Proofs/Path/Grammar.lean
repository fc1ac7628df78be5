import DecisionGraph.Proofs.Expression.Lexing
import DecisionGraph.Proofs.Path

/-!
# The grammar of paths

`Path.Steps` says which characters are a path, and of which steps, without saying how they are read. A bare
key reaches up to the next dot or opening bracket. Behind a step comes the end, a dot and another step, or a
bracket.

Reading keeps one bit, whether a step is due, and the number of steps so far. The bit tells what the rest has
to be: steps where one is due, the end or what can follow a step where none is (`Path.steps_iff`). The number
does nothing but run into the limit. So **`Path.parse` accepts the texts of the grammar with no more than 128
steps, and no others** (`Path.parse_eq_ok_iff`).
-/

namespace DecisionGraph

namespace Text

/-- The longest run at the front of the characters is the one that something else, or nothing, follows. -/
theorem span_iff {p : Char → Bool} {cs run rest : List Char} :
    cs.takeWhile p = run ∧ cs.dropWhile p = rest
      ↔ cs = run ++ rest ∧ (∀ c ∈ run, p c = true) ∧ ∀ c ∈ rest.head?, p c = false := by
  constructor
  · rintro ⟨rfl, rfl⟩
    refine ⟨List.takeWhile_append_dropWhile.symm, fun c hc => List.mem_takeWhile_imp hc, fun c hc => ?_⟩
    have hhead := List.head?_dropWhile_not p cs
    rw [Option.mem_def.mp hc] at hhead
    simpa using hhead
  · rintro ⟨rfl, hrun, hrest⟩
    have hnone : rest.takeWhile p = [] ∧ rest.dropWhile p = rest := by
      cases rest with
      | nil => exact ⟨rfl, rfl⟩
      | cons c rest => simp [hrest c rfl]
    rw [List.takeWhile_append_of_pos hrun, List.dropWhile_append_of_pos hrun, hnone.1, hnone.2]
    exact ⟨List.append_nil run, rfl⟩

theorem trimChars_eq_nil_iff {cs : List Char} : trimChars cs = [] ↔ ∀ c ∈ cs, isBlank c = true := by
  rw [trimChars_eq, List.rdropWhile_eq_nil_iff]
  constructor
  · -- what is left in front would start with something else
    intro h
    rw [← List.dropWhile_eq_nil_iff]
    refine List.eq_nil_iff_forall_not_mem.mpr fun c hc => ?_
    obtain ⟨first, rest, hcons⟩ := List.exists_cons_of_ne_nil (List.ne_nil_of_mem hc)
    have hhead := List.head?_dropWhile_not isBlank cs
    rw [hcons, List.head?_cons] at hhead
    have hfirst := h first (hcons ▸ List.mem_cons_self ..)
    simp [hfirst] at hhead
  · intro h c hc
    exact h c ((List.dropWhile_suffix isBlank).subset hc)

theorem isDigit_of_isBlank {c : Char} (h : isBlank c = true) : c.isDigit = false := by
  by_contra hdigit
  have hother := isBlank_of_continues (continuesIdentifier_of_isDigit (by simpa using hdigit))
  rw [h] at hother
  cases hother

end Text

namespace Path

/-! ## The grammar -/

/-- White space, or nothing. -/
def Blank (cs : List Char) : Prop := ∀ c ∈ cs, Text.isBlank c = true

/-- What stands in a bracket, white space aside: the digits of an index below `2 ^ 64`, or a text between
two quotes of one kind, as it is. -/
inductive Inside : List Char → Segment → Prop
  | index {digits : List Char} (hne : digits ≠ []) (hdigits : ∀ d ∈ digits, d.isDigit = true)
      (hsmall : ofDecimalDigits digits < twoTo 64) : Inside digits (.index (ofDecimalDigits digits))
  | key {quote : Char} {text : List Char} (hquote : quote = '"' ∨ quote = '\'') (htext : quote ∉ text) :
      Inside (quote :: (text ++ [quote])) (.key (String.ofList text))

/-- The characters start with a step, and the last ones are left. -/
inductive Step : List Char → Segment → List Char → Prop
  /-- A bare key takes all characters up to a dot or an opening bracket. White space around it is no part of
  it, and it is not all white space. -/
  | key {run rest : List Char} (hrun : ∀ c ∈ run, c ≠ '.' ∧ c ≠ '[') (hname : ∃ c ∈ run, Text.isBlank c = false)
      (hend : ∀ c ∈ rest.head?, c = '.' ∨ c = '[') :
      Step (run ++ rest) (.key (String.ofList (Text.trimChars run))) rest
  | bracket {before inside after rest : List Char} {segment : Segment} (hbefore : Blank before)
      (hinside : Inside inside segment) (hafter : Blank after) :
      Step ('[' :: (before ++ (inside ++ (after ++ ']' :: rest)))) segment rest

/-- The characters are one step or several. A dot stands between two steps, or nothing if the second one is
in brackets. -/
inductive Steps : List Char → Path → Prop
  | last {cs : List Char} {segment : Segment} (hstep : Step cs segment []) : Steps cs [segment]
  | dot {cs rest : List Char} {segment : Segment} {path : Path} (hstep : Step cs segment ('.' :: rest))
      (hrest : Steps rest path) : Steps cs (segment :: path)
  | bracket {cs rest : List Char} {segment : Segment} {path : Path} (hstep : Step cs segment ('[' :: rest))
      (hrest : Steps ('[' :: rest) path) : Steps cs (segment :: path)

/-- What can come behind a step. -/
inductive Behind : List Char → Path → Prop
  | nothing : Behind [] []
  | dot {rest : List Char} {path : Path} (hrest : Steps rest path) : Behind ('.' :: rest) path
  | bracket {rest : List Char} {path : Path} (hrest : Steps ('[' :: rest) path) : Behind ('[' :: rest) path

theorem steps_iff_behind {cs : List Char} {path : Path} : Steps cs path
    ↔ ∃ segment rest others, Step cs segment rest ∧ Behind rest others ∧ segment :: others = path := by
  constructor
  · intro h
    cases h with
    | last hstep => exact ⟨_, _, _, hstep, .nothing, rfl⟩
    | dot hstep hrest => exact ⟨_, _, _, hstep, .dot hrest, rfl⟩
    | bracket hstep hrest => exact ⟨_, _, _, hstep, .bracket hrest, rfl⟩
  · rintro ⟨segment, rest, others, hstep, hrest, rfl⟩
    cases hrest with
    | nothing => exact .last hstep
    | dot hrest => exact .dot hstep hrest
    | bracket hrest => exact .bracket hstep hrest

/-! ## One step -/

section Brackets

variable {cs rest : List Char} {segment : Segment}

theorem closeBracket_eq_ok_iff {found : Segment} : closeBracket segment cs = .ok (found, rest)
    ↔ segment = found ∧ ∃ after, Blank after ∧ cs = after ++ ']' :: rest := by
  have hclose : closeBracket segment cs = .ok (found, rest)
      ↔ segment = found ∧ cs.dropWhile Text.isBlank = ']' :: rest := by
    unfold closeBracket
    split
    · rename_i hdrop
      simp [hdrop]
    · rename_i hother
      exact iff_of_false nofun fun h => hother rest h.2
  rw [hclose]
  refine and_congr_right fun _ => ?_
  constructor
  · intro hdrop
    obtain ⟨happend, hblank, -⟩ := Text.span_iff.mp ⟨rfl, hdrop⟩
    exact ⟨_, hblank, happend⟩
  · rintro ⟨after, hafter, rfl⟩
    exact (Text.span_iff.mpr ⟨rfl, hafter, by rintro c ⟨⟩; rfl⟩).2

theorem Inside.not_blank {inside : List Char} (h : Inside inside segment) :
    ∃ c more, inside = c :: more ∧ Text.isBlank c = false := by
  cases h with
  | index hne hdigits =>
      obtain ⟨c, more, rfl⟩ := List.exists_cons_of_ne_nil hne
      have hc := Text.continuesIdentifier_of_isDigit (hdigits c (List.mem_cons_self ..))
      exact ⟨c, more, rfl, Text.isBlank_of_continues hc⟩
  | key hquote => exact ⟨_, _, rfl, by rcases hquote with rfl | rfl <;> rfl⟩

/-- White space is skipped up to what stands in the bracket. -/
theorem bracket_eq_ok_of_inside {before inside after : List Char} (hbefore : Blank before)
    (hinside : Inside inside segment) (hafter : Blank after) :
    bracket (before ++ (inside ++ (after ++ ']' :: rest))) = .ok (segment, rest) := by
  have hclose : closeBracket segment (after ++ ']' :: rest) = .ok (segment, rest) :=
    closeBracket_eq_ok_iff.mpr ⟨rfl, after, hafter, rfl⟩
  obtain ⟨c, more, hcons, hc⟩ := hinside.not_blank
  have hskip : (before ++ (inside ++ (after ++ ']' :: rest))).dropWhile Text.isBlank
      = c :: (more ++ (after ++ ']' :: rest)) := by
    refine (Text.span_iff.mpr ⟨by rw [hcons, List.cons_append], hbefore, ?_⟩).2
    rintro _ ⟨⟩
    exact hc
  rw [bracket, hskip]
  dsimp only
  cases hinside with
  | index hne hdigits hsmall =>
      have hdigit := hdigits c (hcons ▸ List.mem_cons_self ..)
      have hquote : ¬(c = '"' ∨ c = '\'') := by
        rintro (rfl | rfl) <;> exact absurd hdigit (by decide)
      -- no digit follows: there is white space or the closing bracket
      have hend : ∀ d ∈ (after ++ ']' :: rest).head?, d.isDigit = false := by
        cases after with
        | nil => rintro _ ⟨⟩; rfl
        | cons d _ => rintro _ ⟨⟩; exact Text.isDigit_of_isBlank (hafter d (List.mem_cons_self ..))
      obtain ⟨htake, hdrop⟩ := Text.span_iff.mpr ⟨rfl, hdigits, hend⟩
      have hempty : ¬(inside.isEmpty = true ∨ twoTo 64 ≤ ofDecimalDigits inside) := by
        rw [List.isEmpty_iff, not_or, Nat.not_le]
        exact ⟨hne, hsmall⟩
      rw [if_neg hquote, ← List.cons_append, ← hcons, htake, hdrop, if_neg hempty]
      exact hclose
  | @key quote text hquote htext =>
      obtain ⟨rfl, rfl⟩ := List.cons.inj hcons
      have hplain : ∀ d ∈ text, decide (d ≠ quote) = true := fun d hd =>
        decide_eq_true fun heq => htext (heq ▸ hd)
      have hsplit : text ++ [quote] ++ (after ++ ']' :: rest) = text ++ quote :: (after ++ ']' :: rest) := by
        simp
      obtain ⟨htake, hdrop⟩ := Text.span_iff.mpr ⟨hsplit, hplain, by rintro _ ⟨⟩; simp⟩
      rw [if_pos hquote, htake, hdrop]
      exact hclose

/-- **A bracket holds what the grammar says.** -/
theorem bracket_eq_ok_iff : bracket cs = .ok (segment, rest)
    ↔ ∃ before inside after, Blank before ∧ Inside inside segment ∧ Blank after
      ∧ cs = before ++ (inside ++ (after ++ ']' :: rest)) := by
  constructor
  · intro h
    unfold bracket at h
    split at h
    · cases h
    rename_i c more hskip
    obtain ⟨hcs, hbefore, -⟩ := Text.span_iff.mp ⟨rfl, hskip⟩
    split at h
    · rename_i hquote
      split at h
      · cases h
      rename_i close behind hdrop
      generalize htake : more.takeWhile _ = text at h
      obtain ⟨hmore, htext, hclose⟩ := Text.span_iff.mp ⟨htake, hdrop⟩
      obtain rfl : close = c := by simpa using hclose close rfl
      obtain ⟨rfl, after, hafter, rfl⟩ := closeBracket_eq_ok_iff.mp h
      refine ⟨_, _, after, hbefore, .key hquote fun hmem => ?_, hafter, ?_⟩
      · simpa using htext close hmem
      · rw [List.cons_append, List.append_assoc, List.singleton_append, ← hmore]
        exact hcs
    · dsimp only at h
      split at h
      · cases h
      rename_i hindex
      obtain ⟨rfl, after, hafter, hbehind⟩ := closeBracket_eq_ok_iff.mp h
      obtain ⟨hmore, hdigits, -⟩ := Text.span_iff.mp ⟨rfl, hbehind⟩
      rw [List.isEmpty_iff, not_or, Nat.not_le] at hindex
      refine ⟨_, _, after, hbefore, .index hindex.1 hdigits hindex.2, hafter, ?_⟩
      rw [← hmore]
      exact hcs
  · rintro ⟨before, inside, after, hbefore, hinside, hafter, rfl⟩
    exact bracket_eq_ok_of_inside hbefore hinside hafter

end Brackets

section Pieces

variable {due : Bool} {c : Char} {rest behind : List Char} {segment : Segment}

/-- Where no step is due a dot can stand. -/
theorem piece_eq_dot_iff :
    piece due c rest = .ok (.dot, behind) ↔ c = '.' ∧ due = false ∧ rest = behind := by
  unfold piece
  by_cases hdot : c = '.'
  · cases due <;> simp [hdot]
  · rw [if_neg hdot]
    refine iff_of_false ?_ fun h => hdot h.1
    split
    · cases bracket rest <;> nofun
    split
    · dsimp only
      split <;> nofun
    · nofun

theorem inKey_iff : inKey c = true ↔ c ≠ '.' ∧ c ≠ '[' := by simp [inKey]

theorem not_step_dot : ¬Step ('.' :: rest) segment behind := by
  generalize hcs : '.' :: rest = cs
  intro h
  cases h with
  | @key run _ hrun hname =>
      obtain ⟨c, hc, -⟩ := hname
      obtain ⟨first, more, rfl⟩ := List.exists_cons_of_ne_nil (List.ne_nil_of_mem hc)
      exact (hrun first (List.mem_cons_self ..)).1 (List.cons.inj hcs).1.symm
  | bracket => exact absurd (List.cons.inj hcs).1 (by decide)

/-- A step that starts with an opening bracket is what is read behind it. -/
theorem step_bracket_iff : Step ('[' :: rest) segment behind ↔ bracket rest = .ok (segment, behind) := by
  constructor
  · generalize hcs : '[' :: rest = cs
    intro h
    cases h with
    | @key run _ hrun hname =>
        obtain ⟨c, hc, -⟩ := hname
        obtain ⟨first, more, rfl⟩ := List.exists_cons_of_ne_nil (List.ne_nil_of_mem hc)
        exact absurd (List.cons.inj hcs).1.symm (hrun first (List.mem_cons_self ..)).2
    | bracket hbefore hinside hafter =>
        rw [(List.cons.inj hcs).2]
        exact bracket_eq_ok_of_inside hbefore hinside hafter
  · intro h
    obtain ⟨before, inside, after, hbefore, hinside, hafter, rfl⟩ := bracket_eq_ok_iff.mp h
    exact .bracket hbefore hinside hafter

/-- Any other step is the key up to the next dot or opening bracket. -/
theorem step_key_iff (hc : inKey c = true) : Step (c :: rest) segment behind
    ↔ Text.trimChars ((c :: rest).takeWhile inKey) ≠ []
      ∧ .key (String.ofList (Text.trimChars ((c :: rest).takeWhile inKey))) = segment
      ∧ (c :: rest).dropWhile inKey = behind := by
  have hname (run : List Char) : Text.trimChars run ≠ [] ↔ ∃ d ∈ run, Text.isBlank d = false := by
    rw [Ne, Text.trimChars_eq_nil_iff]
    simp
  constructor
  · generalize hcs : c :: rest = cs
    intro h
    cases h with
    | @key run _ hrun hletter hend =>
        have hin : ∀ d ∈ run, inKey d = true := fun d hd => inKey_iff.mpr (hrun d hd)
        have hout : ∀ d ∈ behind.head?, inKey d = false := by
          intro d hd
          rcases hend d hd with rfl | rfl <;> rfl
        obtain ⟨htake, hdrop⟩ := Text.span_iff.mpr ⟨rfl, hin, hout⟩
        rw [htake, hdrop]
        exact ⟨(hname run).mpr hletter, rfl, rfl⟩
    | bracket =>
        rw [(List.cons.inj hcs).1] at hc
        cases hc
  · rintro ⟨hletter, rfl, hdrop⟩
    obtain ⟨hcs, hin, hout⟩ := Text.span_iff.mp ⟨rfl, hdrop⟩
    have hend : ∀ d ∈ behind.head?, d = '.' ∨ d = '[' := by
      intro d hd
      have hother := mt inKey_iff.mpr (Bool.not_eq_true _ ▸ hout d hd)
      tauto
    have hstep := Step.key (fun d hd => inKey_iff.mp (hin d hd)) ((hname _).mp hletter) hend
    rwa [← hcs] at hstep

/-- Where a step is due it is read, and where none is due a bracket can be one. -/
theorem piece_eq_step_iff : piece due c rest = .ok (.step segment, behind)
    ↔ Step (c :: rest) segment behind ∧ (due = true ∨ c = '[') := by
  unfold piece
  by_cases hdot : c = '.'
  · subst hdot
    refine iff_of_false ?_ fun h => not_step_dot h.1
    cases due <;> nofun
  by_cases hopen : c = '['
  · subst hopen
    rw [step_bracket_iff, and_iff_left (.inr rfl), if_neg hdot, if_pos rfl]
    cases bracket rest with
    | error fault => exact iff_of_false nofun nofun
    | ok found => simp [Except.map, Prod.ext_iff]
  · rw [step_key_iff (inKey_iff.mpr ⟨hdot, hopen⟩), or_iff_left hopen, if_neg hdot, if_neg hopen]
    cases due with
    | false => exact iff_of_false nofun nofun
    | true =>
        dsimp only
        rw [if_pos rfl]
        split
        · rename_i hempty
          exact iff_of_false nofun fun h => h.1.1 (List.isEmpty_iff.mp hempty)
        · rename_i hletter
          rw [List.isEmpty_iff] at hletter
          simp [hletter]

end Pieces

/-! ## All steps -/

/-- What is left of a path where a step is due, or where none is. -/
def Remains : Bool → List Char → Path → Prop
  | true => Steps
  | false => Behind

section Rounds

variable {path : String} {due : Bool} {c : Char} {cs rest : List Char} {found : Path}

theorem Step.length_lt {segment : Segment} (h : Step cs segment rest) : rest.length < cs.length := by
  cases h with
  | key _ hname =>
      obtain ⟨c, hc, -⟩ := hname
      have hpos := List.length_pos_of_mem hc
      rw [List.length_append]
      omega
  | bracket =>
      simp only [List.length_cons, List.length_append]
      omega

theorem not_steps_nil : ¬Steps [] found := by
  intro h
  obtain ⟨_, _, _, hstep, -⟩ := steps_iff_behind.mp h
  exact absurd hstep.length_lt (Nat.not_lt_zero _)

theorem remains_nil_iff : Remains due [] found ↔ due = false ∧ found = [] := by
  cases due with
  | false =>
      rw [and_iff_right rfl]
      constructor
      · rintro ⟨⟩
        rfl
      · rintro rfl
        exact .nothing
  | true => exact iff_of_false not_steps_nil nofun

/-- What is left starts with what is read of it next. -/
theorem remains_cons_iff : Remains due (c :: rest) found
    ↔ (∃ behind, piece due c rest = .ok (.dot, behind) ∧ Remains true behind found)
      ∨ ∃ segment behind others, piece due c rest = .ok (.step segment, behind)
        ∧ Remains false behind others ∧ segment :: others = found := by
  simp only [piece_eq_dot_iff, piece_eq_step_iff]
  cases due with
  | true =>
      refine steps_iff_behind.trans ⟨?_, ?_⟩
      · rintro ⟨segment, behind, others, hstep, hbehind, rfl⟩
        exact .inr ⟨segment, behind, others, ⟨hstep, .inl rfl⟩, hbehind, rfl⟩
      · rintro (⟨_, ⟨-, hdue, -⟩, -⟩ | ⟨segment, behind, others, ⟨hstep, -⟩, hbehind, rfl⟩)
        · cases hdue
        · exact ⟨segment, behind, others, hstep, hbehind, rfl⟩
  | false =>
      constructor
      · intro h
        cases h with
        | dot hrest => exact .inl ⟨rest, ⟨rfl, rfl, rfl⟩, hrest⟩
        | bracket hrest =>
            obtain ⟨segment, behind, others, hstep, hbehind, rfl⟩ := steps_iff_behind.mp hrest
            exact .inr ⟨segment, behind, others, ⟨hstep, .inr rfl⟩, hbehind, rfl⟩
      · rintro (⟨_, ⟨rfl, -, rfl⟩, hrest⟩ | ⟨segment, behind, others, ⟨hstep, hdue | rfl⟩, hbehind, rfl⟩)
        · exact .dot hrest
        · cases hdue
        · exact .bracket (steps_iff_behind.mpr ⟨segment, behind, others, hstep, hbehind, rfl⟩)

theorem steps_nil_iff {room count : Nat} (hcount : count ≠ 0) (hlimit : count ≤ maxLength) :
    steps path room ⟨count, due⟩ [] = .ok found ↔ Remains due [] found ∧ count + found.length ≤ maxLength := by
  rw [steps_end (.inr rfl) hcount, remains_nil_iff]
  refine (and_iff_left_of_imp ?_).symm
  rintro ⟨-, rfl⟩
  exact hlimit

/-- **Reading takes what the grammar says is left**, as long as the limit on the number of steps lets it. -/
theorem steps_iff {room count : Nat} (hroom : cs.length ≤ room) (hlimit : count ≤ maxLength)
    (hstart : count = 0 → due = true ∧ cs ≠ []) : steps path room ⟨count, due⟩ cs = .ok found
      ↔ Remains due cs found ∧ count + found.length ≤ maxLength := by
  -- each round takes a dot, which a step has to follow, or a step, which is counted
  induction room generalizing count due cs found with
  | zero =>
      obtain rfl := List.length_eq_zero_iff.mp (Nat.le_zero.mp hroom)
      exact steps_nil_iff (fun h => (hstart h).2 rfl) hlimit
  | succ room ih =>
      cases cs with
      | nil => exact steps_nil_iff (fun h => (hstart h).2 rfl) hlimit
      | cons c rest =>
          rw [remains_cons_iff]
          cases hpiece : piece due c rest with
          | error fault => simp [steps, hpiece]
          | ok next =>
              obtain ⟨next, behind⟩ := next
              cases next with
              | dot =>
                  obtain ⟨-, hdue, rfl⟩ := piece_eq_dot_iff.mp hpiece
                  have hcount : count ≠ 0 := fun h => Bool.false_ne_true (hdue.symm.trans (hstart h).1)
                  rw [steps_dot hpiece, ih (Nat.le_of_succ_le_succ hroom) hlimit (absurd · hcount)]
                  simp
              | step segment =>
                  have hshorter := (piece_eq_step_iff.mp hpiece).1.length_lt
                  have hbehind : behind.length ≤ room := Nat.le_of_lt_succ (hshorter.trans_le hroom)
                  have hrest {others : Path} (hlt : count + 1 ≤ maxLength) :
                      steps path room ⟨count + 1, false⟩ behind = .ok others
                        ↔ Remains false behind others ∧ count + 1 + others.length ≤ maxLength :=
                    ih hbehind hlt (absurd · count.succ_ne_zero)
                  rw [steps_step hpiece]
                  constructor
                  · rintro ⟨hlt, others, hothers, rfl⟩
                    obtain ⟨hremains, hle⟩ := (hrest hlt).mp hothers
                    refine ⟨.inr ⟨segment, behind, others, rfl, hremains, rfl⟩, ?_⟩
                    rw [List.length_cons]
                    omega
                  · rintro ⟨⟨_, heq, -⟩ | ⟨_, _, others, heq, hremains, rfl⟩, hle⟩
                    · cases heq
                    · cases heq
                      rw [List.length_cons] at hle
                      exact ⟨by omega, others, (hrest (by omega)).mpr ⟨hremains, by omega⟩, rfl⟩

end Rounds

/-- A text that is more than white space is a path if it is no more steps than there may be. -/
theorem parse_iff_steps {text : String} (hne : Text.trimChars text.toList ≠ []) {path : Path} :
    parse text = .ok path ↔ Steps (Text.trimChars text.toList) path ∧ path.length ≤ maxLength := by
  have hsteps : parse text = .ok path
      ↔ Remains true (Text.trimChars text.toList) path ∧ 0 + path.length ≤ maxLength :=
    steps_iff (Nat.le_refl _) (Nat.zero_le _) fun _ => ⟨rfl, hne⟩
  rwa [Nat.zero_add] at hsteps

/-- **What is a path.** A text is one, of these steps, exactly if there is nothing but white space in it and
there are no steps, or if without the white space around it, it is from 1 to 128 steps of the grammar. -/
theorem parse_eq_ok_iff (text : String) (path : Path) : parse text = .ok path
    ↔ (Text.trimChars text.toList = [] ∧ path = [])
      ∨ (Steps (Text.trimChars text.toList) path ∧ 1 ≤ path.length ∧ path.length ≤ 128) := by
  have hpos (h : Steps (Text.trimChars text.toList) path) : 1 ≤ path.length := by
    obtain ⟨_, _, _, -, -, rfl⟩ := steps_iff_behind.mp h
    exact Nat.le_add_left 1 _
  by_cases hempty : Text.trimChars text.toList = []
  · have hparse : parse text = .ok [] := by
      rw [parse, hempty]
      rfl
    rw [hparse, hempty, and_iff_right rfl, or_iff_left fun h => not_steps_nil h.1, Except.ok.injEq]
    exact eq_comm
  · rw [parse_iff_steps hempty, or_iff_right fun h => hempty h.1]
    exact and_congr_right fun h => (and_iff_right (hpos h)).symm

/-- A dot before a bracket, and white space inside of it and around keys. -/
example : parse " a . b.[ 07 ]['x.y']" = .ok [.key "a", .key "b", .index 7, .key "x.y"] := by rfl

/-- No white space may follow a bracket, not even before a dot. -/
example : parse "a[0] .b" = .error (.malformed "a[0] .b" .missingSeparator) := by rfl

end Path

end DecisionGraph
