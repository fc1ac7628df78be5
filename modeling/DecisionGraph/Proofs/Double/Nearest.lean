import DecisionGraph.Double.Basic

/-!
# What is rounded to a magnitude

The values that round to a finite magnitude reach halfway to its neighbours (`Double.Rounds`). **Every
quotient among them is rounded to the magnitude** (`Rounds.nearest`), whichever fraction the quotient is
given by.

`Double.nearest` settles on an exponent before it rounds. For a value near a power of two this need not be
the exponent of the magnitude that it ends at: from below it is the one before, and the significand rounds
up to one bit more.
-/

namespace DecisionGraph.Double

/-! ## Magnitudes as significand and exponent -/

theorem twoTo_52 : twoTo 52 = 4503599627370496 := rfl

theorem twoTo_53 : twoTo 53 = 9007199254740992 := rfl

/-- The number of a magnitude in terms of its parts. -/
theorem magnitude_eq (magnitude : Nat) :
    raisedExponent magnitude * twoTo 52 + significand magnitude = magnitude := by
  rw [raisedExponent, significand, twoTo_52]
  split <;> omega

theorem significand_lt (magnitude : Nat) : significand magnitude < twoTo 53 := by
  rw [significand, twoTo_52, twoTo_53]
  split <;> omega

theorem significand_pos {magnitude : Nat} (h : 0 < magnitude) : 0 < significand magnitude := by
  rw [significand, twoTo_52]
  split <;> omega

/-- All significands but those of the least exponent have 53 bits. -/
theorem le_significand {magnitude : Nat} (h : raisedExponent magnitude ≠ 0) :
    twoTo 52 ≤ significand magnitude := by
  rw [raisedExponent, twoTo_52] at h
  rw [significand, twoTo_52]
  split <;> omega

/-- A significand of one bit too many is the first one of the next exponent. -/
theorem carry (raised : Nat) : raised * twoTo 52 + twoTo 53 = (raised + 1) * twoTo 52 + twoTo 52 := by
  rw [twoTo_52, twoTo_53]
  omega

/-! ## Rounding a quotient -/

/-- The value lies around `m` units: half a unit above at most, so many quarters of a unit below at most,
and exactly there only if `m` is even. -/
structure Around (m quarters unit value : Nat) : Prop where
  low : 4 * (m * unit) ≤ 4 * value + quarters * unit
  high : 4 * value ≤ 4 * (m * unit) + 2 * unit
  ends : m % 2 = 0 ∨ 4 * (m * unit) < 4 * value + quarters * unit ∧ 4 * value < 4 * (m * unit) + 2 * unit

/-- A quotient is rounded to the number that it lies around. -/
theorem Around.roundQuotient {n d k : Nat} (h : Around k 2 d n) (hd : 0 < d) : roundQuotient n d = k := by
  obtain ⟨hlow, hhigh, hends⟩ := h
  have hn : n / d * d + n % d = n := Nat.div_add_mod' n d
  have hrest : n % d < d := Nat.mod_lt n hd
  simp only [Double.roundQuotient]
  generalize n / d = q at *
  generalize n % d = rest at *
  obtain hlt | rfl | hgt := Nat.lt_trichotomy q k
  · -- rounded up
    have hk : k = q + 1 := by
      have hle : k * d < (q + 2) * d := by
        rw [Nat.add_mul]
        omega
      have := Nat.lt_of_mul_lt_mul_right hle
      omega
    subst hk
    rw [Nat.add_mul, Nat.one_mul] at *
    split
    · omega
    · split <;> omega
  · split
    · rfl
    · split <;> omega
  · have hle : (k + 1) * d ≤ q * d := Nat.mul_le_mul_right d hgt
    rw [Nat.add_mul, Nat.one_mul] at hle
    omega

/-- The exponent that the quotient is rounded at, raised as in `raisedExponent`. -/
def scale (numerator denominator : Nat) : Nat :=
  let guess := numerator.log2 + 1074 - 52 - denominator.log2
  if numerator * twoTo 1074 < twoTo 52 * denominator * twoTo guess then guess - 1 else guess

theorem nearest_eq {n : Nat} (hn : n ≠ 0) (d : Nat) :
    nearest n d = min infinite
      (scale n d * twoTo 52 + roundQuotient (n * twoTo 1074) (d * twoTo (scale n d))) :=
  if_neg hn

theorem twoTo_succ (exponent : Nat) : twoTo (exponent + 1) = 2 * twoTo exponent :=
  Nat.pow_succ'

theorem twoTo_pos (exponent : Nat) : 0 < twoTo exponent := Nat.two_pow_pos exponent

theorem twoTo_add (e e' : Nat) : twoTo (e + e') = twoTo e * twoTo e' := Nat.pow_add ..

theorem twoTo_mono {e e' : Nat} (h : e ≤ e') : twoTo e ≤ twoTo e' := Nat.pow_le_pow_right (by decide) h

theorem twoTo_log2_le {n : Nat} (hn : 0 < n) : twoTo n.log2 ≤ n := Nat.log2_self_le (Nat.ne_of_gt hn)

theorem lt_twoTo_log2 (n : Nat) : n < twoTo (n.log2 + 1) := Nat.lt_log2_self

theorem lt_of_log2 {n d places guess : Nat} (hd : 0 < d) (h : n.log2 + places ≤ guess + 52 + d.log2) :
    n * twoTo places < twoTo 53 * (d * twoTo guess) := by
  calc
    n * twoTo places < twoTo (n.log2 + 1) * twoTo places :=
      Nat.mul_lt_mul_of_pos_right (lt_twoTo_log2 n) (twoTo_pos _)
    _ = twoTo (n.log2 + 1 + places) := (twoTo_add ..).symm
    _ ≤ twoTo (53 + (d.log2 + guess)) := twoTo_mono (by omega)
    _ = twoTo 53 * (twoTo d.log2 * twoTo guess) := by rw [twoTo_add, twoTo_add]
    _ ≤ twoTo 53 * (d * twoTo guess) :=
      Nat.mul_le_mul_left _ (Nat.mul_le_mul_right _ (twoTo_log2_le hd))

theorem le_of_log2 {n d places less : Nat} (hn : 0 < n) (h : less + 53 + d.log2 ≤ n.log2 + places) :
    twoTo 52 * (d * twoTo less) ≤ n * twoTo places := by
  calc
    twoTo 52 * (d * twoTo less) ≤ twoTo 52 * (twoTo (d.log2 + 1) * twoTo less) :=
      Nat.mul_le_mul_left _ (Nat.mul_le_mul_right _ (Nat.le_of_lt (lt_twoTo_log2 d)))
    _ = twoTo (52 + (d.log2 + 1 + less)) := by rw [twoTo_add 52, twoTo_add (_ + 1)]
    _ ≤ twoTo (n.log2 + places) := twoTo_mono (by omega)
    _ = twoTo n.log2 * twoTo places := twoTo_add ..
    _ ≤ n * twoTo places := Nat.mul_le_mul_right _ (twoTo_log2_le hn)

/-- At its exponent the quotient has 53 bits, or fewer if the exponent is the least one. -/
theorem scale_spec {n d : Nat} (hn : 0 < n) (hd : 0 < d) :
    (scale n d = 0 ∨ twoTo 52 * (d * twoTo (scale n d)) ≤ n * twoTo 1074) ∧
      n * twoTo 1074 < twoTo 53 * (d * twoTo (scale n d)) := by
  rw [scale, Nat.mul_assoc]
  generalize hguess : n.log2 + 1074 - 52 - d.log2 = guess
  have habove : n * twoTo 1074 < twoTo 53 * (d * twoTo guess) := lt_of_log2 hd (by omega)
  split
  · rename_i hshort
    cases guess with
    | zero => exact ⟨.inl rfl, habove⟩
    | succ less =>
        refine ⟨.inr (le_of_log2 hn (by omega)), ?_⟩
        rw [twoTo_succ less, Nat.mul_left_comm d, ← Nat.mul_assoc] at hshort
        exact hshort
  · rename_i hlong
    exact ⟨.inr (Nat.not_lt.mp hlong), habove⟩

/-! ## The values that round to a magnitude -/

/-- How far the values that round to a magnitude reach below it, in quarters of its last place: halfway
to the magnitude before, which is nearer below a power of two. -/
def quartersBelow (magnitude : Nat) : Nat :=
  if significand magnitude = twoTo 52 ∧ raisedExponent magnitude ≠ 0 then 1 else 2

/-- The quotient lies between the middles of the magnitude and its neighbours, or on one of them if the
significand is even. -/
def Rounds (magnitude numerator denominator : Nat) : Prop :=
  Around (significand magnitude) (quartersBelow magnitude)
    (denominator * twoTo (raisedExponent magnitude)) (numerator * twoTo 1074)

theorem quartersBelow_le (magnitude : Nat) : quartersBelow magnitude ≤ 2 := by
  rw [quartersBelow]
  split <;> decide

section Around

variable {m quarters unit value : Nat}

theorem Around.widen (h : Around m quarters unit value) (hle : quarters ≤ 2) : Around m 2 unit value := by
  have hmul : quarters * unit ≤ 2 * unit := Nat.mul_le_mul_right unit hle
  refine ⟨?_, h.high, h.ends.imp_right fun ⟨hlow, hhigh⟩ => ⟨?_, hhigh⟩⟩
  · exact Nat.le_trans h.low (Nat.add_le_add_left hmul _)
  · exact Nat.lt_of_lt_of_le hlow (Nat.add_le_add_left hmul _)

/-- With 53 bits of significand the value is below the next power of two. -/
theorem Around.lt (h : Around m quarters unit value) (hm : m < twoTo 53) (hunit : 0 < unit) :
    value < twoTo 53 * unit := by
  have hmul : (m + 1) * unit ≤ twoTo 53 * unit := Nat.mul_le_mul_right unit hm
  rw [Nat.add_mul] at hmul
  have hhigh := h.high
  omega

/-- If the value is below the power of two that the least significand of 53 bits stands for, then the
significand is that one, and its last place is the only one more that the value has. -/
theorem Around.lt_power (h : Around m quarters unit value) (hle : quarters ≤ 2) (hm : twoTo 52 ≤ m)
    {less : Nat} (hvalue : value < twoTo 53 * less) (hless : 2 * less ≤ unit) :
    m = twoTo 52 ∧ unit < 4 * less := by
  have hlow := (h.widen hle).low
  rw [twoTo_53] at hvalue
  rw [twoTo_52] at hm ⊢
  refine ⟨?_, ?_⟩
  · rcases Nat.eq_or_lt_of_le hm with heq | hlt
    · exact heq.symm
    · have hmul : (4503599627370496 + 1) * unit ≤ m * unit := Nat.mul_le_mul_right unit hlt
      omega
  · have hmul : 4503599627370496 * unit ≤ m * unit := Nat.mul_le_mul_right unit hm
    omega

/-- In other units the value lies around just as many of them. -/
theorem Around.of_scaled (h : Around m quarters unit value) {k k' unit' value' : Nat} (hk : 0 < k)
    (hk' : 0 < k') (hunit : k * unit = k' * unit') (hvalue : k * value = k' * value') :
    Around m quarters unit' value' := by
  have hleft : k' * (4 * (m * unit')) = k * (4 * (m * unit)) := by
    rw [Nat.mul_left_comm, Nat.mul_left_comm k', ← hunit, Nat.mul_left_comm m, Nat.mul_left_comm 4]
  have hright : k' * (4 * value') = k * (4 * value) := by
    rw [Nat.mul_left_comm, ← hvalue, Nat.mul_left_comm]
  have hsum (c : Nat) : k' * (c * unit') = k * (c * unit) := by
    rw [Nat.mul_left_comm, ← hunit, Nat.mul_left_comm]
  refine ⟨Nat.le_of_mul_le_mul_left ?_ hk', Nat.le_of_mul_le_mul_left ?_ hk',
    h.ends.imp_right fun ⟨hlow, hhigh⟩ =>
      ⟨Nat.lt_of_mul_lt_mul_left (a := k') ?_, Nat.lt_of_mul_lt_mul_left (a := k') ?_⟩⟩
  · rw [Nat.mul_add, hleft, hright, hsum, ← Nat.mul_add]
    exact Nat.mul_le_mul_left k h.low
  · rw [Nat.mul_add, hleft, hright, hsum, ← Nat.mul_add]
    exact Nat.mul_le_mul_left k h.high
  · rw [Nat.mul_add, hleft, hright, hsum, ← Nat.mul_add]
    exact Nat.mul_lt_mul_of_pos_left hlow hk
  · rw [Nat.mul_add, hleft, hright, hsum, ← Nat.mul_add]
    exact Nat.mul_lt_mul_of_pos_left hhigh hk

end Around

namespace Rounds

variable {magnitude n d level : Nat}

/-- A value that has its 53 bits at a lower exponent than the magnitude lies just below a power of two, and
its significand rounds up to one bit more. -/
theorem rounds_up (h : Rounds magnitude n d) (hless : level < raisedExponent magnitude)
    (habove : n * twoTo 1074 < twoTo 53 * (d * twoTo level)) :
    raisedExponent magnitude = level + 1 ∧ significand magnitude = twoTo 52 ∧
      Around (twoTo 53) 2 (d * twoTo level) (n * twoTo 1074) := by
  unfold Rounds at h
  generalize n * twoTo 1074 = value at *
  have hraised : raisedExponent magnitude ≠ 0 := Nat.ne_of_gt (Nat.zero_lt_of_lt hless)
  have hdouble : 2 * (d * twoTo level) ≤ d * twoTo (raisedExponent magnitude) := by
    rw [← Nat.mul_left_comm, ← twoTo_succ]
    exact Nat.mul_le_mul_left d (twoTo_mono hless)
  obtain ⟨hm, hclose⟩ := h.lt_power (quartersBelow_le magnitude) (le_significand hraised) habove hdouble
  have hraise : raisedExponent magnitude = level + 1 := by
    refine Nat.le_antisymm (Nat.le_of_not_lt fun hmore => ?_) hless
    have hmul := Nat.mul_le_mul_left d (twoTo_mono hmore)
    rw [Nat.succ_eq_add_one, twoTo_succ, twoTo_succ, Nat.mul_left_comm, Nat.mul_left_comm d] at hmul
    omega
  -- only a quarter of the last place below, which is half of the last place of the exponent before
  have hquarters : quartersBelow magnitude = 1 := if_pos ⟨hm, hraised⟩
  have hlow := h.low
  rw [hm, hquarters, hraise, twoTo_succ level, Nat.mul_left_comm d, twoTo_52] at hlow
  rw [twoTo_53] at habove ⊢
  exact ⟨hraise, hm, by omega, by omega, .inl (by decide)⟩

/-- A value with 53 bits at a higher exponent would be beyond all that round to the magnitude. -/
theorem level_le (h : Rounds magnitude n d) (hd : 0 < d)
    (hbelow : twoTo 52 * (d * twoTo level) ≤ n * twoTo 1074) : level ≤ raisedExponent magnitude := by
  refine Nat.le_of_not_lt fun hmore => ?_
  have hvalue := h.lt (significand_lt magnitude) (Nat.mul_pos hd (twoTo_pos _))
  have hdouble : twoTo (raisedExponent magnitude + 1) ≤ twoTo level := twoTo_mono hmore
  have hscaled := Nat.mul_le_mul_left (twoTo 52) (Nat.mul_le_mul_left d hdouble)
  rw [twoTo_succ (raisedExponent magnitude), Nat.mul_left_comm d, twoTo_52] at hscaled
  rw [twoTo_53] at hvalue
  rw [twoTo_52] at hbelow
  omega

/-- **Such a quotient is rounded to the magnitude,** infinity and what lies beyond it included. -/
theorem sum_eq (h : Rounds magnitude n d) (hn : 0 < n) (hd : 0 < d) :
    scale n d * twoTo 52 + roundQuotient (n * twoTo 1074) (d * twoTo (scale n d)) = magnitude := by
  obtain ⟨hbelow, habove⟩ := scale_spec hn hd
  have hunit := Nat.mul_pos hd (twoTo_pos (scale n d))
  have hparts := magnitude_eq magnitude
  have hlevel : scale n d ≤ raisedExponent magnitude := by
    rcases hbelow with hzero | hbelow
    · rw [hzero]
      exact Nat.zero_le _
    · exact h.level_le hd hbelow
  rcases Nat.eq_or_lt_of_le hlevel with hsame | hless
  · have haround := h.widen (quartersBelow_le magnitude)
    rw [← hsame] at haround
    rw [haround.roundQuotient hunit, hsame, hparts]
  · obtain ⟨hraise, hm, haround⟩ := h.rounds_up hless habove
    rw [haround.roundQuotient hunit]
    calc
      scale n d * twoTo 52 + twoTo 53 = (scale n d + 1) * twoTo 52 + twoTo 52 := carry _
      _ = raisedExponent magnitude * twoTo 52 + significand magnitude := by rw [hraise, hm]
      _ = magnitude := hparts

theorem nearest (h : Rounds magnitude n d) (hn : 0 < n) (hd : 0 < d) (hfinite : magnitude < infinite) :
    nearest n d = magnitude := by
  rw [nearest_eq (Nat.ne_of_gt hn), h.sum_eq hn hd, Nat.min_eq_right (Nat.le_of_lt hfinite)]

/-- Zero rounds to no other magnitude. -/
theorem of_zero (h : Rounds magnitude 0 d) (hd : 0 < d) : magnitude = 0 := by
  have hunit := Nat.mul_pos hd (twoTo_pos (raisedExponent magnitude))
  have hlow := (h.widen (quartersBelow_le magnitude)).low
  refine Nat.eq_zero_of_not_pos fun hpos => ?_
  have hone := Nat.mul_le_mul_right (d * twoTo (raisedExponent magnitude)) (significand_pos hpos)
  omega

/-- **A quotient rounds to one magnitude.** -/
theorem unique {other : Nat} (h : Rounds magnitude n d) (h' : Rounds other n d) (hd : 0 < d) :
    magnitude = other := by
  rcases Nat.eq_zero_or_pos n with rfl | hn
  · rw [h.of_zero hd, h'.of_zero hd]
  · rw [← h.sum_eq hn hd, ← h'.sum_eq hn hd]

end Rounds

end DecisionGraph.Double
