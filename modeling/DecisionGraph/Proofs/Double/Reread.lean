import DecisionGraph.Double.Decimal
import DecisionGraph.Proofs.Double.Nearest

/-!
# A printed double is read back

`Double.shortest` tries grids of decimals, each ten times as fine as the one before, until one of the two
decimals next to the value lies among those that round to the magnitude. **What it finds rounds to the
magnitude** (`shortest_rounds`): the test that it makes is `Rounds` in other units, and the last of the
twenty grids is so fine that the test holds there. The layouts only move the point
(`positional_numeral`).
-/

namespace DecisionGraph

/-! ## Digits -/

theorem tenTo_pos (exponent : Nat) : 0 < tenTo exponent := Nat.pow_pos (by decide)

theorem tenTo_add (e e' : Nat) : tenTo (e + e') = tenTo e * tenTo e' := Nat.pow_add ..

theorem tenTo_mono {e e' : Nat} (h : e ≤ e') : tenTo e ≤ tenTo e' := Nat.pow_le_pow_right (by decide) h

theorem length_decimalDigits_pos (n : Nat) : 0 < (decimalDigits n).length := Nat.length_toDigits_pos

theorem lt_tenTo_length (n : Nat) : n < tenTo (decimalDigits n).length :=
  (Nat.length_toDigits_le_iff (by decide) (length_decimalDigits_pos n)).mp (Nat.le_refl _)

theorem tenTo_length_le {n : Nat} (hn : 0 < n) : tenTo ((decimalDigits n).length - 1) ≤ n := by
  have hlength := length_decimalDigits_pos n
  refine Nat.le_of_not_lt fun hlt => ?_
  by_cases hone : (decimalDigits n).length - 1 = 0
  · rw [hone] at hlt
    exact Nat.not_lt.mpr hn hlt
  · have hle := (Nat.length_toDigits_le_iff (b := 10) (n := n) (by decide)
      (Nat.pos_of_ne_zero hone)).mpr hlt
    rw [← decimalDigits] at hle
    omega

theorem ofDecimalDigits_eq (digits : List Char) : ofDecimalDigits digits = Nat.ofDigitChars 10 digits 0 :=
  (Nat.ofDigitChars_eq_foldl ..).symm

theorem ofDecimalDigits_decimalDigits (n : Nat) : ofDecimalDigits (decimalDigits n) = n := by
  rw [ofDecimalDigits_eq, decimalDigits, Nat.ofDigitChars_ten_toDigits]

/-- Zeros in front of the digits do not count. -/
theorem ofDecimalDigits_zeros_append (k : Nat) (digits : List Char) :
    ofDecimalDigits (List.replicate k '0' ++ digits) = ofDecimalDigits digits := by
  rw [ofDecimalDigits_eq, Nat.ofDigitChars_append, Nat.ofDigitChars_replicate_zero, Nat.mul_zero,
    ofDecimalDigits_eq]

theorem ofDecimalDigits_append_zeros (digits : List Char) (k : Nat) :
    ofDecimalDigits (digits ++ List.replicate k '0') = ofDecimalDigits digits * tenTo k := by
  rw [ofDecimalDigits_eq, Nat.ofDigitChars_append, Nat.ofDigitChars_replicate_zero, Nat.mul_comm,
    ofDecimalDigits_eq]
  rfl

namespace Double

/-- The digits behind the point, and the point in front of them if there are any. -/
def pointed (fraction : List Char) : List Char := if fraction.isEmpty then [] else '.' :: fraction

/-- Digits and exponent laid out: what stands before and behind the point reads as the same fraction. -/
theorem placePoint_eq {digits : List Char} (hne : digits ≠ []) (hdigits : ∀ d ∈ digits, d.isDigit = true)
    (exponent : Int) : ∃ whole fraction, whole ≠ [] ∧ (∀ d ∈ whole, d.isDigit = true) ∧
      (∀ d ∈ fraction, d.isDigit = true) ∧ placePoint digits exponent = whole ++ pointed fraction ∧
      fraction.length = (-exponent).toNat ∧
      ofDecimalDigits (whole ++ fraction) = ofDecimalDigits digits * tenTo exponent.toNat := by
  have hzeros : ∀ k, ∀ d ∈ List.replicate k '0', d.isDigit = true := fun k d hd =>
    List.eq_of_mem_replicate hd ▸ by decide
  have hlength := List.length_pos_iff.mpr hne
  unfold placePoint
  split
  · -- an integer, perhaps with zeros at its end
    rename_i hexponent
    refine ⟨digits ++ List.replicate exponent.toNat '0', [], by simp [hne], ?_, nofun,
      (List.append_nil _).symm, ?_, ?_⟩
    · exact List.forall_mem_append.mpr ⟨hdigits, hzeros _⟩
    · rw [List.length_nil]
      omega
    · rw [List.append_nil, ofDecimalDigits_append_zeros]
  · rename_i hexponent
    have hwhole : exponent.toNat = 0 := by omega
    have hplaces : (-exponent).toNat ≠ 0 := by omega
    rw [hwhole]
    dsimp only
    split
    · -- all digits are behind the point
      rename_i hshort
      refine ⟨['0'], List.replicate ((-exponent).toNat - digits.length) '0' ++ digits, nofun,
        List.forall_mem_singleton.mpr (by decide), List.forall_mem_append.mpr ⟨hzeros _, hdigits⟩,
        ?_, ?_, ?_⟩
      · simp [pointed, hne]
      · rw [List.length_append, List.length_replicate]
        omega
      · have hzero : ['0'] ++ (List.replicate ((-exponent).toNat - digits.length) '0' ++ digits) =
            List.replicate ((-exponent).toNat - digits.length + 1) '0' ++ digits := rfl
        rw [hzero, ofDecimalDigits_zeros_append]
        exact (Nat.mul_one _).symm
    · -- the point stands among the digits
      rename_i hlong
      have hdrop : digits.drop (digits.length - (-exponent).toNat) ≠ [] :=
        mt List.drop_eq_nil_iff.mp (by omega)
      have htake : digits.take (digits.length - (-exponent).toNat) ≠ [] := by
        simp only [ne_eq, List.take_eq_nil_iff, hne, or_false]
        omega
      refine ⟨digits.take (digits.length - (-exponent).toNat),
        digits.drop (digits.length - (-exponent).toNat), htake,
        fun d hd => hdigits d (List.mem_of_mem_take hd), fun d hd => hdigits d (List.mem_of_mem_drop hd),
        ?_, ?_, ?_⟩
      · simp [pointed, hdrop]
      · rw [List.length_drop]
        omega
      · rw [List.take_append_drop]
        exact (Nat.mul_one _).symm

/-! ## The search for the fewest digits -/

/-- Whether a value lies between two others, the ends included or not. -/
def between (closed : Bool) (low value high : Nat) : Bool :=
  if closed then low ≤ value && value ≤ high else low < value && value < high

/-- The multiple of a unit that is nearest to a value. -/
def nearer (tie : Tie) (value unit : Nat) : Nat :=
  if 2 * (value % unit) < unit then value / unit
  else if unit < 2 * (value % unit) then value / unit + 1
  else match tie with
    | .up => value / unit + 1
    | .toEven => value / unit + value / unit % 2

/-- The other multiple next to the value. -/
def farther (tie : Tie) (value unit : Nat) : Nat :=
  if nearer tie value unit = value / unit then value / unit + 1 else value / unit

theorem between_iff {closed : Bool} {low value high : Nat} : between closed low value high = true ↔
    low ≤ value ∧ value ≤ high ∧ (closed = true ∨ low < value ∧ value < high) := by
  cases closed with
  | true => simp [between]
  | false =>
      simp only [between, Bool.false_eq_true, if_false, Bool.and_eq_true, decide_eq_true_eq, false_or]
      omega

/-- The nearest multiple is half a unit away at most. -/
theorem nearer_spec (tie : Tie) (value : Nat) {unit : Nat} (hunit : 0 < unit) :
    2 * value ≤ 2 * (nearer tie value unit * unit) + unit ∧
      2 * (nearer tie value unit * unit) ≤ 2 * value + unit := by
  have hvalue := Nat.div_add_mod' value unit
  have hrest := Nat.mod_lt value hunit
  have hnext : (value / unit + 1) * unit = value / unit * unit + unit := by rw [Nat.add_mul, Nat.one_mul]
  unfold nearer
  split
  · omega
  split
  · omega
  · cases tie with
    | up =>
        dsimp only
        omega
    | toEven =>
        dsimp only
        obtain heven | hodd := Nat.mod_two_eq_zero_or_one (value / unit)
        · rw [heven, Nat.add_zero]
          omega
        · rw [hodd]
          omega

section Search

variable {tie : Tie} {closed : Bool} {low numerator high denominator : Nat} {exponent : Int}

theorem onGrid?_eq : onGrid? tie closed low numerator high denominator exponent =
    let scale := tenTo (-exponent).toNat
    let unit := denominator * tenTo exponent.toNat
    if between closed (low * scale) (nearer tie (numerator * scale) unit * unit) (high * scale) then
      some ⟨nearer tie (numerator * scale) unit, exponent⟩
    else if between closed (low * scale) (farther tie (numerator * scale) unit * unit) (high * scale) then
      some ⟨farther tie (numerator * scale) unit, exponent⟩
    else none := rfl

/-- What is found on a grid is between the ends. -/
theorem onGrid?_between {found : Digits}
    (h : onGrid? tie closed low numerator high denominator exponent = some found) :
    between closed (low * tenTo (-found.exponent).toNat)
      (found.digits * (denominator * tenTo found.exponent.toNat))
      (high * tenTo (-found.exponent).toNat) = true := by
  rw [onGrid?_eq] at h
  dsimp only at h
  split at h
  · rename_i hnearer
    obtain rfl := Option.some.inj h
    exact hnearer
  · split at h
    · rename_i hfarther
      obtain rfl := Option.some.inj h
      exact hfarther
    · cases h

/-- On a grid that is fine enough something is found. -/
theorem onGrid?_isSome (hdenominator : 0 < denominator)
    (hlow : denominator * tenTo exponent.toNat + 2 * (low * tenTo (-exponent).toNat) <
      2 * (numerator * tenTo (-exponent).toNat))
    (hhigh : denominator * tenTo exponent.toNat + 2 * (numerator * tenTo (-exponent).toNat) <
      2 * (high * tenTo (-exponent).toNat)) :
    (onGrid? tie closed low numerator high denominator exponent).isSome := by
  have hnearer := nearer_spec tie (numerator * tenTo (-exponent).toNat)
    (Nat.mul_pos hdenominator (tenTo_pos exponent.toNat))
  rw [onGrid?_eq]
  dsimp only
  rw [if_pos (between_iff.mpr (by omega))]
  rfl

/-- If one of the grids is fine enough, then the result has been found on a grid. -/
theorem exists_onGrid?_eq_firstGrid {more : Nat}
    (h : (onGrid? tie closed low numerator high denominator (exponent - more)).isSome) :
    ∃ e, onGrid? tie closed low numerator high denominator e =
      some (firstGrid tie closed low numerator high denominator (more + 1) exponent) := by
  induction more generalizing exponent with
  | zero =>
      obtain ⟨found, hfound⟩ := Option.isSome_iff_exists.mp h
      rw [Int.natCast_zero, Int.sub_zero] at hfound
      exact ⟨exponent, by rw [firstGrid, hfound]⟩
  | succ more ih =>
      rw [firstGrid]
      split
      · rename_i found hfound
        exact ⟨exponent, hfound⟩
      · refine ih ?_
        rwa [Int.sub_sub, Int.add_comm 1]

/-- If the last of the grids is fine enough, then the result is between the ends. -/
theorem firstGrid_between {more : Nat} {first : Int} (hdenominator : 0 < denominator)
    (hlow : denominator * tenTo (first - more).toNat + 2 * (low * tenTo (-(first - more)).toNat) <
      2 * (numerator * tenTo (-(first - more)).toNat))
    (hhigh : denominator * tenTo (first - more).toNat + 2 * (numerator * tenTo (-(first - more)).toNat) <
      2 * (high * tenTo (-(first - more)).toNat)) :
    let found := firstGrid tie closed low numerator high denominator (more + 1) first
    between closed (low * tenTo (-found.exponent).toNat)
      (found.digits * (denominator * tenTo found.exponent.toNat))
      (high * tenTo (-found.exponent).toNat) = true := by
  obtain ⟨e, he⟩ := exists_onGrid?_eq_firstGrid (onGrid?_isSome hdenominator hlow hhigh)
  exact onGrid?_between he

end Search

/-! ## What is found rounds to the magnitude -/

/-- The first grid that is tried: two powers of ten above the first digit, more or less. -/
def firstExponent (numerator denominator : Nat) : Int :=
  if denominator ≤ numerator then (decimalDigits (numerator / denominator)).length
  else 2 - ((decimalDigits (denominator / numerator)).length : Int)

section Fine

variable {m step denominator : Nat}

/-- Seventeen digits tell all significands of 53 bits apart. -/
theorem twoTo_53_le : 2 * twoTo 53 ≤ tenTo 17 := by decide

theorem fine_grid_of_le (hlt : m * step < twoTo 53 * step) (hdenominator : 0 < denominator)
    (hle : denominator ≤ m * step) :
    let exponent := ((decimalDigits (m * step / denominator)).length : Int) - (19 : Nat)
    2 * (denominator * tenTo exponent.toNat) < step * tenTo (-exponent).toNat := by
  have hquotient : 0 < m * step / denominator := Nat.div_pos hle hdenominator
  have hlength := length_decimalDigits_pos (m * step / denominator)
  have hfirst := (Nat.le_div_iff_mul_le hdenominator).mp (tenTo_length_le hquotient)
  dsimp only
  generalize (decimalDigits (m * step / denominator)).length = length at *
  generalize hwhole : ((length : Int) - (19 : Nat)).toNat = whole
  generalize hplaces : (-((length : Int) - (19 : Nat))).toNat = places
  have hpower : tenTo (length - 1) * tenTo places = tenTo 18 * tenTo whole := by
    rw [← tenTo_add, ← tenTo_add]
    congr 1
    omega
  have hten : 2 * twoTo 53 ≤ tenTo 18 := Nat.le_trans twoTo_53_le (tenTo_mono (by decide))
  refine Nat.lt_of_mul_lt_mul_left (a := twoTo 53) ?_
  calc
    twoTo 53 * (2 * (denominator * tenTo whole)) = 2 * twoTo 53 * (tenTo whole * denominator) := by
      simp only [Nat.mul_assoc, Nat.mul_comm]
    _ ≤ tenTo 18 * (tenTo whole * denominator) := Nat.mul_le_mul_right _ hten
    _ = tenTo (length - 1) * denominator * tenTo places := by
      rw [← Nat.mul_assoc, ← hpower, Nat.mul_right_comm]
    _ ≤ m * step * tenTo places := Nat.mul_le_mul_right _ hfirst
    _ < twoTo 53 * step * tenTo places := Nat.mul_lt_mul_of_pos_right hlt (tenTo_pos places)
    _ = twoTo 53 * (step * tenTo places) := Nat.mul_assoc ..

theorem fine_grid_of_lt (hlt : m * step < twoTo 53 * step) (hpos : 0 < m * step) :
    let exponent := 2 - ((decimalDigits (denominator / (m * step))).length : Int) - (19 : Nat)
    2 * (denominator * tenTo exponent.toNat) < step * tenTo (-exponent).toNat := by
  have hquotient := (Nat.div_lt_iff_lt_mul hpos).mp (lt_tenTo_length (denominator / (m * step)))
  dsimp only
  generalize (decimalDigits (denominator / (m * step))).length = length at *
  have hwhole : (2 - (length : Int) - (19 : Nat)).toNat = 0 := by omega
  have hplaces : (-(2 - (length : Int) - (19 : Nat))).toNat = 17 + length := by omega
  rw [hwhole, hplaces, tenTo_add]
  calc
    2 * (denominator * tenTo 0) = 2 * denominator := by rw [show tenTo 0 = 1 from rfl, Nat.mul_one]
    _ < 2 * (tenTo length * (m * step)) := by omega
    _ ≤ 2 * (tenTo length * (twoTo 53 * step)) :=
      Nat.mul_le_mul_left _ (Nat.mul_le_mul_left _ (Nat.le_of_lt hlt))
    _ = 2 * twoTo 53 * (tenTo length * step) := by
      simp only [Nat.mul_assoc, Nat.mul_comm, Nat.mul_left_comm]
    _ ≤ tenTo 17 * (tenTo length * step) := Nat.mul_le_mul_right _ twoTo_53_le
    _ = step * (tenTo 17 * tenTo length) := by rw [← Nat.mul_assoc, Nat.mul_comm]

/-- The last of the grids is finer than a quarter of the last place of the value. -/
theorem fine_grid (hm : 0 < m) (hlt : m < twoTo 53) (hstep : 0 < step) (hdenominator : 0 < denominator) :
    let exponent := firstExponent (m * step) denominator - (19 : Nat)
    2 * (denominator * tenTo exponent.toNat) < step * tenTo (-exponent).toNat := by
  have hvalue : m * step < twoTo 53 * step := Nat.mul_lt_mul_of_pos_right hlt hstep
  unfold firstExponent
  split
  · rename_i hle
    exact fine_grid_of_le hvalue hdenominator hle
  · exact fine_grid_of_lt hvalue (Nat.mul_pos hm hstep)

end Fine

/-- On a fine grid the ends of the search are more than half a unit away from the value. -/
theorem ends_apart {denominator whole step places below value : Nat}
    (hfine : 2 * (denominator * whole) < step * places) (hstep : step ≤ below) (hbelow : below ≤ value) :
    4 * denominator * whole + 2 * ((value - below) * places) < 2 * (value * places) ∧
      4 * denominator * whole + 2 * (value * places) < 2 * ((value + 2 * step) * places) := by
  have hmul : step * places ≤ below * places := Nat.mul_le_mul_right _ hstep
  have hmul' : below * places ≤ value * places := Nat.mul_le_mul_right _ hbelow
  rw [Nat.mul_assoc 4, Nat.sub_mul, Nat.add_mul, Nat.mul_assoc 2]
  omega

/-- One unit of the last place, as the numerator of the fraction counts it. -/
def lastPlace (magnitude : Nat) : Nat := twoTo (raisedExponent magnitude - 1074)

theorem fraction_eq (magnitude : Nat) :
    fraction magnitude =
      (significand magnitude * lastPlace magnitude, twoTo (1074 - raisedExponent magnitude)) :=
  rfl

/-- The search, with its ends in quarters of the last place. -/
theorem shortest_eq (tie : Tie) {magnitude : Nat} (hpos : 0 < magnitude) :
    shortest tie magnitude = firstGrid tie (significand magnitude % 2 == 0)
      (4 * (significand magnitude * lastPlace magnitude) - quartersBelow magnitude * lastPlace magnitude)
      (4 * (significand magnitude * lastPlace magnitude))
      (4 * (significand magnitude * lastPlace magnitude) + 2 * lastPlace magnitude)
      (4 * twoTo (1074 - raisedExponent magnitude)) 20
      (firstExponent (significand magnitude * lastPlace magnitude)
        (twoTo (1074 - raisedExponent magnitude))) := by
  have hstep : significand magnitude * lastPlace magnitude / significand magnitude = lastPlace magnitude :=
    Nat.mul_div_cancel_left _ (significand_pos hpos)
  have hraised : 1 < magnitude / twoTo 52 ↔ raisedExponent magnitude ≠ 0 := by
    rw [raisedExponent]
    omega
  unfold shortest quartersBelow
  rw [fraction_eq]
  dsimp only
  rw [hstep]
  simp only [hraised]
  split
  · rw [Nat.one_mul]
    rfl
  · rfl

/-- Whatever is between the ends of the search rounds to the magnitude. -/
theorem rounds_of_between {magnitude n d : Nat}
    (h : between (significand magnitude % 2 == 0)
      ((4 * (significand magnitude * lastPlace magnitude) -
        quartersBelow magnitude * lastPlace magnitude) * d)
      (n * (4 * twoTo (1074 - raisedExponent magnitude)))
      ((4 * (significand magnitude * lastPlace magnitude) + 2 * lastPlace magnitude) * d) = true) :
    Rounds magnitude n d := by
  have hexponent : 1074 + (raisedExponent magnitude - 1074) =
      1074 - raisedExponent magnitude + raisedExponent magnitude := by omega
  have hplace : twoTo 1074 * lastPlace magnitude =
      twoTo (1074 - raisedExponent magnitude) * twoTo (raisedExponent magnitude) := by
    rw [lastPlace, ← twoTo_add, ← twoTo_add, hexponent]
  have hdenominator := twoTo_pos (1074 - raisedExponent magnitude)
  unfold Rounds
  generalize twoTo (1074 - raisedExponent magnitude) = denominator at *
  have hleft : (4 * (significand magnitude * lastPlace magnitude)) * d =
      4 * (significand magnitude * (lastPlace magnitude * d)) := by
    simp only [Nat.mul_assoc]
  have hvalue : n * (4 * denominator) = 4 * (n * denominator) := Nat.mul_left_comm ..
  rw [Nat.sub_mul, Nat.add_mul, hleft, hvalue, Nat.mul_assoc (quartersBelow magnitude), Nat.mul_assoc 2] at h
  obtain ⟨hlow, hhigh, hends⟩ := between_iff.mp h
  have haround : Around (significand magnitude) (quartersBelow magnitude) (lastPlace magnitude * d)
      (n * denominator) := by
    refine ⟨by omega, hhigh, hends.imp (fun heven => eq_of_beq heven) fun ⟨_, hstrict⟩ => ?_⟩
    exact ⟨by omega, hstrict⟩
  refine haround.of_scaled (twoTo_pos 1074) hdenominator ?_ ?_
  · rw [← Nat.mul_assoc, hplace, Nat.mul_assoc, Nat.mul_comm d]
  · rw [Nat.mul_comm (twoTo 1074), Nat.mul_comm n, Nat.mul_assoc]

theorem one_le_quartersBelow (magnitude : Nat) : 1 ≤ quartersBelow magnitude := by
  rw [quartersBelow]
  split <;> decide

/-- **The fewest digits round to the magnitude.** -/
theorem shortest_rounds (tie : Tie) {magnitude : Nat} (hpos : 0 < magnitude) :
    Rounds magnitude ((shortest tie magnitude).digits * tenTo (shortest tie magnitude).exponent.toNat)
      (tenTo (-(shortest tie magnitude).exponent).toNat) := by
  have hm := significand_pos hpos
  have hdenominator := twoTo_pos (1074 - raisedExponent magnitude)
  have hfine := fine_grid hm (significand_lt magnitude) (twoTo_pos (raisedExponent magnitude - 1074))
    hdenominator
  refine rounds_of_between ?_
  rw [Nat.mul_assoc, Nat.mul_comm (tenTo _), shortest_eq tie hpos]
  have hquarters : lastPlace magnitude ≤ quartersBelow magnitude * lastPlace magnitude :=
    Nat.le_mul_of_pos_left _ (one_le_quartersBelow magnitude)
  have hbelow : quartersBelow magnitude * lastPlace magnitude ≤
      4 * (significand magnitude * lastPlace magnitude) := by
    rw [← Nat.mul_assoc]
    exact Nat.mul_le_mul_right _ (Nat.le_trans (quartersBelow_le magnitude) (by omega))
  have hends := ends_apart hfine hquarters hbelow
  exact firstGrid_between (Nat.mul_pos (by decide) hdenominator) hends.1 hends.2

/-! ## Reading digits -/

theorem raisedExponent_le {magnitude : Nat} (hfinite : magnitude < infinite) :
    raisedExponent magnitude ≤ 2045 := by
  rw [infinite, twoTo_52] at hfinite
  rw [raisedExponent, twoTo_52]
  omega

section Bounds

variable {magnitude digits places : Nat}

/-- What rounds to a positive magnitude is at least half of the smallest one. -/
theorem Rounds.tenTo_le (h : Rounds magnitude digits (tenTo places)) (hpos : 0 < magnitude) :
    tenTo places ≤ digits * twoTo 1075 := by
  have hlow := (h.widen (quartersBelow_le magnitude)).low
  have hm := Nat.le_mul_of_pos_left (tenTo places * twoTo (raisedExponent magnitude)) (significand_pos hpos)
  have hunit := Nat.le_mul_of_pos_right (tenTo places) (twoTo_pos (raisedExponent magnitude))
  rw [twoTo_succ, Nat.mul_left_comm]
  omega

/-- What rounds to a finite magnitude is below the next power of two after all of them. -/
theorem Rounds.lt_tenTo (h : Rounds magnitude digits (tenTo places)) (hfinite : magnitude < infinite) :
    digits < twoTo 1024 * tenTo places := by
  have hlt := h.lt (significand_lt magnitude) (Nat.mul_pos (tenTo_pos _) (twoTo_pos _))
  have hraised := twoTo_mono (raisedExponent_le hfinite)
  refine Nat.lt_of_mul_lt_mul_right (a := twoTo 1074) ?_
  calc
    digits * twoTo 1074 < twoTo 53 * (tenTo places * twoTo (raisedExponent magnitude)) := hlt
    _ ≤ twoTo 53 * (tenTo places * twoTo 2045) := Nat.mul_le_mul_left _ (Nat.mul_le_mul_left _ hraised)
    _ = twoTo (53 + 2045) * tenTo places := by
      rw [twoTo_add, Nat.mul_assoc, Nat.mul_comm (tenTo places)]
    _ = twoTo (1024 + 1074) * tenTo places := rfl
    _ = twoTo 1024 * tenTo places * twoTo 1074 := by rw [twoTo_add, Nat.mul_right_comm]

end Bounds

/-- **Digits that round to a magnitude are read as it.** -/
theorem Rounds.nearestDecimal {magnitude digits places : Nat} (h : Rounds magnitude digits (tenTo places))
    (hpos : 0 < magnitude) (hfinite : magnitude < infinite) :
    nearestDecimal digits (-(places : Int)) = magnitude := by
  have hleast := h.tenTo_le hpos
  have hmost := h.lt_tenTo hfinite
  have hdigits : 0 < digits := by
    refine Nat.pos_of_ne_zero fun hzero => ?_
    rw [hzero, Nat.zero_mul] at hleast
    exact Nat.not_lt.mpr hleast (tenTo_pos places)
  have hsmall : places ≤ (decimalDigits digits).length + 330 := by
    refine Nat.le_of_not_lt fun hlt => ?_
    have hpower : twoTo 1075 ≤ tenTo 330 := by decide +kernel
    refine Nat.lt_irrefl (tenTo places) ?_
    calc
      tenTo places ≤ digits * twoTo 1075 := hleast
      _ ≤ digits * tenTo 330 := Nat.mul_le_mul_left _ hpower
      _ < tenTo (decimalDigits digits).length * tenTo 330 :=
        Nat.mul_lt_mul_of_pos_right (lt_tenTo_length digits) (tenTo_pos 330)
      _ = tenTo ((decimalDigits digits).length + 330) := (tenTo_add ..).symm
      _ ≤ tenTo places := tenTo_mono (Nat.le_of_lt hlt)
  have hlarge : (decimalDigits digits).length ≤ 310 + places := by
    refine Nat.le_of_not_lt fun hlt => ?_
    have hpower : twoTo 1024 ≤ tenTo 310 := by decide +kernel
    refine Nat.lt_irrefl digits ?_
    calc
      digits < twoTo 1024 * tenTo places := hmost
      _ ≤ tenTo 310 * tenTo places := Nat.mul_le_mul_right _ hpower
      _ = tenTo (310 + places) := (tenTo_add ..).symm
      _ ≤ tenTo ((decimalDigits digits).length - 1) := tenTo_mono (by omega)
      _ ≤ digits := tenTo_length_le hdigits
  have hwhole : (-(places : Int)).toNat = 0 := by omega
  have hplaces : (- -(places : Int)).toNat = places := by omega
  rw [Double.nearestDecimal, if_neg (by omega), if_neg (by omega), hwhole, hplaces]
  have hnearest := h.nearest hdigits (tenTo_pos places) hfinite
  exact (congrArg (Double.nearest · _) (Nat.mul_one digits)).trans hnearest

/-! ## The printed number -/

theorem positional_of_infinite {x : Double} (hsign : x.negative = false) (hinfinite : x.isFinite = false) :
    x.positional = "inf" := by
  have hle : infinite ≤ x.magnitude := Nat.not_lt.mp (of_decide_eq_false hinfinite)
  have hzero : x.magnitude ≠ 0 := by
    rintro hzero
    rw [hzero] at hle
    exact absurd hle (by decide)
  rw [positional, if_neg hzero, if_pos hle, sign, hsign]
  rfl

/-- **A finite double without a sign is printed as digits that read as the double.** The digits behind the
point are as many as its place says. -/
theorem positional_numeral {x : Double} (hsign : x.negative = false) (hfinite : x.isFinite = true) :
    ∃ whole fraction, whole ≠ [] ∧ (∀ d ∈ whole, d.isDigit = true) ∧ (∀ d ∈ fraction, d.isDigit = true) ∧
      x.positional.toList = whole ++ pointed fraction ∧
      ofDecimal (ofDecimalDigits (whole ++ fraction)) (-(fraction.length : Int)) = x := by
  obtain ⟨negative, magnitude⟩ := x
  obtain rfl : negative = false := hsign
  have hlt : magnitude < infinite := of_decide_eq_true hfinite
  by_cases hzero : magnitude = 0
  · subst hzero
    exact ⟨['0'], [], nofun, List.forall_mem_singleton.mpr (by decide), nofun, rfl, rfl⟩
  · have hpos := Nat.pos_of_ne_zero hzero
    have hrounds := shortest_rounds .up hpos
    have hprint : (positional ⟨false, magnitude⟩).toList =
        placePoint (decimalDigits (shortest .up magnitude).digits) (shortest .up magnitude).exponent := by
      rw [positional, String.toList_ofList, if_neg hzero, if_neg (Nat.not_le.mpr hlt)]
      rfl
    generalize shortest .up magnitude = found at *
    obtain ⟨whole, fraction, hne, hwhole, hfraction, hplace, hlength, hvalue⟩ := placePoint_eq
      (Nat.toDigits_ne_nil (n := found.digits) (b := 10))
      (fun d hd => Nat.isDigit_of_mem_toDigits (by decide) (by decide) hd) found.exponent
    refine ⟨whole, fraction, hne, hwhole, hfraction, hprint.trans hplace, ?_⟩
    rw [← decimalDigits, ofDecimalDigits_decimalDigits] at hvalue
    rw [← hvalue, ← hlength] at hrounds
    exact congrArg (Double.mk false) (hrounds.nearestDecimal hpos hlt)

end Double

end DecisionGraph
