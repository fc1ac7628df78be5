import DecisionGraph.Json.Printer
import DecisionGraph.Json.Written
import DecisionGraph.Proofs.Double.Reread

/-!
# The numeral of a number

The text of a number is a numeral by the grammar (`Number.print_eq`), and the numeral determines the number
(`Number.numeral_injective`): an integer has neither point nor exponent, a double has one of the two.

The digits of a double are the fewest that round to its magnitude. Where the point stands and whether there
is an exponent moves the same digits about, so **the decimal that the numeral stands for rounds to the
magnitude** (`Double.numeral_rounds`), and a decimal rounds to one magnitude.
-/

namespace DecisionGraph

/-- No digits but those of zero begin with a zero. -/
theorem eq_zero_of_head_decimalDigits {n : Nat} (h : (decimalDigits n).head? = some '0') : n = 0 := by
  unfold decimalDigits at h
  induction n using Nat.strongRecOn with
  | ind n ih =>
      rcases Nat.lt_or_ge n 10 with hlt | hge
      · rw [Nat.toDigits_of_lt_base hlt] at h
        have hdigit : ∀ n < 10, [n.digitChar].head? = some '0' → n = 0 := by decide
        exact hdigit n hlt h
      · -- the digits of a tenth of the number come first
        rw [Nat.toDigits_of_base_le (by decide) hge] at h
        have htenth := ih (n / 10) (by omega)
        obtain ⟨d, more, hdigits⟩ := List.exists_cons_of_ne_nil (Nat.toDigits_ne_nil (n := n / 10) (b := 10))
        rw [hdigits] at h htenth
        have hzero := htenth h
        omega

/-! ## Numerals -/

namespace Numeral

/-- The characters of a numeral. Every exponent has a sign. -/
def chars (numeral : Numeral) : List Char :=
  (if numeral.negative then ['-'] else []) ++ numeral.whole ++
    numeral.fraction.elim [] ('.' :: ·) ++ numeral.exponent.elim [] fun exponent =>
      'e' :: (if exponent < 0 then '-' else '+') :: decimalDigits exponent.natAbs

/-- There are digits before the point, a zero among them first only if it is the only one, and there are
digits behind the point. -/
structure WellFormed (numeral : Numeral) : Prop where
  ne_nil : numeral.whole ≠ []
  digits : ∀ d ∈ numeral.whole, d.isDigit = true
  leading : numeral.whole.head? = some '0' → numeral.whole = ['0']
  fraction : ∀ digits ∈ numeral.fraction, digits ≠ [] ∧ ∀ d ∈ digits, d.isDigit = true

/-- A numeral begins with a digit or a minus. -/
theorem WellFormed.chars_eq {numeral : Numeral} (h : numeral.WellFormed) :
    ∃ c cs, numeral.chars = c :: cs ∧ (c.isDigit = true ∨ c = '-') := by
  unfold chars
  cases numeral.negative with
  | true => exact ⟨'-', _, rfl, Or.inr rfl⟩
  | false =>
      obtain ⟨first, more, hwhole⟩ := List.exists_cons_of_ne_nil h.ne_nil
      rw [hwhole]
      exact ⟨first, _, rfl, Or.inl (h.digits first (hwhole ▸ List.mem_cons_self ..))⟩

/-- The digits of a numeral as one number, and the power of ten that the last of them counts. -/
def decimal (numeral : Numeral) : Double.Digits where
  digits := ofDecimalDigits (numeral.whole ++ numeral.fraction.getD [])
  exponent := numeral.exponent.getD 0 - (numeral.fraction.getD []).length

end Numeral

/-! ## Doubles -/

namespace Double

/-- The decimal rounds to the magnitude. -/
def Digits.Rounds (decimal : Digits) (magnitude : Nat) : Prop :=
  Double.Rounds magnitude (decimal.digits * tenTo decimal.exponent.toNat)
    (tenTo (-decimal.exponent).toNat)

theorem Digits.Rounds.unique {decimal : Digits} {magnitude other : Nat} (h : decimal.Rounds magnitude)
    (h' : decimal.Rounds other) : magnitude = other := Double.Rounds.unique h h' (tenTo_pos _)

/-- A zero behind the point makes no difference. -/
theorem Digits.Rounds.shift {digits magnitude places : Nat}
    (h : Digits.Rounds ⟨digits, places⟩ magnitude) :
    Digits.Rounds ⟨digits * tenTo (places + 1), -1⟩ magnitude := by
  have hunit : tenTo (-(places : Int)).toNat = 1 := by
    rw [Int.toNat_neg_natCast]
    rfl
  have hten : 0 < 10 := by decide
  refine Around.of_scaled h hten Nat.one_pos ?_ ?_
  · dsimp only
    rw [hunit, Nat.one_mul, Nat.one_mul]
    rfl
  · dsimp only
    have hone : tenTo 1 = 10 := rfl
    have hnone : tenTo (-1 : Int).toNat = 1 := rfl
    rw [Nat.one_mul, Int.toNat_natCast, tenTo_add, hone, hnone, Nat.mul_one,
      Nat.mul_comm (tenTo places), Nat.mul_left_comm digits, Nat.mul_assoc 10]

/-- The digits that `scientific` lays out, as it does. -/
def layOut (negative : Bool) (digits : List Char) (exponent : Int) : Numeral :=
  let first := exponent + digits.length - 1
  if first < -5 ∨ 15 < first then
    ⟨negative, digits.take 1, if digits.length = 1 then none else some (digits.drop 1), some first⟩
  else if 0 ≤ exponent then ⟨negative, digits ++ List.replicate exponent.toNat '0', some ['0'], none⟩
  else
    let places := (-exponent).toNat
    if digits.length ≤ places then
      ⟨negative, ['0'], some (List.replicate (places - digits.length) '0' ++ digits), none⟩
    else
      ⟨negative, digits.take (digits.length - places), some (digits.drop (digits.length - places)), none⟩

/-- The numeral that a double is written as. -/
def numeral (x : Double) : Numeral :=
  if x.magnitude = 0 then ⟨x.negative, ['0'], some ['0'], none⟩
  else layOut x.negative (decimalDigits (shortest .toEven x.magnitude).digits)
    (shortest .toEven x.magnitude).exponent

theorem scientific_eq (x : Double) : x.scientific = String.ofList x.numeral.chars := by
  unfold scientific numeral layOut placePoint sign
  refine congrArg String.ofList ?_
  by_cases hzero : x.magnitude = 0
  · rw [if_pos hzero, if_pos hzero]
    simp [Numeral.chars]
  rw [if_neg hzero, if_neg hzero]
  dsimp only
  generalize (shortest .toEven x.magnitude).exponent = exponent
  generalize decimalDigits (shortest .toEven x.magnitude).digits = digits
  by_cases hfar : exponent + digits.length - 1 < -5 ∨ 15 < exponent + digits.length - 1
  · rw [if_pos hfar, if_pos hfar]
    by_cases hone : digits.length = 1
    · simp [Numeral.chars, hone]
    · simp [Numeral.chars, hone]
  rw [if_neg hfar, if_neg hfar]
  by_cases hwhole : 0 ≤ exponent
  · simp [Numeral.chars, hwhole]
  rw [if_neg hwhole, if_neg hwhole, if_neg hwhole]
  by_cases hbelow : digits.length ≤ (-exponent).toNat
  · simp [Numeral.chars, hbelow]
  · simp [Numeral.chars, hbelow]

section LayOut

variable {digits : List Char} (negative : Bool) (exponent : Int)

theorem layOut_wellFormed (hne : digits ≠ []) (hdigits : ∀ d ∈ digits, d.isDigit = true)
    (hleading : digits.head? ≠ some '0') : (layOut negative digits exponent).WellFormed := by
  have hzeros : ∀ k, ∀ d ∈ List.replicate k '0', d.isDigit = true := fun k d hd =>
    List.eq_of_mem_replicate hd ▸ by decide
  have htake : ∀ k, ∀ d ∈ digits.take k, d.isDigit = true := fun k d hd =>
    hdigits d (List.mem_of_mem_take hd)
  have hdrop : ∀ k, ∀ d ∈ digits.drop k, d.isDigit = true := fun k d hd =>
    hdigits d (List.mem_of_mem_drop hd)
  have hlength := List.length_pos_iff.mpr hne
  -- digits are left before the point wherever it is put among them
  have hfirst : ∀ k, 0 < k → digits.take k ≠ [] ∧ (digits.take k).head? ≠ some '0' := by
    intro k hk
    rw [ne_eq, List.take_eq_nil_iff, List.head?_take, if_neg (Nat.ne_of_gt hk)]
    exact ⟨fun h => h.elim (Nat.ne_of_gt hk) hne, hleading⟩
  have hrest : ∀ k, k < digits.length → digits.drop k ≠ [] := fun k hk =>
    mt List.drop_eq_nil_iff.mp (Nat.not_le.mpr hk)
  unfold layOut
  by_cases hfar : exponent + digits.length - 1 < -5 ∨ 15 < exponent + digits.length - 1
  · rw [if_pos hfar]
    obtain ⟨hwhole, hhead⟩ := hfirst 1 (by decide)
    refine ⟨hwhole, htake 1, fun h => absurd h hhead, fun fraction hfraction => ?_⟩
    by_cases hone : digits.length = 1
    · rw [if_pos hone] at hfraction
      cases hfraction
    · rw [if_neg hone] at hfraction
      obtain rfl := Option.some.inj hfraction
      exact ⟨hrest 1 (by omega), hdrop 1⟩
  rw [if_neg hfar]
  by_cases hwhole : 0 ≤ exponent
  · rw [if_pos hwhole]
    refine ⟨by simp [hne], List.forall_mem_append.mpr ⟨hdigits, hzeros _⟩, fun h => ?_, ?_⟩
    · obtain ⟨first, more, rfl⟩ := List.exists_cons_of_ne_nil hne
      exact absurd h hleading
    · intro fraction hfraction
      obtain rfl := Option.some.inj hfraction
      exact ⟨nofun, List.forall_mem_singleton.mpr (by decide)⟩
  rw [if_neg hwhole]
  dsimp only
  by_cases hbelow : digits.length ≤ (-exponent).toNat
  · rw [if_pos hbelow]
    refine ⟨nofun, List.forall_mem_singleton.mpr (by decide), fun _ => rfl, ?_⟩
    intro fraction hfraction
    obtain rfl := Option.some.inj hfraction
    exact ⟨by simp [hne], List.forall_mem_append.mpr ⟨hzeros _, hdigits⟩⟩
  · rw [if_neg hbelow]
    obtain ⟨htaken, hhead⟩ := hfirst (digits.length - (-exponent).toNat) (by omega)
    refine ⟨htaken, htake _, fun h => absurd h hhead, ?_⟩
    intro fraction hfraction
    obtain rfl := Option.some.inj hfraction
    exact ⟨hrest _ (by omega), hdrop _⟩

/-- **The decimal stays the same wherever the point is put,** but for a zero behind it. -/
theorem layOut_rounds (hne : digits ≠ []) {magnitude : Nat}
    (h : Digits.Rounds ⟨ofDecimalDigits digits, exponent⟩ magnitude) :
    (layOut negative digits exponent).decimal.Rounds magnitude := by
  have hlength := List.length_pos_iff.mpr hne
  unfold layOut
  by_cases hfar : exponent + digits.length - 1 < -5 ∨ 15 < exponent + digits.length - 1
  · rw [if_pos hfar]
    have hsame : (Numeral.mk negative (digits.take 1)
        (if digits.length = 1 then none else some (digits.drop 1))
        (some (exponent + digits.length - 1))).decimal = ⟨ofDecimalDigits digits, exponent⟩ := by
      unfold Numeral.decimal
      by_cases hone : digits.length = 1
      · rw [if_pos hone, List.take_of_length_le (Nat.le_of_eq hone)]
        simp [hone]
      · rw [if_neg hone, Option.getD_some, List.take_append_drop]
        simp
        omega
    rwa [hsame]
  rw [if_neg hfar]
  by_cases hwhole : 0 ≤ exponent
  · rw [if_pos hwhole]
    have hshift : (Numeral.mk negative (digits ++ List.replicate exponent.toNat '0') (some ['0'])
        none).decimal = ⟨ofDecimalDigits digits * tenTo (exponent.toNat + 1), -1⟩ := by
      unfold Numeral.decimal
      rw [Option.getD_some, List.append_assoc, ← List.replicate_succ', ofDecimalDigits_append_zeros]
      rfl
    rw [hshift]
    refine Digits.Rounds.shift ?_
    rwa [Int.toNat_of_nonneg hwhole]
  rw [if_neg hwhole]
  dsimp only
  by_cases hbelow : digits.length ≤ (-exponent).toNat
  · rw [if_pos hbelow]
    have hsame : (Numeral.mk negative ['0']
        (some (List.replicate ((-exponent).toNat - digits.length) '0' ++ digits)) none).decimal
          = ⟨ofDecimalDigits digits, exponent⟩ := by
      unfold Numeral.decimal
      rw [Option.getD_some, List.singleton_append, ← List.cons_append, ← List.replicate_succ,
        ofDecimalDigits_zeros_append]
      simp
      omega
    rwa [hsame]
  · rw [if_neg hbelow]
    have hsame : (Numeral.mk negative (digits.take (digits.length - (-exponent).toNat))
        (some (digits.drop (digits.length - (-exponent).toNat))) none).decimal
          = ⟨ofDecimalDigits digits, exponent⟩ := by
      unfold Numeral.decimal
      rw [Option.getD_some, List.take_append_drop]
      simp
      omega
    rwa [hsame]

end LayOut

theorem rounds_zero (denominator : Nat) : Double.Rounds 0 0 denominator := by
  have hsignificand : significand 0 = 0 := rfl
  unfold Double.Rounds
  rw [hsignificand]
  exact ⟨by simp, by simp, Or.inl rfl⟩

/-- The decimal that a double is written as rounds to its magnitude. -/
theorem numeral_rounds (x : Double) : x.numeral.decimal.Rounds x.magnitude := by
  unfold numeral
  by_cases hzero : x.magnitude = 0
  · rw [if_pos hzero, hzero]
    exact rounds_zero _
  · rw [if_neg hzero]
    have hne : decimalDigits (Double.shortest .toEven x.magnitude).digits ≠ [] := Nat.toDigits_ne_nil
    refine layOut_rounds x.negative _ hne ?_
    rw [ofDecimalDigits_decimalDigits]
    exact shortest_rounds .toEven (Nat.pos_of_ne_zero hzero)

theorem numeral_wellFormed (x : Double) : x.numeral.WellFormed := by
  unfold numeral
  by_cases hzero : x.magnitude = 0
  · rw [if_pos hzero]
    refine ⟨nofun, List.forall_mem_singleton.mpr (by decide), fun _ => rfl, ?_⟩
    intro fraction hfraction
    obtain rfl := Option.some.inj hfraction
    exact ⟨nofun, List.forall_mem_singleton.mpr (by decide)⟩
  · rw [if_neg hzero]
    refine layOut_wellFormed x.negative _ Nat.toDigits_ne_nil
      (fun d hd => Nat.isDigit_of_mem_toDigits (by decide) (by decide) hd) fun hhead => ?_
    -- digits that are zero round to zero
    have hrounds := shortest_rounds .toEven (Nat.pos_of_ne_zero hzero)
    rw [eq_zero_of_head_decimalDigits hhead, Nat.zero_mul] at hrounds
    exact hzero (hrounds.of_zero (tenTo_pos _))

/-- The text of a double shows that it is no integer. -/
theorem numeral_not_integer (x : Double) : x.numeral.fraction.isSome ∨ x.numeral.exponent.isSome := by
  unfold numeral layOut
  dsimp only
  split
  · exact Or.inl rfl
  · split
    · exact Or.inr rfl
    · split
      · exact Or.inl rfl
      · split <;> exact Or.inl rfl

theorem numeral_negative (x : Double) : x.numeral.negative = x.negative := by
  unfold numeral layOut
  dsimp only
  repeat' split
  all_goals rfl

end Double

/-! ## Numbers -/

namespace Number

/-- The numeral that a number is written as. -/
def numeral : Number → Numeral
  | .integer value => ⟨decide (value < 0), decimalDigits value.natAbs, none, none⟩
  | .double value => value.numeral

/-- **A number is written as a numeral.** -/
theorem print_eq (number : Number) : number.print = String.ofList number.numeral.chars := by
  cases number with
  | double value => exact value.scientific_eq
  | integer value =>
      unfold print numeral Numeral.chars
      dsimp only
      rw [Option.elim_none, Option.elim_none, List.append_nil, List.append_nil]
      cases value with
      | ofNat n =>
          have hsign : ¬Int.ofNat n < 0 := Int.not_lt.mpr (Int.natCast_nonneg n)
          rw [if_neg (mt of_decide_eq_true hsign)]
          exact Nat.toString_eq_ofList_toDigits
      | negSucc n =>
          rw [if_pos (decide_eq_true (Int.negSucc_lt_zero n)), String.ofList_append]
          exact congrArg ("-" ++ ·) Nat.toString_eq_ofList_toDigits

theorem numeral_wellFormed (number : Number) : number.numeral.WellFormed := by
  cases number with
  | double value => exact value.numeral_wellFormed
  | integer value =>
      refine ⟨Nat.toDigits_ne_nil,
        fun d hd => Nat.isDigit_of_mem_toDigits (by decide) (by decide) hd, fun h => ?_, nofun⟩
      exact congrArg decimalDigits (eq_zero_of_head_decimalDigits h)

/-- **The numeral determines the number.** -/
theorem numeral_injective {number other : Number} (h : number.numeral = other.numeral) :
    number = other := by
  cases number with
  | integer value =>
      cases other with
      | integer value' =>
          obtain ⟨hsign, hdigits, -, -⟩ := Numeral.mk.inj h
          have hvalue := congrArg ofDecimalDigits hdigits
          rw [ofDecimalDigits_decimalDigits, ofDecimalDigits_decimalDigits] at hvalue
          rw [decide_eq_decide] at hsign
          exact congrArg integer (by omega)
      | double value' =>
          have hpoint := value'.numeral_not_integer
          rw [show value'.numeral = _ from h.symm] at hpoint
          exact absurd hpoint (by simp [numeral])
  | double value =>
      cases other with
      | integer value' =>
          have hpoint := value.numeral_not_integer
          rw [show value.numeral = _ from h] at hpoint
          exact absurd hpoint (by simp [numeral])
      | double value' =>
          have hnumeral : value.numeral = value'.numeral := h
          have hsign := value.numeral_negative
          have hrounds := value.numeral_rounds
          rw [hnumeral] at hsign hrounds
          rw [value'.numeral_negative] at hsign
          have hmagnitude := hrounds.unique value'.numeral_rounds
          exact congrArg double (congr (congrArg Double.mk hsign.symm) hmagnitude)

end Number

end DecisionGraph
