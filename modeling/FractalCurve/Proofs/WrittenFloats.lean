import FractalCurve.Json.Value
import FractalCurve.Proofs.DoubleSize
import FractalCurve.Proofs.Numerals

/-!
# Floats as written

A finite single-precision number is written as a numeral of moderate size
(`ofFloat_cases`), and such a numeral has a value (`exists_numberValue`).
Which value that is stays open here; the point is that it never lies beyond the
double-precision numbers.
-/

namespace FractalCurve

-- ---------------------------------------------------------------------------
-- Values of numerals
-- ---------------------------------------------------------------------------

/-- Well-formed, and of so few digits in front of the point that the value is in
range. -/
structure Number.Numeral.Readable (n : Numeral) : Prop extends n.WellFormed where
  size_le : n.whole.length + n.exponent.getD 0 ≤ 40

namespace Json

open Number

theorem appendDigits_eq {size : Nat} {digits : List Char}
    (h : Nat.ofDigitChars 10 digits size < twoPow 64) :
    appendDigits size digits = (Nat.ofDigitChars 10 digits size, []) := by
  induction digits generalizing size with
  | nil => simp [appendDigits]
  | cons d digits ih =>
    rw [Nat.ofDigitChars_cons] at h ⊢
    have hle : 10 * size + digitValue d < twoPow 64 := by
      refine Nat.lt_of_le_of_lt ?_ h
      rw [Nat.ofDigitChars_eq_ofDigitChars_zero]
      exact Nat.le_add_right_of_le (Nat.le_mul_of_pos_left _ (Nat.pow_pos (by decide)))
    rw [appendDigits]
    simp only [hle, if_true]
    exact ih h

theorem appendDigits_left_le (size : Nat) (digits : List Char) :
    (appendDigits size digits).2.length ≤ digits.length := by
  induction digits generalizing size with
  | nil => simp [appendDigits]
  | cons d digits ih =>
    simp only [appendDigits]
    split
    · exact Nat.le_succ_of_le (ih _)
    · exact Nat.le_refl _

theorem numberValue_ofNat {n : Nat} (h : n < twoPow 64) :
    numberValue (Numeral.ofNat n) = .ok (.natural n.toUInt64) := by
  have hdigits : appendDigits 0 (Nat.toDigits 10 n) = (n, []) := by
    rw [appendDigits_eq]
    · simp
    · simpa using h
  simp [numberValue, Numeral.ofNat, hdigits]

theorem exists_scaleByTen (size : Nat) {exponent : Int} (h : exponent ≤ 40) :
    ∃ x, scaleByTen size exponent = .ok x := by
  unfold scaleByTen
  dsimp only
  split
  · exact ⟨_, rfl⟩
  · rw [if_neg (by omega)]
    split
    · rw [if_pos (isFinite_toFloat_mul_powerOfTen _ (by omega))]
      exact ⟨_, rfl⟩
    · split
      · exact ⟨_, rfl⟩
      · split <;> exact ⟨_, rfl⟩

theorem exists_realValue {n : Numeral} (h : n.Readable) : ∃ x, realValue n = .ok x := by
  have hsize := h.size_le
  have hzeros := appendDigits_left_le 0 n.whole
  simp only [realValue]
  generalize appendDigits 0 n.whole = whole at hzeros
  generalize appendDigits whole.1 n.fraction = size
  obtain ⟨x, hx⟩ := exists_scaleByTen size.1
    (show (whole.2.length : Int) - (n.fraction.length - size.2.length : Nat) + n.exponent.getD 0 ≤
      40 by omega)
  rw [hx]
  exact ⟨if n.negative then -x else x, by split <;> rfl⟩

theorem exists_numberValue {n : Numeral} (h : n.Readable) : ∃ v, numberValue n = .ok v := by
  obtain ⟨x, hx⟩ := exists_realValue h
  unfold numberValue
  dsimp only
  split
  · exact ⟨_, rfl⟩
  · exact ⟨_, by rw [hx]; rfl⟩

end Json

-- ---------------------------------------------------------------------------
-- Shortest decimals
-- ---------------------------------------------------------------------------

namespace Number

theorem twoPow_pos (n : Nat) : 0 < twoPow n := Nat.two_pow_pos n

theorem tenPow_pos (n : Nat) : 0 < tenPow n := Nat.pow_pos (by decide)

/-- Where the first digit of a decimal counts `10 ^ leading`. -/
def Decimal.leading (d : Decimal) : Int :=
  ((Nat.toDigits 10 d.coefficient).length : Int) - 1 + d.exponent

/-- What shortest decimals have in common: zero has exponent zero, and none is
larger than single-precision numbers are. -/
structure Decimal.Written (d : Decimal) : Prop where
  exponent_of_zero : d.coefficient = 0 → d.exponent = 0
  leading_lt : d.leading < 39

/-- No larger than single-precision numbers are. -/
structure BinaryValue.Single (v : BinaryValue) : Prop where
  significand_lt : v.significand < 2 ^ 24
  exponent_le : v.exponent ≤ 104

theorem BinaryFormat.single_of_decode {bits : Nat} {v : BinaryValue}
    (h : binary32.decode bits = some v) : v.Single := by
  simp only [decode, fraction_binary32, leastExponent_binary32, infinityBits_binary32] at h
  split at h
  · cases h
  · split at h
    · cases h
      constructor <;> dsimp only <;> omega
    · cases h
      constructor <;> dsimp only <;> omega

/-- The multiple that is chosen is one of those inside the interval. -/
theorem RoundingInterval.inside_nearestMultiple {i : RoundingInterval} {tie : Tie} {grid : Int}
    {c : Nat} (h : i.nearestMultiple tie grid = some c) :
    i.low * (twoPow i.exponent.toNat * tenPow (-grid).toNat) ≤
        c * (twoPow (-i.exponent).toNat * tenPow grid.toNat) ∧
      c * (twoPow (-i.exponent).toNat * tenPow grid.toNat) ≤
        i.high * (twoPow i.exponent.toNat * tenPow (-grid).toNat) := by
  unfold nearestMultiple at h
  extract_lets unit step inside below above at h
  have hinside : inside c = true := by
    split at h
    next => cases h
    next hbelow habove => exact Option.some.inj h ▸ hbelow
    next hbelow habove => exact Option.some.inj h ▸ habove
    next hbelow habove =>
      split at h
      · exact Option.some.inj h ▸ hbelow
      · exact Option.some.inj h ▸ habove
      · rw [← Option.some.inj h]
        cases tie with
        | up => exact habove
        | toEven =>
          dsimp only
          split
          · exact hbelow
          · exact habove
  simp only [inside] at hinside
  split at hinside
  · exact of_decide_eq_true hinside
  · obtain ⟨hlow, hhigh⟩ := of_decide_eq_true hinside
    exact ⟨Nat.le_of_lt hlow, Nat.le_of_lt hhigh⟩

/-- The interval of a value other than zero begins above zero, so none of its
points is zero. -/
theorem BinaryValue.nearestMultiple_pos {v : BinaryValue} (hv : v.significand ≠ 0) {tie : Tie}
    {grid : Int} {c : Nat} (h : v.interval32.nearestMultiple tie grid = some c) : 0 < c := by
  have hlow : 0 < v.interval32.low := by
    simp only [interval32]
    split <;> omega
  obtain ⟨hle, -⟩ := RoundingInterval.inside_nearestMultiple h
  have hunit := Nat.mul_pos (twoPow_pos v.interval32.exponent.toNat) (tenPow_pos (-grid).toNat)
  exact Nat.pos_of_mul_pos_right (Nat.lt_of_lt_of_le (Nat.mul_pos hlow hunit) hle)

theorem ten_pow_length_le {n : Nat} (h : 0 < n) : 10 ^ ((Nat.toDigits 10 n).length - 1) ≤ n := by
  by_cases hlt : n < 10
  · rw [Nat.toDigits_of_lt_base hlt]
    exact h
  · have hlong : 1 < (Nat.toDigits 10 n).length := by
      have := Nat.length_toDigits_le_iff (b := 10) (n := n) (by decide) Nat.one_pos
      omega
    have hnot := mt (Nat.length_toDigits_le_iff (b := 10) (n := n) (by decide)
      (Nat.sub_pos_of_lt hlong)).2
    omega

theorem BinaryValue.Single.leading_nearestMultiple {v : BinaryValue} (hsingle : v.Single)
    (hv : v.significand ≠ 0) {tie : Tie} {grid : Int} {c : Nat}
    (h : v.interval32.nearestMultiple tie grid = some c) : (⟨c, grid⟩ : Decimal).leading < 39 := by
  obtain ⟨hsignificand, hexponent⟩ := hsingle
  obtain ⟨-, hle⟩ := RoundingInterval.inside_nearestMultiple h
  have hdigits := ten_pow_length_le (nearestMultiple_pos hv h)
  have hhigh : v.interval32.high * twoPow v.interval32.exponent.toNat < 10 ^ 39 := by
    have htop : v.interval32.high < 2 ^ 26 := by
      simp only [interval32]
      omega
    have hscale : twoPow v.interval32.exponent.toNat ≤ 2 ^ 102 :=
      Nat.pow_le_pow_right (by decide) (by simp only [interval32]; omega)
    calc v.interval32.high * twoPow v.interval32.exponent.toNat
        < 2 ^ 26 * 2 ^ 102 := Nat.mul_lt_mul_of_lt_of_le htop hscale (by decide)
      _ < 10 ^ 39 := by decide
  -- Both sides of `hle` as powers of ten, the negative grids on the right.
  have hpowers : 10 ^ ((Nat.toDigits 10 c).length - 1 + grid.toNat) <
      10 ^ (39 + (-grid).toNat) := by
    calc 10 ^ ((Nat.toDigits 10 c).length - 1 + grid.toNat)
        = 10 ^ ((Nat.toDigits 10 c).length - 1) * tenPow grid.toNat := Nat.pow_add ..
      _ ≤ c * tenPow grid.toNat := Nat.mul_le_mul_right _ hdigits
      _ ≤ c * (twoPow (-v.interval32.exponent).toNat * tenPow grid.toNat) :=
          Nat.mul_le_mul_left _ (Nat.le_mul_of_pos_left _ (twoPow_pos _))
      _ ≤ v.interval32.high * (twoPow v.interval32.exponent.toNat * tenPow (-grid).toNat) := hle
      _ = v.interval32.high * twoPow v.interval32.exponent.toNat * tenPow (-grid).toNat :=
          (Nat.mul_assoc ..).symm
      _ < 10 ^ 39 * tenPow (-grid).toNat := Nat.mul_lt_mul_of_pos_right hhigh (tenPow_pos _)
      _ = 10 ^ (39 + (-grid).toNat) := (Nat.pow_add ..).symm
  have hlength := (Nat.pow_lt_pow_iff_right (by decide)).1 hpowers
  have := Nat.length_toDigits_pos (b := 10) (n := c)
  simp only [Decimal.leading]
  omega

theorem BinaryValue.Single.written_shortest32 {v : BinaryValue} (hsingle : v.Single) (tie : Tie) :
    (v.shortest32 tie).Written := by
  have hzero : (⟨0, 0⟩ : Decimal).Written := ⟨fun _ => rfl, by decide⟩
  unfold shortest32
  split
  · exact hzero
  next hv =>
    cases hfound : grids32.findSome? fun grid =>
        (v.interval32.nearestMultiple tie grid).map fun c => (⟨c, grid⟩ : Decimal) with
    | none => exact hzero
    | some d =>
      obtain ⟨grid, -, hgrid⟩ := List.exists_of_findSome?_eq_some hfound
      obtain ⟨c, hc, rfl⟩ := Option.map_eq_some_iff.1 hgrid
      refine ⟨fun h => ?_, hsingle.leading_nearestMultiple hv hc⟩
      exact absurd h (Nat.pos_iff_ne_zero.1 (nearestMultiple_pos hv hc))

-- ---------------------------------------------------------------------------
-- Numerals of floats
-- ---------------------------------------------------------------------------

theorem isDigit_of_mem_replicate {n : Nat} : ∀ c ∈ List.replicate n '0', c.isDigit := by
  intro c hc
  rw [List.eq_of_mem_replicate hc]
  rfl

variable {d : Decimal}

theorem Decimal.Written.positional (hd : d.Written) (negative : Bool) {wholeFraction : List Char}
    (hwhole : ∀ c ∈ wholeFraction, c.isDigit) :
    (d.positional negative wholeFraction).Readable := by
  unfold Decimal.positional
  extract_lets digits point
  have hdigits : ∀ c ∈ digits, c.isDigit := toDigits_digits d.coefficient
  have hshort : digits.head? = some '0' → digits.length ≤ 1 := toDigits_wholePart d.coefficient
  have hne : digits ≠ [] := Nat.toDigits_ne_nil
  have hleading : (digits.length : Int) - 1 + d.exponent < 39 := hd.leading_lt
  split
  next hexponent =>
    -- Zeros stand behind the digits, but zero itself is written without more.
    have hhead : (digits ++ List.replicate d.exponent.toNat '0').head? = some '0' →
        (digits ++ List.replicate d.exponent.toNat '0').length ≤ 1 := by
      intro h
      rcases Nat.eq_zero_or_pos d.coefficient with hzero | hpos
      · simp [digits, hzero, hd.exponent_of_zero hzero]
      · rw [List.head?_append, Option.or_of_isSome (by simpa using hne)] at h
        exact absurd h (head?_toDigits hpos)
    exact {
      whole_ne_nil := by simp [hne]
      whole_digits := by
        simp only [List.forall_mem_append]
        exact ⟨hdigits, isDigit_of_mem_replicate⟩
      whole_head := hhead
      fraction_digits := hwhole
      size_le := by
        simp
        omega }
  · split
    next hpoint =>
      -- The point cuts the digits in two.
      have hpos : point.toNat ≠ 0 := by omega
      have hhead : (digits.take point.toNat).head? = some '0' →
          (digits.take point.toNat).length ≤ 1 := by
        intro h
        rw [List.head?_take, if_neg hpos] at h
        exact (List.length_take_le' _ _).trans (hshort h)
      exact {
        whole_ne_nil := by simp [hne, hpos]
        whole_digits := fun c hc => hdigits c (List.mem_of_mem_take hc)
        whole_head := hhead
        fraction_digits := fun c hc => hdigits c (List.mem_of_mem_drop hc)
        size_le := by
          simp
          omega }
    · -- Zeros stand between the point and the digits.
      exact {
        whole_ne_nil := by simp
        whole_digits := by simp
        whole_head := by simp
        fraction_digits := by
          simp only [List.forall_mem_append]
          exact ⟨isDigit_of_mem_replicate, hdigits⟩
        size_le := by simp }

theorem Decimal.Written.scientific (hd : d.Written) (negative : Bool) :
    (d.scientific negative).Readable := by
  unfold Decimal.scientific
  extract_lets digits
  have hdigits : ∀ c ∈ digits, c.isDigit := toDigits_digits d.coefficient
  have hne : digits ≠ [] := Nat.toDigits_ne_nil
  have hleading : (digits.length : Int) - 1 + d.exponent < 39 := hd.leading_lt
  exact {
    whole_ne_nil := by simp [hne]
    whole_digits := fun c hc => hdigits c (List.mem_of_mem_take hc)
    whole_head := fun _ => List.length_take_le _ _
    fraction_digits := fun c hc => hdigits c (List.mem_of_mem_drop hc)
    size_le := by
      simp
      omega }

theorem FloatStyle.readable_numeral (style : FloatStyle)
    (hwhole : ∀ c ∈ style.wholeFraction, c.isDigit) {v : BinaryValue}
    (hd : (v.shortest32 style.tie).Written) : (style.numeral v).Readable := by
  unfold FloatStyle.numeral
  dsimp only
  split
  · exact hd.positional v.negative hwhole
  · exact hd.scientific v.negative

end Number

namespace Json

open Number

/-- A numeral is written for a finite float, and only for one. -/
theorem ofFloat_cases (x : Float32) :
    (x.isFinite = false ∧ ofFloat x = .null) ∨
      (x.isFinite = true ∧ ∃ n : Numeral, n.Readable ∧ ofFloat x = .number n) := by
  rw [← isSome_finite32]
  unfold ofFloat
  cases h : finite32 x with
  | none => exact .inl ⟨rfl, rfl⟩
  | some v =>
    have hwritten := (BinaryFormat.single_of_decode h).written_shortest32 floatStyle.tie
    exact .inr ⟨rfl, _, floatStyle.readable_numeral (by simp [floatStyle]) hwritten, rfl⟩

end Json

end FractalCurve
