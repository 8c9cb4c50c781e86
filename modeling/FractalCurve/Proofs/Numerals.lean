import FractalCurve.Json.Scan

/-!
# Scanning numerals

A numeral may be spelled in several ways, which differ in the exponent.
`scanNumber_append`: it is scanned back from each of them, whatever follows, as
long as that cannot be taken for more of the numeral. The numeral has to be
well-formed: a point is written only in front of digits, and a number of several
digits does not begin with zero.
-/

namespace FractalCurve

namespace Number

structure Numeral.WellFormed (n : Numeral) : Prop where
  whole_ne_nil : n.whole ≠ []
  whole_digits : ∀ d ∈ n.whole, d.isDigit
  whole_head : n.whole.head? = some '0' → n.whole.length ≤ 1
  fraction_digits : ∀ d ∈ n.fraction, d.isDigit

theorem toDigits_digits (n : Nat) : ∀ d ∈ Nat.toDigits 10 n, d.isDigit :=
  fun _ hd => Nat.isDigit_of_mem_toDigits (by decide) (by decide) hd

theorem head?_toDigits {n : Nat} (h : 0 < n) : (Nat.toDigits 10 n).head? ≠ some '0' := by
  induction n using Nat.strongRecOn with
  | ind n ih =>
    by_cases hlt : n < 10
    · rw [Nat.toDigits_of_lt_base hlt]
      simpa using Nat.pos_iff_ne_zero.1 h
    · rw [Nat.toDigits_of_base_le (by decide) (by omega), List.head?_append,
        Option.or_of_isSome (by simp)]
      exact ih (n / 10) (by omega) (by omega)

theorem toDigits_wholePart (n : Nat) :
    (Nat.toDigits 10 n).head? = some '0' → (Nat.toDigits 10 n).length ≤ 1 := by
  rcases Nat.eq_zero_or_pos n with rfl | hpos
  · simp
  · exact fun h => (head?_toDigits hpos h).elim

theorem Numeral.wellFormed_ofNat (n : Nat) : (Numeral.ofNat n).WellFormed where
  whole_ne_nil := Nat.toDigits_ne_nil
  whole_digits := toDigits_digits n
  whole_head := toDigits_wholePart n
  fraction_digits := by simp [ofNat]

end Number

namespace Json

open Number

/-- No more of a numeral: neither a digit nor a point nor an exponent. -/
def EndsNumeral (rest : List Char) : Prop :=
  ∀ c ∈ rest.head?, c.isDigit = false ∧ c ≠ '.' ∧ c ≠ 'e' ∧ c ≠ 'E'

theorem endsNumeral_nil : EndsNumeral [] := by simp [EndsNumeral]

theorem endsNumeral_cons {c : Char} {rest : List Char}
    (h : c.isDigit = false ∧ c ≠ '.' ∧ c ≠ 'e' ∧ c ≠ 'E') : EndsNumeral (c :: rest) := by
  simpa [EndsNumeral] using h

/-- No digit in front. -/
def EndsDigits (rest : List Char) : Prop := ∀ c ∈ rest.head?, c.isDigit = false

theorem EndsNumeral.endsDigits {rest : List Char} (h : EndsNumeral rest) : EndsDigits rest :=
  fun c hc => (h c hc).1

theorem scanDigits_append {digits rest : List Char} (hne : digits ≠ [])
    (hdigits : ∀ d ∈ digits, d.isDigit) (hrest : EndsDigits rest) :
    scanDigits (digits ++ rest) = .ok (digits, rest) := by
  have htake : (digits ++ rest).takeWhile Char.isDigit = digits := by
    rw [List.takeWhile_append_of_pos hdigits]
    cases rest with
    | nil => simp
    | cons c rest => simp [hrest c rfl]
  have hdrop : (digits ++ rest).dropWhile Char.isDigit = rest := by
    rw [List.dropWhile_append_of_pos hdigits]
    cases rest with
    | nil => rfl
    | cons c rest => simp [hrest c rfl]
  simp [scanDigits, htake, hdrop, hne]

theorem scanWhole_append {digits rest : List Char} (hne : digits ≠ [])
    (hdigits : ∀ d ∈ digits, d.isDigit) (hhead : digits.head? = some '0' → digits.length ≤ 1)
    (hrest : EndsDigits rest) : scanWhole (digits ++ rest) = .ok (digits, rest) := by
  have hok : ¬ (digits.head? = some '0' ∧ 1 < digits.length) := fun h =>
    Nat.not_lt.2 (hhead h.1) h.2
  simp only [scanWhole, scanDigits_append hne hdigits hrest, bind, Except.bind, if_neg hok]
  rfl

theorem scanFraction_append {digits rest : List Char} (hdigits : ∀ d ∈ digits, d.isDigit)
    (hrest : EndsDigits rest) (hpoint : ∀ c ∈ rest.head?, c ≠ '.') :
    scanFraction (fractionText digits ++ rest) = .ok (digits, rest) := by
  cases digits with
  | nil =>
    unfold scanFraction
    split
    next heq => exact absurd rfl (hpoint '.' (by simp [show rest = _ from heq]))
    next => rfl
  | cons d digits => exact scanDigits_append (by simp) hdigits hrest

/-- The texts of an exponent: a mark, a sign that may be left out if it is
plus, and digits. -/
inductive SpellsExponent : List Char → Option Int → Prop
  | none : SpellsExponent [] none
  | positive {mark : Char} {sign digits : List Char} (hmark : mark = 'e' ∨ mark = 'E')
      (hsign : sign = [] ∨ sign = ['+']) (hne : digits ≠ []) (hdigits : ∀ d ∈ digits, d.isDigit) :
      SpellsExponent (mark :: (sign ++ digits)) (some (digitsValue digits))
  | negative {mark : Char} {digits : List Char} (hmark : mark = 'e' ∨ mark = 'E')
      (hne : digits ≠ []) (hdigits : ∀ d ∈ digits, d.isDigit) :
      SpellsExponent (mark :: '-' :: digits) (some (-(digitsValue digits : Int)))

/-- The texts of a number. -/
inductive SpellsNumeral : List Char → Numeral → Prop
  | intro {n : Numeral} {exponent : List Char} (h : n.WellFormed)
      (hexponent : SpellsExponent exponent n.exponent) :
      SpellsNumeral
        ((if n.negative then ['-'] else []) ++ (n.whole ++ (fractionText n.fraction ++ exponent))) n

theorem digitsValue_toDigits (n : Nat) : digitsValue (Nat.toDigits 10 n) = n :=
  Nat.ofDigitChars_ten_toDigits

theorem spellsExponent_exponentText (exponent : Option Int) :
    SpellsExponent (exponentText exponent) exponent := by
  cases exponent with
  | none => exact .none
  | some e =>
    have hvalue : (digitsValue (Nat.toDigits 10 e.natAbs) : Int) = e.natAbs :=
      congrArg Int.ofNat (digitsValue_toDigits e.natAbs)
    rw [exponentText]
    split
    next hneg =>
      have h := SpellsExponent.negative (.inl rfl) Nat.toDigits_ne_nil (toDigits_digits e.natAbs)
      rwa [hvalue, show -(e.natAbs : Int) = e by omega] at h
    next hpos =>
      have h := SpellsExponent.positive (.inl rfl) (.inr rfl) Nat.toDigits_ne_nil
        (toDigits_digits e.natAbs)
      rwa [hvalue, show (e.natAbs : Int) = e by omega] at h

theorem spellsNumeral_text {n : Numeral} (h : n.WellFormed) : SpellsNumeral n.text n := by
  have hspells := SpellsNumeral.intro h (spellsExponent_exponentText n.exponent)
  rwa [← List.append_assoc, ← List.append_assoc] at hspells

theorem scanPower_append (negative : Bool) {digits rest : List Char} (hne : digits ≠ [])
    (hdigits : ∀ d ∈ digits, d.isDigit) (hrest : EndsDigits rest) :
    scanPower negative (digits ++ rest) =
      .ok (some (if negative then -(digitsValue digits : Int) else digitsValue digits), rest) := by
  simp only [scanPower, scanDigits_append hne hdigits hrest, bind, Except.bind]
  rfl

theorem scanSignedPower_append {digits rest : List Char} (hne : digits ≠ [])
    (hdigits : ∀ d ∈ digits, d.isDigit) (hrest : EndsDigits rest) :
    scanSignedPower (digits ++ rest) = .ok (some (digitsValue digits), rest) := by
  refine Eq.trans ?_ (scanPower_append false hne hdigits hrest)
  obtain ⟨d, digits, rfl⟩ := List.exists_cons_of_ne_nil hne
  have hdigit : d.isDigit := hdigits d List.mem_cons_self
  unfold scanSignedPower
  split
  next heq =>
    cases (List.cons.inj heq).1
    exact absurd hdigit (by decide)
  next heq =>
    cases (List.cons.inj heq).1
    exact absurd hdigit (by decide)
  next => rfl

theorem scanExponent_append {text : List Char} {exponent : Option Int}
    (h : SpellsExponent text exponent) {rest : List Char} (hrest : EndsNumeral rest) :
    scanExponent (text ++ rest) = .ok (exponent, rest) := by
  cases h with
  | none =>
    unfold scanExponent
    split
    next heq => exact absurd rfl (hrest 'e' (by simp [show rest = _ from heq])).2.2.1
    next heq => exact absurd rfl (hrest 'E' (by simp [show rest = _ from heq])).2.2.2
    next => rfl
  | positive hmark hsign hne hdigits =>
    rcases hmark with rfl | rfl <;> rcases hsign with rfl | rfl
    · exact scanSignedPower_append hne hdigits hrest.endsDigits
    · exact scanPower_append false hne hdigits hrest.endsDigits
    · exact scanSignedPower_append hne hdigits hrest.endsDigits
    · exact scanPower_append false hne hdigits hrest.endsDigits
  | negative hmark hne hdigits =>
    rcases hmark with rfl | rfl
    · exact scanPower_append true hne hdigits hrest.endsDigits
    · exact scanPower_append true hne hdigits hrest.endsDigits

theorem SpellsExponent.ends_append {text : List Char} {exponent : Option Int}
    (h : SpellsExponent text exponent) {rest : List Char} (hrest : EndsNumeral rest) :
    EndsDigits (text ++ rest) ∧ ∀ c ∈ (text ++ rest).head?, c ≠ '.' := by
  cases h with
  | none => exact ⟨hrest.endsDigits, fun c hc => (hrest c hc).2.1⟩
  | positive hmark =>
    constructor <;> rintro c ⟨⟩ <;> rcases hmark with rfl | rfl <;> decide
  | negative hmark =>
    constructor <;> rintro c ⟨⟩ <;> rcases hmark with rfl | rfl <;> decide

theorem endsDigits_fractionText {fraction rest : List Char} (hrest : EndsDigits rest) :
    EndsDigits (fractionText fraction ++ rest) := by
  cases fraction with
  | nil => exact hrest
  | cons d digits => rintro c ⟨⟩; rfl

theorem scanMagnitude_append {n : Numeral} (h : n.WellFormed) {exponent : List Char}
    (hexponent : SpellsExponent exponent n.exponent) {rest : List Char}
    (hrest : EndsNumeral rest) :
    scanMagnitude n.negative (n.whole ++ (fractionText n.fraction ++ (exponent ++ rest))) =
      .ok (n, rest) := by
  obtain ⟨hdigits, hpoint⟩ := hexponent.ends_append hrest
  simp only [scanMagnitude,
    scanWhole_append h.whole_ne_nil h.whole_digits h.whole_head (endsDigits_fractionText hdigits),
    scanFraction_append h.fraction_digits hdigits hpoint, scanExponent_append hexponent hrest,
    bind, Except.bind]
  rfl

theorem scanNumber_append {text : List Char} {n : Numeral} (h : SpellsNumeral text n)
    {rest : List Char} (hrest : EndsNumeral rest) : scanNumber (text ++ rest) = .ok (n, rest) := by
  obtain ⟨h, hexponent⟩ := h
  have hmagnitude := scanMagnitude_append h hexponent hrest
  simp only [List.append_assoc]
  cases hsign : n.negative with
  | true =>
    rw [hsign] at hmagnitude
    exact hmagnitude
  | false =>
    rw [hsign] at hmagnitude
    obtain ⟨d, digits, hwhole⟩ := List.exists_cons_of_ne_nil h.whole_ne_nil
    have hdigit : d.isDigit := h.whole_digits d (by simp [hwhole])
    rw [hwhole] at hmagnitude ⊢
    show scanNumber (d :: _) = _
    unfold scanNumber
    split
    next heq =>
      cases (List.cons.inj heq).1
      exact absurd hdigit (by decide)
    next => exact hmagnitude

end Json

end FractalCurve
