import FractalCurve.Json.Token

/-!
# Cutting text into tokens

`tokens` gives the tokens of a text, without the blanks between them. Every
scanner gives back the text behind what it took; the lemmas at the end say that
this text gets shorter.
-/

namespace FractalCurve.Json

open Number (Numeral)

-- ---------------------------------------------------------------------------
-- Words
-- ---------------------------------------------------------------------------

def scanWord : List Char → List Char → Except Fault (List Char)
  | [], rest => .ok rest
  | _ :: _, [] => .error .truncated
  | c :: word, d :: rest => if c = d then scanWord word rest else .error .malformed

-- ---------------------------------------------------------------------------
-- Numbers
-- ---------------------------------------------------------------------------

/-- At least one digit, and the text behind the digits. -/
def scanDigits (text : List Char) : Except Fault (List Char × List Char) :=
  let digits := text.takeWhile Char.isDigit
  if text.isEmpty then .error .truncated
  else if digits.isEmpty then .error .malformed
  else .ok (digits, text.dropWhile Char.isDigit)

/-- A zero leads only a number of one digit. -/
def scanWhole (text : List Char) : Except Fault (List Char × List Char) := do
  let (digits, rest) ← scanDigits text
  if digits.head? = some '0' ∧ 1 < digits.length then .error .malformed
  else return (digits, rest)

def scanFraction : List Char → Except Fault (List Char × List Char)
  | '.' :: rest => scanDigits rest
  | rest => .ok ([], rest)

def digitsValue (digits : List Char) : Nat :=
  digits.foldl (fun n d => 10 * n + (d.toNat - '0'.toNat)) 0

def scanPower (negative : Bool) (text : List Char) : Except Fault (Option Int × List Char) := do
  let (digits, rest) ← scanDigits text
  let size : Int := digitsValue digits
  return (some (if negative then -size else size), rest)

def scanSignedPower : List Char → Except Fault (Option Int × List Char)
  | '-' :: rest => scanPower true rest
  | '+' :: rest => scanPower false rest
  | rest => scanPower false rest

def scanExponent : List Char → Except Fault (Option Int × List Char)
  | 'e' :: rest => scanSignedPower rest
  | 'E' :: rest => scanSignedPower rest
  | rest => .ok (none, rest)

def scanMagnitude (negative : Bool) (text : List Char) : Except Fault (Numeral × List Char) := do
  let (whole, rest) ← scanWhole text
  let (fraction, rest) ← scanFraction rest
  let (exponent, rest) ← scanExponent rest
  return (⟨negative, whole, fraction, exponent⟩, rest)

def scanNumber : List Char → Except Fault (Numeral × List Char)
  | '-' :: rest => scanMagnitude true rest
  | text => scanMagnitude false text

-- ---------------------------------------------------------------------------
-- Strings
-- ---------------------------------------------------------------------------

def hexDigit? (c : Char) : Option Nat :=
  if '0' ≤ c ∧ c ≤ '9' then some (c.toNat - '0'.toNat)
  else if 'a' ≤ c ∧ c ≤ 'f' then some (c.toNat - 'a'.toNat + 10)
  else if 'A' ≤ c ∧ c ≤ 'F' then some (c.toNat - 'A'.toNat + 10)
  else none

def hexCode? (a b c d : Char) : Option Nat := do
  let high := 16 * (← hexDigit? a) + (← hexDigit? b)
  let low := 16 * (← hexDigit? c) + (← hexDigit? d)
  return 256 * high + low

def shortEscape? : Char → Option Char
  | '"' => some '"'
  | '\\' => some '\\'
  | '/' => some '/'
  | 'b' => some '\x08'
  | 'f' => some '\x0c'
  | 'n' => some '\n'
  | 'r' => some '\r'
  | 't' => some '\t'
  | _ => none

/-- The parts of a string up to its closing quote and the text behind it, or
the fault that breaks the string off. -/
structure StringScan where
  parts : List StringPart
  outcome : Except Fault (List Char)

def StringScan.cons (part : StringPart) (scan : StringScan) : StringScan :=
  { scan with parts := part :: scan.parts }

def StringScan.broken (fault : Fault) : StringScan := ⟨[], .error fault⟩

/-- Where fewer than four characters are left for an escape, four bytes of text
may still be there to be found wrong. -/
def shortCodeFault (text : List Char) : Fault :=
  if text.foldl (fun size c => size + c.utf8Size) 0 < 4 then .truncated else .malformed

/-- Scans the text behind the opening quote. Characters below U+0020 may only
stand escaped. -/
def scanString : List Char → StringScan
  | [] => .broken .truncated
  | '"' :: rest => ⟨[], .ok rest⟩
  | '\\' :: 'u' :: a :: b :: c :: d :: rest =>
    match hexCode? a b c d with
    | some unit => (scanString rest).cons (.code unit)
    | none => .broken .malformed
  | '\\' :: 'u' :: rest => .broken (shortCodeFault rest)
  | '\\' :: c :: rest =>
    match shortEscape? c with
    | some c => (scanString rest).cons (.char c)
    | none => .broken .malformed
  | ['\\'] => .broken .truncated
  | c :: rest => if c < ' ' then .broken .malformed else (scanString rest).cons (.char c)

-- ---------------------------------------------------------------------------
-- Tokens
-- ---------------------------------------------------------------------------

def isSpace (c : Char) : Bool := c = ' ' ∨ c = '\t' ∨ c = '\n' ∨ c = '\r'

def wordToken (token : Token) (word rest : List Char) : Token × List Char :=
  match scanWord word rest with
  | .ok rest => (token, rest)
  | .error fault => (.brokenWord fault, [])

def numberToken (text : List Char) : Token × List Char :=
  match scanNumber text with
  | .ok (numeral, rest) => (.number numeral, rest)
  | .error fault => (.brokenNumber fault, [])

def stringToken (text : List Char) : Token × List Char :=
  match scanString text with
  | ⟨parts, .ok rest⟩ => (.string parts, rest)
  | ⟨parts, .error fault⟩ => (.brokenString parts fault, [])

def scanToken (first : Char) (rest : List Char) : Token × List Char :=
  match first with
  | '[' => (.openArray, rest)
  | ']' => (.closeArray, rest)
  | '\x7b' => (.openObject, rest)
  | '\x7d' => (.closeObject, rest)
  | ',' => (.comma, rest)
  | ':' => (.colon, rest)
  | 'n' => wordToken .null ['u', 'l', 'l'] rest
  | 't' => wordToken (.bool true) ['r', 'u', 'e'] rest
  | 'f' => wordToken (.bool false) ['a', 'l', 's', 'e'] rest
  | '"' => stringToken rest
  | c => if c = '-' ∨ c.isDigit then numberToken (c :: rest) else (.stray, [])

def nextToken (text : List Char) : Option (Token × List Char) :=
  match text.dropWhile isSpace with
  | [] => none
  | c :: rest => some (scanToken c rest)

-- ---------------------------------------------------------------------------
-- Every token takes some text
-- ---------------------------------------------------------------------------

theorem bind_eq_ok {ε α β : Type} {x : Except ε α} {f : α → Except ε β} {b : β} :
    x >>= f = .ok b ↔ ∃ a, x = .ok a ∧ f a = .ok b := by
  cases x <;> simp [bind, Except.bind]

theorem scanWord_length {word text rest : List Char} (h : scanWord word text = .ok rest) :
    rest.length ≤ text.length := by
  induction word generalizing text with
  | nil => simp_all [scanWord]
  | cons c word ih =>
    cases text with
    | nil => simp [scanWord] at h
    | cons d text =>
      simp only [scanWord] at h
      split at h
      · exact Nat.le_succ_of_le (ih h)
      · simp at h

theorem scanDigits_length {text digits rest : List Char}
    (h : scanDigits text = .ok (digits, rest)) : rest.length < text.length := by
  have happ := congrArg List.length
    (List.takeWhile_append_dropWhile (p := Char.isDigit) (l := text))
  rw [List.length_append] at happ
  simp only [scanDigits] at h
  split at h
  · simp at h
  · split at h
    · simp at h
    next hne =>
      have hpos := List.length_pos_iff.2 (mt List.isEmpty_iff.2 hne)
      simp only [Except.ok.injEq, Prod.mk.injEq] at h
      rw [← h.2]
      omega

theorem scanWhole_length {text digits rest : List Char}
    (h : scanWhole text = .ok (digits, rest)) : rest.length < text.length := by
  obtain ⟨⟨d, r⟩, hd, h⟩ := bind_eq_ok.1 h
  have := scanDigits_length hd
  simp only at h
  split at h
  · simp at h
  · simp_all [pure, Except.pure]

theorem scanFraction_length {text digits rest : List Char}
    (h : scanFraction text = .ok (digits, rest)) : rest.length ≤ text.length := by
  unfold scanFraction at h
  split at h
  · have := scanDigits_length h; simp; omega
  · simp_all

theorem scanPower_length {negative : Bool} {text rest : List Char} {e : Option Int}
    (h : scanPower negative text = .ok (e, rest)) : rest.length < text.length := by
  obtain ⟨⟨d, r⟩, hd, h⟩ := bind_eq_ok.1 h
  have := scanDigits_length hd
  simp_all [pure, Except.pure]

theorem scanSignedPower_length {text rest : List Char} {e : Option Int}
    (h : scanSignedPower text = .ok (e, rest)) : rest.length < text.length := by
  unfold scanSignedPower at h
  split at h
  · have := scanPower_length h; simp; omega
  · have := scanPower_length h; simp; omega
  · exact scanPower_length h

theorem scanExponent_length {text rest : List Char} {e : Option Int}
    (h : scanExponent text = .ok (e, rest)) : rest.length ≤ text.length := by
  unfold scanExponent at h
  split at h
  · have := scanSignedPower_length h; simp; omega
  · have := scanSignedPower_length h; simp; omega
  · simp_all

theorem scanMagnitude_length {negative : Bool} {text rest : List Char} {n : Numeral}
    (h : scanMagnitude negative text = .ok (n, rest)) : rest.length < text.length := by
  obtain ⟨⟨w, r⟩, hw, h⟩ := bind_eq_ok.1 h
  obtain ⟨⟨f, r₁⟩, hf, h⟩ := bind_eq_ok.1 h
  obtain ⟨⟨e, r₂⟩, he, h⟩ := bind_eq_ok.1 h
  have := scanWhole_length hw
  have := scanFraction_length hf
  have := scanExponent_length he
  simp [pure, Except.pure] at h
  obtain ⟨_, rfl⟩ := h
  omega

theorem scanNumber_length {text rest : List Char} {n : Numeral}
    (h : scanNumber text = .ok (n, rest)) : rest.length < text.length := by
  unfold scanNumber at h
  split at h
  · have := scanMagnitude_length h; simp; omega
  · exact scanMagnitude_length h

theorem scanString_length {text rest : List Char}
    (h : (scanString text).outcome = .ok rest) : rest.length < text.length := by
  fun_induction scanString text <;>
    simp_all [StringScan.broken, StringScan.cons] <;> omega

theorem wordToken_length (token : Token) (word text : List Char) :
    (wordToken token word text).2.length ≤ text.length := by
  unfold wordToken
  split
  next h => exact scanWord_length h
  next => simp

theorem numberToken_length (c : Char) (text : List Char) :
    (numberToken (c :: text)).2.length ≤ text.length := by
  unfold numberToken
  split
  next h => exact Nat.le_of_lt_succ (scanNumber_length h)
  next => simp

theorem stringToken_length (text : List Char) : (stringToken text).2.length ≤ text.length := by
  unfold stringToken
  split
  next h => exact Nat.le_of_lt (scanString_length (by rw [h]))
  next => simp

theorem scanToken_length (first : Char) (text : List Char) :
    (scanToken first text).2.length ≤ text.length := by
  unfold scanToken
  split <;> try exact Nat.le_refl _
  · exact wordToken_length ..
  · exact wordToken_length ..
  · exact wordToken_length ..
  · exact stringToken_length _
  · split
    · exact numberToken_length ..
    · simp

theorem nextToken_length {text rest : List Char} {token : Token}
    (h : nextToken text = some (token, rest)) : rest.length < text.length := by
  unfold nextToken at h
  split at h
  · simp at h
  next c tail hdrop =>
    have hle := (List.dropWhile_sublist isSpace (l := text)).length_le
    have htok := scanToken_length c tail
    simp only [Option.some.injEq] at h
    rw [h] at htok
    simp_all
    omega

def tokens (text : List Char) : List Token :=
  match _h : nextToken text with
  | none => []
  | some (token, rest) => token :: tokens rest
termination_by text.length
decreasing_by exact nextToken_length _h

end FractalCurve.Json
