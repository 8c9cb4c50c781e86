import FractalCurve.Json.Scan
import FractalCurve.Json.Text
import FractalCurve.Proofs.Numerals
import Mathlib.Data.List.Chain

/-!
# JSON texts

The grammar of JSON in three layers. `Lexeme` says which texts spell a token,
`Spells` which texts spell a sequence of tokens, with blanks wherever they
please, and `IsValue` which sequences of tokens are a value.

`tokens_of_spells`: a text that spells a value is cut into the tokens it
spells. Without the value a text might be cut otherwise, since nothing keeps
two numbers in a row apart.
-/

namespace FractalCurve.Json

open Number (Numeral)

-- ---------------------------------------------------------------------------
-- One token
-- ---------------------------------------------------------------------------

theorem tokens_nil : tokens [] = [] := by
  unfold tokens
  rfl

theorem tokens_of_nextToken {text rest : List Char} {t : Token}
    (h : nextToken text = some (t, rest)) : tokens text = t :: tokens rest := by
  rw [tokens]
  split
  next hnone => cases h.symm.trans hnone
  next hsome => cases h.symm.trans hsome; rfl

theorem tokens_space {c : Char} (hc : isSpace c) (rest : List Char) :
    tokens (c :: rest) = tokens rest := by
  have hnext : nextToken (c :: rest) = nextToken rest := by
    unfold nextToken
    rw [List.dropWhile_cons_of_pos hc]
  rw [tokens, tokens]
  split <;> split <;> simp_all

theorem tokens_blanks {blanks : List Char} (h : ∀ c ∈ blanks, isSpace c) (rest : List Char) :
    tokens (blanks ++ rest) = tokens rest := by
  induction blanks with
  | nil => rfl
  | cons c blanks ih =>
    obtain ⟨hc, hblanks⟩ := List.forall_mem_cons.1 h
    exact (tokens_space hc _).trans (ih hblanks)

theorem tokens_scanToken {c : Char} (hc : isSpace c = false) (rest : List Char) :
    tokens (c :: rest) = (scanToken c rest).1 :: tokens (scanToken c rest).2 := by
  refine tokens_of_nextToken ?_
  unfold nextToken
  rw [List.dropWhile_cons_of_neg (by simp [hc])]

-- ---------------------------------------------------------------------------
-- Strings
-- ---------------------------------------------------------------------------

/-- The texts between the quotes of a string, and the parts they consist of. A
character stands for itself unless it is a quote, a backslash or below
U+0020. -/
inductive SpellsString : List Char → List StringPart → Prop
  | nil : SpellsString [] []
  | plain {c : Char} {text : List Char} {parts : List StringPart} (hc : ¬ c < ' ')
      (hquote : c ≠ '"') (hbackslash : c ≠ '\\') (h : SpellsString text parts) :
      SpellsString (c :: text) (.char c :: parts)
  | short {e c : Char} {text : List Char} {parts : List StringPart} (he : shortEscape? e = some c)
      (h : SpellsString text parts) : SpellsString ('\\' :: e :: text) (.char c :: parts)
  | code {a b c d : Char} {unit : Nat} {text : List Char} {parts : List StringPart}
      (hunit : hexCode? a b c d = some unit) (h : SpellsString text parts) :
      SpellsString ('\\' :: 'u' :: a :: b :: c :: d :: text) (.code unit :: parts)

theorem scanString_plain {c : Char} (hc : ¬ c < ' ') (hquote : c ≠ '"') (hbackslash : c ≠ '\\')
    (rest : List Char) : scanString (c :: rest) = (scanString rest).cons (.char c) := by
  rw [scanString]
  · rw [if_neg hc]
  · exact hquote
  · exact fun _ _ _ _ _ h _ => hbackslash h
  · exact fun _ h _ => hbackslash h
  · exact fun _ _ h _ => hbackslash h
  · exact fun h _ => hbackslash h

theorem scanString_short {e c : Char} (he : shortEscape? e = some c) (rest : List Char) :
    scanString ('\\' :: e :: rest) = (scanString rest).cons (.char c) := by
  have hu : e ≠ 'u' := by
    rintro rfl
    cases he
  rw [scanString]
  · simp only [he]
  · exact fun _ _ _ _ _ h _ => hu h
  · exact fun h => hu h

theorem scanString_append {text : List Char} {parts : List StringPart}
    (h : SpellsString text parts) (rest : List Char) :
    scanString (text ++ '"' :: rest) = ⟨parts, .ok rest⟩ := by
  induction h with
  | nil => rfl
  | plain hc hquote hbackslash _ ih =>
    rw [List.cons_append, scanString_plain hc hquote hbackslash, ih]
    rfl
  | short he _ ih =>
    rw [List.cons_append, List.cons_append, scanString_short he, ih]
    rfl
  | code hunit _ ih =>
    simp only [List.cons_append, scanString, hunit, ih]
    rfl

-- ---------------------------------------------------------------------------
-- Numbers
-- ---------------------------------------------------------------------------

theorem numeralText_cons {text : List Char} {n : Numeral} (h : SpellsNumeral text n) :
    ∃ c tail, text = c :: tail ∧ (c = '-' ∨ c.isDigit) := by
  obtain ⟨h, -⟩ := h
  obtain ⟨d, digits, hwhole⟩ := List.exists_cons_of_ne_nil h.whole_ne_nil
  cases hsign : n.negative with
  | true => exact ⟨'-', _, rfl, .inl rfl⟩
  | false =>
    refine ⟨d, _, by rw [hwhole]; rfl, .inr ?_⟩
    exact h.whole_digits d (by simp [hwhole])

theorem scanToken_number {c : Char} (hc : c = '-' ∨ c.isDigit) (rest : List Char) :
    scanToken c rest = numberToken (c :: rest) := by
  unfold scanToken
  split <;> first | exact absurd hc (by decide) | exact if_pos hc

theorem isSpace_number {c : Char} (hc : c = '-' ∨ c.isDigit) : isSpace c = false := by
  refine decide_eq_false ?_
  rintro (rfl | rfl | rfl | rfl) <;> exact absurd hc (by decide)

theorem tokens_numeral {text : List Char} {n : Numeral} (h : SpellsNumeral text n)
    {rest : List Char} (hrest : EndsNumeral rest) :
    tokens (text ++ rest) = .number n :: tokens rest := by
  have hscan := scanNumber_append h hrest
  obtain ⟨c, tail, rfl, hc⟩ := numeralText_cons h
  rw [List.cons_append] at hscan ⊢
  rw [tokens_scanToken (isSpace_number hc), scanToken_number hc, numberToken, hscan]

-- ---------------------------------------------------------------------------
-- Texts
-- ---------------------------------------------------------------------------

/-- The texts of a token. -/
inductive Lexeme : List Char → Token → Prop
  | openArray : Lexeme ['['] .openArray
  | closeArray : Lexeme [']'] .closeArray
  | openObject : Lexeme ['\x7b'] .openObject
  | closeObject : Lexeme ['\x7d'] .closeObject
  | comma : Lexeme [','] .comma
  | colon : Lexeme [':'] .colon
  | null : Lexeme nullText .null
  | bool (b : Bool) : Lexeme (boolText b) (.bool b)
  | number {text : List Char} {n : Numeral} (h : SpellsNumeral text n) : Lexeme text (.number n)
  | string {text : List Char} {parts : List StringPart} (h : SpellsString text parts) :
    Lexeme ('"' :: (text ++ ['"'])) (.string parts)

/-- The texts of a sequence of tokens, with blanks in front of, between and
behind them. -/
inductive Spells : List Char → List Token → Prop
  | nil {blanks : List Char} (h : ∀ c ∈ blanks, isSpace c) : Spells blanks []
  | token {blanks lexeme rest : List Char} {t : Token} {ts : List Token}
      (h : ∀ c ∈ blanks, isSpace c) (ht : Lexeme lexeme t) (hrest : Spells rest ts) :
      Spells (blanks ++ (lexeme ++ rest)) (t :: ts)

def Token.isNumber : Token → Bool
  | .number _ => true
  | _ => false

/-- No number follows a number. -/
def Apart (ts : List Token) : Prop := ts.IsChain fun t u => ¬ (t.isNumber ∧ u.isNumber)

/-- Only behind a number does it matter how the text goes on. -/
theorem Lexeme.tokens_append {text : List Char} {t : Token} (h : Lexeme text t)
    {rest : List Char} (hrest : t.isNumber → EndsNumeral rest) :
    tokens (text ++ rest) = t :: tokens rest := by
  cases h with
  | bool b => cases b <;> exact tokens_scanToken rfl _
  | number h => exact tokens_numeral h (hrest rfl)
  | @string text parts h =>
    have hscan : scanToken '"' (text ++ '"' :: rest) = (.string parts, rest) := by
      simp only [scanToken, stringToken, scanString_append h]
    have htokens := tokens_scanToken (c := '"') rfl (text ++ '"' :: rest)
    rw [hscan] at htokens
    simpa using htokens
  | _ => exact tokens_scanToken rfl _

theorem endsNumeral_space {c : Char} (hc : isSpace c) (rest : List Char) :
    EndsNumeral (c :: rest) := by
  refine endsNumeral_cons ?_
  rcases of_decide_eq_true hc with rfl | rfl | rfl | rfl <;> decide

theorem Lexeme.endsNumeral_append {text : List Char} {t : Token} (h : Lexeme text t)
    (ht : t.isNumber = false) (rest : List Char) : EndsNumeral (text ++ rest) := by
  cases h with
  | number h => contradiction
  | bool b => cases b <;> exact endsNumeral_cons (by decide)
  | _ => exact endsNumeral_cons (by decide)

theorem Spells.endsNumeral {text : List Char} {ts : List Token} (h : Spells text ts)
    (hts : ∀ t ∈ ts.head?, t.isNumber = false) : EndsNumeral text := by
  cases h with
  | nil h =>
    cases text with
    | nil => exact endsNumeral_nil
    | cons c blanks => exact endsNumeral_space (h c List.mem_cons_self) _
  | @token blanks lexeme rest t ts h ht hrest =>
    cases blanks with
    | nil => exact ht.endsNumeral_append (hts t rfl) rest
    | cons c blanks => exact endsNumeral_space (h c List.mem_cons_self) _

theorem tokens_of_spells_apart {text : List Char} {ts : List Token} (h : Spells text ts)
    (hts : Apart ts) : tokens text = ts := by
  induction h with
  | @nil blanks h =>
    have htokens := tokens_blanks h []
    rwa [List.append_nil, tokens_nil] at htokens
  | @token blanks lexeme rest t ts h ht hrest ih =>
    obtain ⟨hhead, hts⟩ := List.isChain_cons.1 hts
    rw [tokens_blanks h, ht.tokens_append, ih hts]
    intro hnumber
    refine hrest.endsNumeral fun u hu => ?_
    exact Bool.eq_false_iff.2 fun hfollows => hhead u hu ⟨hnumber, hfollows⟩

theorem Spells.blanks_append {blanks text : List Char} {ts : List Token} (h : Spells text ts)
    (hblanks : ∀ c ∈ blanks, isSpace c) : Spells (blanks ++ text) ts := by
  cases h with
  | nil h => exact .nil (List.forall_mem_append.2 ⟨hblanks, h⟩)
  | token h ht hrest =>
    rw [← List.append_assoc]
    exact .token (List.forall_mem_append.2 ⟨hblanks, h⟩) ht hrest

theorem Spells.append {u v : List Char} {ts us : List Token} (hu : Spells u ts)
    (hv : Spells v us) : Spells (u ++ v) (ts ++ us) := by
  induction hu with
  | nil h => exact hv.blanks_append h
  | token h ht _ ih =>
    simp only [List.append_assoc]
    exact .token h ht ih

theorem Lexeme.spells_append {lexeme text : List Char} {t : Token} {ts : List Token}
    (h : Lexeme lexeme t) (htext : Spells text ts) : Spells (lexeme ++ text) (t :: ts) :=
  .token (List.forall_mem_nil _) h htext

theorem Lexeme.spells {text : List Char} {t : Token} (h : Lexeme text t) : Spells text [t] := by
  have hspells := h.spells_append (.nil (List.forall_mem_nil _))
  rwa [List.append_nil] at hspells

-- ---------------------------------------------------------------------------
-- Values
-- ---------------------------------------------------------------------------

/-- The comma in front of every item or member but the first. -/
def lead (first : Bool) : List Token := if first then [] else [.comma]

def separated (first : Bool) : List (List Token) → List Token
  | [] => []
  | ts :: tss => lead first ++ (ts ++ separated false tss)

structure Member where
  name : List StringPart
  value : List Token
deriving DecidableEq

def Member.tokens (m : Member) : List Token := .string m.name :: .colon :: m.value

def arrayTokens (items : List (List Token)) : List Token :=
  .openArray :: (separated true items ++ [.closeArray])

def objectTokens (members : List Member) : List Token :=
  .openObject :: (separated true (members.map Member.tokens) ++ [.closeObject])

/-- The sequences of tokens that make up one value. -/
inductive IsValue : List Token → Prop
  | null : IsValue [.null]
  | bool (b : Bool) : IsValue [.bool b]
  | number (n : Numeral) : IsValue [.number n]
  | string (parts : List StringPart) : IsValue [.string parts]
  | array {items : List (List Token)} (h : ∀ ts ∈ items, IsValue ts) : IsValue (arrayTokens items)
  | object {members : List Member} (h : ∀ m ∈ members, IsValue m.value) :
    IsValue (objectTokens members)

/-- No value begins with a token that ends or separates values. -/
theorem IsValue.exists_cons {ts : List Token} (h : IsValue ts) :
    ∃ t tail, ts = t :: tail ∧ t ≠ .closeArray ∧ t ≠ .comma := by
  cases h <;> simp [arrayTokens, objectTokens]

theorem IsValue.ne_nil {ts : List Token} (h : IsValue ts) : ts ≠ [] := by
  obtain ⟨t, tail, rfl, -⟩ := h.exists_cons
  exact List.cons_ne_nil _ _

theorem length_le_separated (first : Bool) {tss : List (List Token)} (h : ∀ ts ∈ tss, ts ≠ []) :
    tss.length ≤ (separated first tss).length := by
  induction tss generalizing first with
  | nil => exact Nat.zero_le _
  | cons ts tss ih =>
    obtain ⟨hts, htss⟩ := List.forall_mem_cons.1 h
    have hpos := List.length_pos_iff.2 hts
    have := ih false htss
    simp only [separated, List.length_append, List.length_cons]
    omega

theorem Apart.cons {t : Token} {ts : List Token} (ht : t.isNumber = false) (h : Apart ts) :
    Apart (t :: ts) :=
  List.isChain_cons.2 ⟨fun _ _ hnumbers => Bool.false_ne_true (ht.symm.trans hnumbers.1), h⟩

theorem Apart.append {ts us : List Token} (hts : Apart ts) (hus : Apart us)
    (h : ∀ u ∈ us.head?, u.isNumber = false) : Apart (ts ++ us) :=
  List.isChain_append.2 ⟨hts, hus, fun _ _ u hu hnumbers =>
    Bool.false_ne_true ((h u hu).symm.trans hnumbers.2)⟩

theorem apart_separated {tss : List (List Token)} (h : ∀ ts ∈ tss, Apart ts) {close : Token}
    (hclose : close.isNumber = false) :
    Apart (separated false tss ++ [close]) ∧
      ∀ t ∈ (separated false tss ++ [close]).head?, t.isNumber = false := by
  induction tss with
  | nil => exact ⟨List.isChain_singleton close, by rintro t ⟨⟩; exact hclose⟩
  | cons ts tss ih =>
    obtain ⟨hts, htss⟩ := List.forall_mem_cons.1 h
    obtain ⟨hapart, hhead⟩ := ih htss
    rw [separated, List.append_assoc, List.append_assoc]
    exact ⟨.cons rfl (hts.append hapart hhead), by rintro t ⟨⟩; rfl⟩

theorem apart_enclosed {tss : List (List Token)} (h : ∀ ts ∈ tss, Apart ts) {opening close : Token}
    (hopening : opening.isNumber = false) (hclose : close.isNumber = false) :
    Apart (opening :: (separated true tss ++ [close])) := by
  refine .cons hopening ?_
  cases tss with
  | nil => exact List.isChain_singleton close
  | cons ts tss =>
    obtain ⟨hts, htss⟩ := List.forall_mem_cons.1 h
    obtain ⟨hapart, hhead⟩ := apart_separated htss hclose
    rw [separated, List.append_assoc, List.append_assoc]
    exact hts.append hapart hhead

theorem IsValue.apart {ts : List Token} (h : IsValue ts) : Apart ts := by
  induction h with
  | array _ ih => exact apart_enclosed ih rfl rfl
  | object _ ih =>
    refine apart_enclosed (fun ts hts => ?_) rfl rfl
    obtain ⟨m, hm, rfl⟩ := List.mem_map.1 hts
    exact .cons rfl (.cons rfl (ih m hm))
  | _ => exact List.isChain_singleton _

theorem tokens_of_spells {text : List Char} {ts : List Token} (h : Spells text ts)
    (hts : IsValue ts) : tokens text = ts :=
  tokens_of_spells_apart h hts.apart

end FractalCurve.Json
