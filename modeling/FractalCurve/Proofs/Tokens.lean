import FractalCurve.Json.Reader
import FractalCurve.Proofs.Spelling

/-!
# The tokens of written values

`Json.written` lists the tokens of a value. `tokens_compact` and
`tokens_pretty`: they are what the value's text is cut into, since that text,
with its strings escaped and on one line or on indented ones, is among those
that spell them.
-/

namespace FractalCurve.Json

open Number

-- ---------------------------------------------------------------------------
-- Strings
-- ---------------------------------------------------------------------------

/-- What is scanned for a character: the characters below U+0020 that have no
short escape are written as codes. -/
def stringPart (c : Char) : StringPart :=
  if c < ' ' ∧ c ∉ ['\x08', '\x0c', '\n', '\r', '\t'] then .code c.toNat else .char c

theorem hexCode?_of_lt {n : Nat} (h : n < 32) :
    hexCode? '0' '0' (Nat.digitChar (n / 16)) (Nat.digitChar (n % 16)) = some n := by
  revert n
  decide

theorem spellsString_escaped (c : Char) {text : List Char} {parts : List StringPart}
    (h : SpellsString text parts) : SpellsString (escaped c ++ text) (stringPart c :: parts) := by
  unfold escaped
  split
  -- The seven short escapes come first.
  · exact .short rfl h
  · exact .short rfl h
  · exact .short rfl h
  · exact .short rfl h
  · exact .short rfl h
  · exact .short rfl h
  · exact .short rfl h
  next hquote hbackslash h₁ h₂ h₃ h₄ h₅ =>
    split
    next hlt =>
      have hcode : stringPart c = .code c.toNat := by
        simp_all [stringPart]
      rw [hcode]
      exact .code (hexCode?_of_lt hlt) h
    next hge =>
      have hchar : stringPart c = .char c := by simp [stringPart, hge]
      rw [hchar]
      exact .plain hge hquote hbackslash h

theorem lexeme_stringText (s : List Char) : Lexeme (stringText s) (.string (s.map stringPart)) := by
  refine .string ?_
  induction s with
  | nil => exact .nil
  | cons c s ih => exact spellsString_escaped c ih

theorem characters_stringPart (ending : Except Fault Unit) (c : Char) (parts : List StringPart) :
    characters ending (stringPart c :: parts) = (characters ending parts).map (c :: ·) := by
  unfold stringPart
  split
  next h =>
    have hsize : c.toNat < 32 := h.1
    have hhigh : isHighSurrogate c.toNat = false := decide_eq_false (by omega)
    have hlow : isLowSurrogate c.toNat = false := decide_eq_false (by omega)
    rw [characters.eq_def]
    simp only [hhigh, hlow, Bool.false_eq_true, if_false, Char.ofNat_toNat]
    rfl
  · rfl

theorem closedString_map_stringPart (s : List Char) :
    closedString (s.map stringPart) = .ok s := by
  unfold closedString
  induction s with
  | nil => rfl
  | cons c s ih =>
    rw [List.map_cons, characters_stringPart, ih]
    rfl

-- ---------------------------------------------------------------------------
-- Values
-- ---------------------------------------------------------------------------

mutual
/-- The tokens of a value. -/
def written : Json → List Token
  | .null => [.null]
  | .bool b => [.bool b]
  | .number n => [.number n]
  | .string s => [.string (s.map stringPart)]
  | .array items => .openArray :: (writtenItems true items ++ [.closeArray])
  | .object members => .openObject :: (writtenMembers true members ++ [.closeObject])

def writtenItems (first : Bool) : List Json → List Token
  | [] => []
  | item :: items => lead first ++ (item.written ++ writtenItems false items)

def writtenMembers (first : Bool) : List (List Char × Json) → List Token
  | [] => []
  | (name, value) :: members =>
    lead first ++ .string (name.map stringPart) :: .colon ::
      (value.written ++ writtenMembers false members)
end

/-- All numerals in a value are well-formed. -/
inductive WellFormed : Json → Prop
  | null : WellFormed .null
  | bool (b : Bool) : WellFormed (.bool b)
  | number {n : Numeral} (h : n.WellFormed) : WellFormed (.number n)
  | string (s : List Char) : WellFormed (.string s)
  | array {items : List Json} (h : ∀ item ∈ items, WellFormed item) : WellFormed (.array items)
  | object {members : List (List Char × Json)} (h : ∀ m ∈ members, WellFormed m.2) :
    WellFormed (.object members)

theorem writtenItems_eq (first : Bool) (items : List Json) :
    writtenItems first items = separated first (items.map written) := by
  induction items generalizing first with
  | nil => rfl
  | cons item items ih => rw [writtenItems, ih, List.map_cons, separated]

/-- A member as it is written. -/
def writtenMember (m : List Char × Json) : Member := ⟨m.1.map stringPart, m.2.written⟩

theorem writtenMembers_eq (first : Bool) (members : List (List Char × Json)) :
    writtenMembers first members =
      separated first ((members.map writtenMember).map Member.tokens) := by
  induction members generalizing first with
  | nil => rfl
  | cons m members ih =>
    rw [writtenMembers, ih, List.map_cons, List.map_cons, separated]
    rfl

theorem written_array (items : List Json) :
    (Json.array items).written = arrayTokens (items.map written) := by
  rw [written, writtenItems_eq, arrayTokens]

theorem written_object (members : List (List Char × Json)) :
    (Json.object members).written = objectTokens (members.map writtenMember) := by
  rw [written, writtenMembers_eq, objectTokens]

theorem isValue_written : ∀ j : Json, IsValue j.written
  | .null => .null
  | .bool b => .bool b
  | .number n => .number n
  | .string _ => .string _
  | .array items => by
    rw [written_array]
    exact .array (List.forall_mem_map.2 fun item _ => item.isValue_written)
  | .object members => by
    rw [written_object]
    refine .object (List.forall_mem_map.2 fun m hm => ?_)
    have hsize : sizeOf m.2 < sizeOf members := by
      have := List.sizeOf_lt_of_mem hm
      grind [Prod.mk.sizeOf_spec]
    exact m.2.isValue_written

-- ---------------------------------------------------------------------------
-- Texts
-- ---------------------------------------------------------------------------

theorem isSpace_newline (depth : Nat) : ∀ c ∈ newline depth, isSpace c := by
  refine List.forall_mem_cons.2 ⟨rfl, fun c hc => ?_⟩
  rw [List.eq_of_mem_replicate hc]
  rfl

/-- Texts in a row with a comma between them, however a writer lays them out. -/
theorem spells_separated {α : Type} {text : α → List Char} {write : α → List Token}
    {join : List α → List Char} (hnil : join [] = []) (hone : ∀ a, join [a] = text a)
    (hcons : ∀ a b l, join (a :: b :: l) = text a ++ ',' :: join (b :: l)) {l : List α}
    (h : ∀ a ∈ l, Spells (text a) (write a)) : Spells (join l) (separated true (l.map write)) := by
  induction l with
  | nil => exact hnil ▸ .nil (List.forall_mem_nil _)
  | cons a l ih =>
    obtain ⟨ha, hl⟩ := List.forall_mem_cons.1 h
    cases l with
    | nil => simpa [separated, lead, hone] using ha
    | cons b l =>
      rw [hcons]
      exact ha.append (Lexeme.comma.spells_append (ih hl))

theorem spells_compactItems {items : List Json}
    (h : ∀ item ∈ items, Spells item.compact item.written) :
    Spells (compactItems items) (writtenItems true items) := by
  rw [writtenItems_eq]
  exact spells_separated rfl (fun _ => rfl) (fun _ _ _ => rfl) h

theorem spells_compactMembers {members : List (List Char × Json)}
    (h : ∀ m ∈ members, Spells m.2.compact m.2.written) :
    Spells (compactMembers members) (writtenMembers true members) := by
  rw [writtenMembers_eq, List.map_map]
  refine spells_separated rfl (fun _ => rfl) (fun _ _ _ => by simp [compactMembers]) fun m hm => ?_
  exact (lexeme_stringText m.1).spells_append (Lexeme.colon.spells_append (h m hm))

theorem spells_prettyItems {depth : Nat} {items : List Json}
    (h : ∀ item ∈ items, Spells (item.prettyAt depth) item.written) :
    Spells (prettyItems depth items) (writtenItems true items) := by
  rw [writtenItems_eq]
  refine spells_separated rfl (fun _ => rfl) (fun _ _ _ => rfl) fun item hitem => ?_
  exact (h item hitem).blanks_append (isSpace_newline depth)

theorem spells_prettyMembers {depth : Nat} {members : List (List Char × Json)}
    (h : ∀ m ∈ members, Spells (m.2.prettyAt depth) m.2.written) :
    Spells (prettyMembers depth members) (writtenMembers true members) := by
  rw [writtenMembers_eq, List.map_map]
  refine spells_separated rfl (fun _ => rfl) (fun _ _ _ => by simp [prettyMembers]) fun m hm => ?_
  have hblank : ∀ c ∈ [' '], isSpace c := List.forall_mem_singleton.2 rfl
  have hcolon := Lexeme.colon.spells_append ((h m hm).blanks_append hblank)
  have hline := ((lexeme_stringText m.1).spells_append hcolon).blanks_append (isSpace_newline depth)
  rwa [← List.append_assoc] at hline

theorem WellFormed.spells_compact {j : Json} (h : j.WellFormed) : Spells j.compact j.written := by
  induction h with
  | null => exact Lexeme.null.spells
  | bool b => exact (Lexeme.bool b).spells
  | number hn => exact (Lexeme.number (spellsNumeral_text hn)).spells
  | string s => exact (lexeme_stringText s).spells
  | array _ ih =>
    have hbody := (spells_compactItems ih).append Lexeme.closeArray.spells
    exact Lexeme.openArray.spells_append hbody
  | object _ ih =>
    have hbody := (spells_compactMembers ih).append Lexeme.closeObject.spells
    exact Lexeme.openObject.spells_append hbody

theorem WellFormed.spells_prettyAt {j : Json} (h : j.WellFormed) (depth : Nat) :
    Spells (j.prettyAt depth) j.written := by
  induction h generalizing depth with
  | null => exact Lexeme.null.spells
  | bool b => exact (Lexeme.bool b).spells
  | number hn => exact (Lexeme.number (spellsNumeral_text hn)).spells
  | string s => exact (lexeme_stringText s).spells
  | @array items _ ih =>
    have hclose := Lexeme.closeArray.spells
    cases items with
    | nil => exact Lexeme.openArray.spells_append hclose
    | cons item items =>
      have hitems := spells_prettyItems fun item hm => ih item hm (depth + 1)
      have hbody := hitems.append (hclose.blanks_append (isSpace_newline depth))
      rw [prettyAt]
      · simpa [written] using Lexeme.openArray.spells_append hbody
      · simp
  | @object members _ ih =>
    have hclose := Lexeme.closeObject.spells
    cases members with
    | nil => exact Lexeme.openObject.spells_append hclose
    | cons m members =>
      have hmembers := spells_prettyMembers fun m hm => ih m hm (depth + 1)
      have hbody := hmembers.append (hclose.blanks_append (isSpace_newline depth))
      rw [prettyAt]
      · simpa [written] using Lexeme.openObject.spells_append hbody
      · simp

theorem WellFormed.spells_pretty {j : Json} (h : j.WellFormed) : Spells j.pretty j.written :=
  h.spells_prettyAt 0

theorem tokens_compact {j : Json} (h : j.WellFormed) : tokens j.compact = j.written :=
  tokens_of_spells h.spells_compact j.isValue_written

theorem tokens_pretty {j : Json} (h : j.WellFormed) : tokens j.pretty = j.written :=
  tokens_of_spells h.spells_pretty j.isValue_written

end FractalCurve.Json
