import FractalCurve.Catalog.Standard
import FractalCurve.Document.Catalog
import FractalCurve.Proofs.Reading

/-!
# Catalogs as documents

Reading a catalog's own document gives the catalog again, each float put
through its numeral: `ofDocument_toDocument`. All the rest is kept as it is,
whatever characters the texts hold.

`document_round_trip`: such a document is unsuitable if one of the floats is
infinite or NaN, and readable otherwise; where the numerals read back as the
floats they were written for, the catalog is the same.
-/

namespace FractalCurve

open Json

-- ---------------------------------------------------------------------------
-- Rules
-- ---------------------------------------------------------------------------

namespace Rules

def ruleMember (e : Char × Word) : List Char × Json := ([e.1], .string e.2)

/-- An object with these rules for its members. -/
def objectOf (entries : List (Char × Word)) : Json := .object (entries.map ruleMember)

theorem wellFormed_objectOf (entries : List (Char × Word)) : (objectOf entries).WellFormed := by
  refine .object fun m hm => ?_
  obtain ⟨e, -, rfl⟩ := List.mem_map.1 hm
  exact .string e.2

theorem membersWithin_append (rules : Rules) (entries : List (Char × Word)) {bound : Nat}
    (hbound : entries.length < bound) (first : Bool) (rest : List Token) :
    membersWithin bound first rules
        (separated first (((entries.map ruleMember).map writtenMember).map Member.tokens) ++
          .closeObject :: rest) =
      .ok (rules.insertAll entries, rest) := by
  induction entries generalizing rules bound first with
  | nil =>
    obtain ⟨bound, rfl⟩ := Nat.exists_eq_add_one_of_ne_zero (Nat.ne_zero_of_lt hbound)
    rfl
  | cons e entries ih =>
    obtain ⟨bound, rfl⟩ := Nat.exists_eq_add_one_of_ne_zero (Nat.ne_zero_of_lt hbound)
    obtain ⟨symbol, production⟩ := e
    have htail := ih (rules.insert symbol production) (Nat.lt_of_succ_lt_succ hbound) false
    simp only [List.map_cons, separated, List.append_assoc]
    rw [membersWithin, nextMember_append first (closedString_map_stringPart [symbol])]
    simp only [bind, Except.bind, require, if_true, writtenMember, ruleMember,
      yields_string production _, Except.map]
    exact htail

/-- A later rule replaces an earlier one for the same symbol. -/
theorem yields_objectOf (entries : List (Char × Word)) :
    reader.Yields (objectOf entries) (.ok (SymbolMap.ofList entries)) := by
  intro rest
  have hbound := length_le_members true ((entries.map ruleMember).map writtenMember)
  rw [List.length_map, List.length_map] at hbound
  rw [objectOf, written_object, objectTokens]
  simp only [List.cons_append, List.append_assoc, List.nil_append, reader]
  refine membersWithin_append SymbolMap.empty entries ?_ true rest
  simp only [List.length_append, List.length_cons]
  omega

theorem yields_toJson (rules : Rules) : reader.Yields rules.toJson (.ok rules) := by
  have hread := yields_objectOf rules.entries
  rwa [SymbolMap.ofList_entries] at hread

end Rules

-- ---------------------------------------------------------------------------
-- Grammars, curves and catalogs
-- ---------------------------------------------------------------------------

namespace Grammar

theorem wellFormed_toJson (g : Grammar) : g.toJson.WellFormed := by
  refine wellFormed_ofMembers ?_
  simp only [List.forall_mem_cons]
  exact ⟨.string _, Rules.wellFormed_objectOf _, wellFormed_ofFloat _, wellFormed_ofFloat _,
    .bool _, .string _, by simp⟩

/-- A grammar after its floats have been written and read. -/
def reread (g : Grammar) : Except Fault Grammar := do
  let angle ← rereadFloat g.angle
  let stepLength ← rereadFloat g.stepLength
  return { g with angle, stepLength }

theorem yields_toJson (g : Grammar) : record.reader.Yields g.toJson g.reread := by
  have hmembers : record.Collects .blank
      [ writtenMember ("axiom".toList, .string g.start),
        writtenMember ("rules".toList, g.rules.toJson),
        writtenMember ("angle".toList, .ofFloat g.angle),
        writtenMember ("step_length".toList, .ofFloat g.stepLength),
        writtenMember ("closed_path".toList, .bool g.closed),
        writtenMember ("draw_symbols".toList, .string g.drawSymbols) ]
      (do
        let angle ← rereadFloat g.angle
        let stepLength ← rereadFloat g.stepLength
        .ok ⟨some g.start, some g.rules, some angle, some stepLength, some g.closed,
          some g.drawSymbols⟩) := by
    refine .field rfl rfl (yields_string _) ?_
    refine .field rfl rfl (Rules.yields_toJson _) ?_
    refine .field_bind rfl rfl (yields_float32 _) fun angle => ?_
    refine .field_bind rfl rfl (yields_float32 _) fun stepLength => ?_
    refine .field rfl rfl (yields_bool _) ?_
    refine .field rfl rfl (yields_string _) ?_
    exact .nil _
  refine yields_record hmembers ?_
  unfold reread
  cases rereadFloat g.angle with
  | error fault => rfl
  | ok angle => cases rereadFloat g.stepLength <;> rfl

end Grammar

namespace Curve

theorem toJson_eq (c : Curve) : c.toJson = ofMembers
    [ ("grammar", c.grammar.toJson),
      ("max_iterations", .ofNat c.maxIterations.toNat),
      ("title", .ofString c.title),
      ("url", c.url.elim .null .ofString),
      ("iterations", .ofNat c.iterations.toNat) ] := by
  unfold toJson
  cases c.url <;> rfl

theorem wellFormed_toJson (c : Curve) : c.toJson.WellFormed := by
  have hurl : (c.url.elim .null Json.ofString).WellFormed := by
    cases c.url with
    | none => exact .null
    | some url => exact .string _
  rw [toJson_eq]
  refine wellFormed_ofMembers ?_
  simp only [List.forall_mem_cons]
  exact ⟨c.grammar.wellFormed_toJson, wellFormed_ofNat _, .string _, hurl, wellFormed_ofNat _,
    by simp⟩

theorem yields_url (url : Option String) :
    (Reader.optional Reader.string).Yields (url.elim .null .ofString)
      (.ok (url.map String.toList)) := by
  cases url with
  | none => exact yields_none
  | some url => exact (yields_string _).optional (by simp)

theorem map_ofList_toList (url : Option String) :
    (url.map String.toList).map String.ofList = url := by
  cases url with
  | none => rfl
  | some url => exact congrArg some String.ofList_toList

/-- A curve after the floats of its grammar have been written and read. -/
def reread (c : Curve) : Except Fault Curve := do
  let grammar ← c.grammar.reread
  return { c with grammar }

theorem yields_toJson (c : Curve) : record.reader.Yields c.toJson c.reread := by
  have hmembers : record.Collects .blank
      [ writtenMember ("grammar".toList, c.grammar.toJson),
        writtenMember ("max_iterations".toList, .ofNat c.maxIterations.toNat),
        writtenMember ("title".toList, .ofString c.title),
        writtenMember ("url".toList, c.url.elim .null .ofString),
        writtenMember ("iterations".toList, .ofNat c.iterations.toNat) ]
      (do
        let grammar ← c.grammar.reread
        .ok ⟨some grammar, some c.maxIterations, some c.title.toList,
          some (c.url.map String.toList), some c.iterations⟩) := by
    refine .field_bind rfl rfl (Grammar.yields_toJson _) fun grammar => ?_
    refine .field rfl rfl (yields_uint32 _) ?_
    refine .field rfl rfl (yields_string _) ?_
    refine .field rfl rfl (yields_url c.url) ?_
    refine .field rfl rfl (yields_uint32 _) ?_
    exact .nil _
  rw [toJson_eq]
  refine yields_record hmembers ?_
  unfold reread
  cases c.grammar.reread with
  | error fault => rfl
  | ok grammar =>
    show Except.ok (Curve.mk grammar c.maxIterations (String.ofList c.title.toList)
      ((c.url.map String.toList).map String.ofList) c.iterations) = _
    rw [String.ofList_toList, map_ofList_toList]
    rfl

end Curve

namespace Catalog

theorem wellFormed_toJson (c : Catalog) : c.toJson.WellFormed := by
  refine wellFormed_ofMembers ?_
  simp only [List.forall_mem_cons]
  refine ⟨.array fun item hitem => ?_, by simp⟩
  obtain ⟨curve, -, rfl⟩ := List.mem_map.1 hitem
  exact curve.wellFormed_toJson

/-- A catalog after its floats have been written and read. -/
def reread (c : Catalog) : Except Fault Catalog := do
  let curves ← c.curves.mapM Curve.reread
  return { curves }

theorem yields_toJson (c : Catalog) : record.reader.Yields c.toJson c.reread := by
  have hmembers : record.Collects none
      [writtenMember ("curves".toList, .array (c.curves.map Curve.toJson))]
      (do
        let curves ← c.curves.mapM Curve.reread
        .ok (some curves)) :=
    .field_bind rfl rfl (yields_list fun curve _ => curve.yields_toJson) fun curves => .nil _
  refine yields_record hmembers ?_
  unfold reread
  cases c.curves.mapM Curve.reread <;> rfl

theorem ofDocument_toDocument (c : Catalog) : ofDocument c.toDocument = c.reread :=
  Reader.Takes.ofText c.yields_toJson (tokens_pretty c.wellFormed_toJson)

end Catalog

-- ---------------------------------------------------------------------------
-- The round trip
-- ---------------------------------------------------------------------------

theorem Grammar.rereads (g : Grammar) : Rereads g [g.angle, g.stepLength] g.reread := by
  have hlength (angle : Float32) :=
    (Rereads.float g.stepLength).map fun stepLength => { g with angle, stepLength }
  exact (Rereads.float g.angle).bind hlength

theorem Curve.rereads (c : Curve) :
    Rereads c [c.grammar.angle, c.grammar.stepLength] c.reread :=
  c.grammar.rereads.map fun grammar => { c with grammar }

namespace Catalog

/-- All floats of a catalog. -/
def floats (c : Catalog) : List Float32 :=
  c.curves.flatMap fun curve => [curve.grammar.angle, curve.grammar.stepLength]

theorem forall_mem_floats {c : Catalog} {p : Float32 → Prop} :
    (∀ x ∈ c.floats, p x) ↔
      ∀ curve ∈ c.curves, p curve.grammar.angle ∧ p curve.grammar.stepLength := by
  simp only [floats, List.forall_mem_flatMap, List.forall_mem_cons]
  simp

theorem rereads (c : Catalog) : Rereads c c.floats c.reread :=
  (Rereads.mapM fun curve _ => curve.rereads).map Catalog.mk

theorem suitableIff_reread (c : Catalog) : SuitableIff c.reread (∀ x ∈ c.floats, x.isFinite) :=
  c.rereads.suitable

theorem reread_eq {c : Catalog} (h : ∀ x ∈ c.floats, ReadsBack x) : c.reread = .ok c :=
  c.rereads.same h

/-- The document of a catalog can be read unless one of the floats is infinite or
NaN, for which null is written, and gives the catalog back where all of the floats
read back. -/
theorem document_round_trip (c : Catalog) :
    ((∃ d, ofDocument c.toDocument = .ok d) ↔ ∀ x ∈ c.floats, x.isFinite) ∧
      (¬ (∀ x ∈ c.floats, x.isFinite) → ofDocument c.toDocument = .error .unsuitable) ∧
      ((∀ x ∈ c.floats, ReadsBack x) → ofDocument c.toDocument = .ok c) := by
  rw [ofDocument_toDocument]
  exact ⟨c.suitableIff_reread.exists_ok_iff, c.suitableIff_reread.unsuitable, reread_eq⟩

/-- One curve, whose texts need escapes. -/
def escapes (angle : Float32) : Catalog :=
  let rules := SymbolMap.ofList [('"', ['\\', 'F']), ('\x00', [])]
  let grammar := ⟨['"', '\x1f', 'F'], rules, angle, 10.0, true, ['\n']⟩
  ⟨[⟨grammar, 0, "\"\t\u007f\"", none, 4294967295⟩]⟩

theorem standard_and_escapes_round_trip :
    ofDocument standard.toDocument = .ok standard ∧
      ofDocument (escapes 1.0471976).toDocument = .ok (escapes 1.0471976) ∧
      ofDocument (escapes Number.infinity32).toDocument = .error .unsuitable := by
  have hstandard : ∀ x ∈ standard.floats, ReadsBack x := by decide +kernel
  have hescapes : ∀ x ∈ (escapes 1.0471976).floats, ReadsBack x := by decide +kernel
  have hinfinite : ¬ ∀ x ∈ (escapes Number.infinity32).floats, x.isFinite := by decide +kernel
  exact ⟨(document_round_trip _).2.2 hstandard, (document_round_trip _).2.2 hescapes,
    (document_round_trip _).2.1 hinfinite⟩

end Catalog

end FractalCurve
