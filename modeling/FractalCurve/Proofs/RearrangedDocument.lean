import FractalCurve.Proofs.Arrangement
import FractalCurve.Proofs.CatalogDocument

/-!
# Rearranged documents

`Catalog.Rearranged` says which texts may stand for a catalog instead of its
document. The objects of the catalog, its curves and grammars are rearranged:
the fields that have a default and hold it may be left out. The rules, which
are an object without fields, may only change their order.

`ofDocument_of_rearranged`: all these texts read as the catalog.
-/

namespace FractalCurve

open Json

-- ---------------------------------------------------------------------------
-- Grammars
-- ---------------------------------------------------------------------------

namespace Rules

theorem ofList_perm (rules : Rules) {entries : List (Char × Word)}
    (h : entries.Perm rules.entries) : SymbolMap.ofList entries = rules := by
  have hkeys : (entries.map (·.1)).Nodup := (h.map _).nodup_iff.2 rules.nodup_keys
  refine SymbolMap.ext_find? fun c => Option.ext fun word => ?_
  rw [SymbolMap.find?_ofList_eq_some_iff hkeys, SymbolMap.find?_eq_some_iff, h.mem_iff]

/-- The rules as an object, in any order. -/
def Written (rules : Rules) (ts : List Token) : Prop :=
  ∃ entries : List (Char × Word), entries.Perm rules.entries ∧ ts = (objectOf entries).written

theorem takes_written {rules : Rules} {ts : List Token} (h : rules.Written ts) :
    reader.Takes ts (.ok rules) := by
  obtain ⟨entries, hperm, rfl⟩ := h
  exact rules.ofList_perm hperm ▸ yields_objectOf entries

end Rules

namespace Grammar

def entries (g : Grammar) : List Entry :=
  [ .ofJson "axiom" (.string g.start) False,
    { name := "rules"
      Value := g.rules.Written
      omissible := False
      isValue := by
        rintro ts ⟨entries, -, rfl⟩
        exact isValue_written _ },
    .ofJson "angle" (.ofFloat g.angle) False,
    .ofJson "step_length" (.ofFloat g.stepLength) (g.stepLength = defaultStepLength),
    .ofJson "closed_path" (.bool g.closed) (g.closed = false),
    .ofJson "draw_symbols" (.string g.drawSymbols) (g.drawSymbols = defaultDrawSymbols) ]

def draft (g : Grammar) (given : List String) : Draft where
  start := valueIn given "axiom" g.start
  rules := valueIn given "rules" g.rules
  angle := valueIn given "angle" g.angle
  stepLength := valueIn given "step_length" g.stepLength
  closed := valueIn given "closed_path" g.closed
  drawSymbols := valueIn given "draw_symbols" g.drawSymbols

/-- All fields in their order, save that the rules may be in another. -/
theorem arranged (g : Grammar) {rules : List (Char × Word)} (h : rules.Perm g.rules.entries) :
    Arranged g.entries (List.map namedMember
      [ ("axiom", .string g.start),
        ("rules", Rules.objectOf rules),
        ("angle", .ofFloat g.angle),
        ("step_length", .ofFloat g.stepLength),
        ("closed_path", .bool g.closed),
        ("draw_symbols", .string g.drawSymbols) ]) :=
  .written (.cons ⟨rfl, rfl⟩ (.cons ⟨rfl, rules, h, rfl⟩ (.cons ⟨rfl, rfl⟩ (.cons ⟨rfl, rfl⟩
    (.cons ⟨rfl, rfl⟩ (.cons ⟨rfl, rfl⟩ .nil))))))

theorem arrangement_toJson (g : Grammar) : Arrangement g.entries g.toJson.written :=
  (g.arranged .rfl).ofMembers

theorem receives {g : Grammar} (hangle : ReadsBack g.angle) (hlength : ReadsBack g.stepLength) :
    ∀ e ∈ g.entries, record.Receives g.draft e := by
  simp only [entries, List.forall_mem_cons]
  refine ⟨?_, ?_, ?_, ?_, ?_, ?_, List.forall_mem_nil _⟩
  · refine .of "axiom" rfl rfl (fun _ => rfl) (fun given => ?_) fun ts hts => ?_
    · simp [draft, valueIn]
    · exact hts ▸ yields_string g.start
  · refine .of "rules" rfl rfl (fun _ => rfl) (fun given => ?_) fun ts hts => ?_
    · simp [draft, valueIn]
    · exact Rules.takes_written hts
  · refine .of "angle" rfl rfl (fun _ => rfl) (fun given => ?_) fun ts hts => ?_
    · simp [draft, valueIn]
    · exact hts ▸ hangle ▸ yields_float32 g.angle
  · refine .of "step_length" rfl rfl (fun _ => rfl) (fun given => ?_) fun ts hts => ?_
    · simp [draft, valueIn]
    · exact hts ▸ hlength ▸ yields_float32 g.stepLength
  · refine .of "closed_path" rfl rfl (fun _ => rfl) (fun given => ?_) fun ts hts => ?_
    · simp [draft, valueIn]
    · exact hts ▸ yields_bool g.closed
  · refine .of "draw_symbols" rfl rfl (fun _ => rfl) (fun given => ?_) fun ts hts => ?_
    · simp [draft, valueIn]
    · exact hts ▸ yields_string g.drawSymbols

theorem finish_draft {g : Grammar} {given : List String}
    (hgiven : ∀ e ∈ g.entries, e.omissible ∨ e.name ∈ given) : (g.draft given).finish = some g := by
  simp only [entries, List.forall_mem_cons, Entry.ofJson, false_or] at hgiven
  obtain ⟨hstart, hrules, hangle, hlength, hclosed, hdraw, -⟩ := hgiven
  simp only [draft, Draft.finish, valueIn_of_mem hstart, valueIn_of_mem hrules,
    valueIn_of_mem hangle, getD_valueIn hlength, getD_valueIn hclosed, getD_valueIn hdraw]
  rfl

theorem drafts {g : Grammar} (hangle : ReadsBack g.angle) (hlength : ReadsBack g.stepLength) :
    record.Drafts g.entries g.draft g where
  distinct := by simp [entries, Entry.ofJson]
  blank := rfl
  receives := receives hangle hlength
  names := rfl
  finish _ hgiven := finish_draft hgiven

theorem takes_arrangement {g : Grammar} (hangle : ReadsBack g.angle)
    (hlength : ReadsBack g.stepLength) {ts : List Token} (hts : Arrangement g.entries ts) :
    record.reader.Takes ts (.ok g) :=
  Json.takes_arrangement (drafts hangle hlength) hts

end Grammar

-- ---------------------------------------------------------------------------
-- Curves and catalogs
-- ---------------------------------------------------------------------------

namespace Curve

def entries (c : Curve) : List Entry :=
  [ { name := "grammar"
      Value := Arrangement c.grammar.entries
      omissible := False
      isValue := Arrangement.isValue },
    .ofJson "max_iterations" (.ofNat c.maxIterations.toNat)
      (c.maxIterations = defaultMaxIterations),
    .ofJson "title" (.ofString c.title) False,
    .ofJson "url" (c.url.elim .null .ofString) (c.url = none),
    .ofJson "iterations" (.ofNat c.iterations.toNat) (c.iterations = defaultIterations) ]

def draft (c : Curve) (given : List String) : Draft where
  grammar := valueIn given "grammar" c.grammar
  maxIterations := valueIn given "max_iterations" c.maxIterations
  title := valueIn given "title" c.title.toList
  url := valueIn given "url" (c.url.map String.toList)
  iterations := valueIn given "iterations" c.iterations

/-- All fields in their order, around any arrangement of the grammar. -/
theorem arranged (c : Curve) {grammar : Json}
    (h : Arrangement c.grammar.entries grammar.written) :
    Arranged c.entries (List.map namedMember
      [ ("grammar", grammar),
        ("max_iterations", .ofNat c.maxIterations.toNat),
        ("title", .ofString c.title),
        ("url", c.url.elim .null .ofString),
        ("iterations", .ofNat c.iterations.toNat) ]) :=
  .written (.cons ⟨rfl, h⟩ (.cons ⟨rfl, rfl⟩ (.cons ⟨rfl, rfl⟩ (.cons ⟨rfl, rfl⟩
    (.cons ⟨rfl, rfl⟩ .nil)))))

theorem arrangement_toJson (c : Curve) : Arrangement c.entries c.toJson.written :=
  c.toJson_eq ▸ (c.arranged c.grammar.arrangement_toJson).ofMembers

theorem receives {c : Curve} (hangle : ReadsBack c.grammar.angle)
    (hlength : ReadsBack c.grammar.stepLength) :
    ∀ e ∈ c.entries, record.Receives c.draft e := by
  simp only [entries, List.forall_mem_cons]
  refine ⟨?_, ?_, ?_, ?_, ?_, List.forall_mem_nil _⟩
  · refine .of "grammar" rfl rfl (fun _ => rfl) (fun given => ?_) fun ts hts => ?_
    · simp [draft, valueIn]
    · exact Grammar.takes_arrangement hangle hlength hts
  · refine .of "max_iterations" rfl rfl (fun _ => rfl) (fun given => ?_) fun ts hts => ?_
    · simp [draft, valueIn]
    · exact hts ▸ yields_uint32 c.maxIterations
  · refine .of "title" rfl rfl (fun _ => rfl) (fun given => ?_) fun ts hts => ?_
    · simp [draft, valueIn]
    · exact hts ▸ yields_string c.title.toList
  · refine .of "url" rfl rfl (fun _ => rfl) (fun given => ?_) fun ts hts => ?_
    · simp [draft, valueIn]
    · exact hts ▸ yields_url c.url
  · refine .of "iterations" rfl rfl (fun _ => rfl) (fun given => ?_) fun ts hts => ?_
    · simp [draft, valueIn]
    · exact hts ▸ yields_uint32 c.iterations

theorem finish_draft {c : Curve} {given : List String}
    (hgiven : ∀ e ∈ c.entries, e.omissible ∨ e.name ∈ given) : (c.draft given).finish = some c := by
  simp only [entries, List.forall_mem_cons, Entry.ofJson, false_or] at hgiven
  obtain ⟨hgrammar, hmax, htitle, hurl, hiterations, -⟩ := hgiven
  have hurl : c.url.map String.toList = none ∨ "url" ∈ given :=
    hurl.imp_left fun hnone => by rw [hnone]; rfl
  simp only [draft, Draft.finish, valueIn_of_mem hgrammar, getD_valueIn hmax,
    valueIn_of_mem htitle, getD_valueIn hurl, getD_valueIn hiterations, map_ofList_toList]
  simp

theorem drafts {c : Curve} (hangle : ReadsBack c.grammar.angle)
    (hlength : ReadsBack c.grammar.stepLength) : record.Drafts c.entries c.draft c where
  distinct := by simp [entries, Entry.ofJson]
  blank := rfl
  receives := receives hangle hlength
  names := rfl
  finish _ hgiven := finish_draft hgiven

end Curve

namespace Catalog

/-- Arrangements of the curves, in their order. -/
def Written (c : Catalog) (ts : List Token) : Prop :=
  ∃ items, List.Forall₂ (fun curve => Arrangement curve.entries) c.curves items ∧
    ts = arrayTokens items

theorem Written.isValue {c : Catalog} {ts : List Token} (h : c.Written ts) : IsValue ts := by
  obtain ⟨items, hitems, rfl⟩ := h
  refine .array fun item hitem => ?_
  obtain ⟨curve, -, hcurve⟩ := exists_of_forall₂ hitems item hitem
  exact hcurve.isValue

theorem takes_written {c : Catalog} (hfloats : ∀ x ∈ c.floats, ReadsBack x) {ts : List Token}
    (h : c.Written ts) : (Reader.list Curve.record.reader).Takes ts (.ok c.curves) := by
  obtain ⟨items, hitems, rfl⟩ := h
  obtain ⟨hlength, hzip⟩ := List.forall₂_iff_zip.1 hitems
  have htakes : (Reader.list Curve.record.reader).Takes
      (arrayTokens ((c.curves.zip items).map Prod.snd))
      ((c.curves.zip items).mapM fun item => pure item.1) := by
    refine takes_list (fun item hitem => (hzip hitem).isValue) fun item hitem => ?_
    obtain ⟨hangle, hlength⟩ := forall_mem_floats.1 hfloats item.1 (List.of_mem_zip hitem).1
    exact takes_arrangement (Curve.drafts hangle hlength) (hzip hitem)
  rw [List.map_snd_zip hlength.ge, List.mapM_pure, List.map_fst_zip hlength.le] at htakes
  exact htakes

def entries (c : Catalog) : List Entry :=
  [ { name := "curves"
      Value := c.Written
      omissible := False
      isValue := Written.isValue } ]

theorem drafts {c : Catalog} (hfloats : ∀ x ∈ c.floats, ReadsBack x) :
    record.Drafts c.entries (fun given => valueIn given "curves" c.curves) c where
  distinct := by simp [entries]
  blank := rfl
  receives := by
    refine List.forall_mem_singleton.2 ?_
    refine .of "curves" rfl rfl (fun _ => rfl) (fun given => ?_) fun ts hts => ?_
    · simp [valueIn]
    · exact takes_written hfloats hts
  names := rfl
  finish given hgiven := by
    simp only [entries, List.forall_mem_singleton, false_or] at hgiven
    rw [valueIn_of_mem hgiven]
    rfl

theorem arranged (c : Catalog) {curves : List Json}
    (h : List.Forall₂ (fun curve j => Arrangement curve.entries j.written) c.curves curves) :
    Arranged c.entries (List.map namedMember [("curves", .array curves)]) := by
  refine .written (.cons ⟨rfl, curves.map written, ?_, written_array curves⟩ .nil)
  exact List.forall₂_map_right_iff.2 h

theorem arrangement_toJson (c : Catalog) : Arrangement c.entries c.toJson.written := by
  refine (c.arranged (List.forall₂_map_right_iff.2 ?_)).ofMembers
  exact List.forall₂_same.2 fun curve _ => curve.arrangement_toJson

/-- The texts that can be made from the document of a catalog: its objects are
rearranged and its tokens spaced out. -/
def Rearranged (c : Catalog) (text : List Char) : Prop :=
  ∃ ts, Arrangement c.entries ts ∧ Spells text ts

theorem rearranged_toDocument (c : Catalog) : c.Rearranged c.toDocument :=
  ⟨_, c.arrangement_toJson, c.wellFormed_toJson.spells_pretty⟩

/-- No field depends on where it stands, on foreign members around it or on
blanks, and the fields with a default need not be there to hold it. -/
theorem ofDocument_of_rearranged {c : Catalog} (hfloats : ∀ x ∈ c.floats, ReadsBack x)
    {text : List Char} (htext : c.Rearranged text) : ofDocument text = .ok c := by
  obtain ⟨ts, hts, hspells⟩ := htext
  exact (takes_arrangement (drafts hfloats) hts).ofText (tokens_of_spells hspells hts.isValue)

def twigGrammar : Grammar := .ofRules ['F'] [('F', ['G', 'G']), ('G', ['F'])] 0.5

def twigCurve : Curve := .ofGrammar twigGrammar "Twigs"

/-- One curve, with all the defaults. -/
def twigs : Catalog := ⟨[twigCurve]⟩

def comment : String × Json := ("comment", .array [.null, ofMembers [("title", .bool true)]])

/-- The fields without a default in reverse, behind a foreign member. -/
def rearrangedGrammar : Json :=
  ofMembers
    [ comment,
      ("angle", .ofFloat 0.5),
      ("rules", Rules.objectOf [('G', ['F']), ('F', ['G', 'G'])]),
      ("axiom", .ofString "F") ]

def rearrangedCurve : Json :=
  ofMembers [comment, ("title", .ofString "Twigs"), ("grammar", rearrangedGrammar)]

def rearrangedTwigs : Json := ofMembers [comment, ("curves", .array [rearrangedCurve])]

theorem wellFormed_rearrangedTwigs : rearrangedTwigs.WellFormed := by
  have hcomment : comment.2.WellFormed := by
    have hobject : (ofMembers [("title", .bool true)]).WellFormed :=
      wellFormed_ofMembers (List.forall_mem_singleton.2 (.bool true))
    exact .array (by simpa using ⟨.null, hobject⟩)
  have hgrammar : rearrangedGrammar.WellFormed := by
    refine wellFormed_ofMembers ?_
    simp only [List.forall_mem_cons]
    exact ⟨hcomment, wellFormed_ofFloat _, Rules.wellFormed_objectOf _, .string _, by simp⟩
  have hcurve : rearrangedCurve.WellFormed := by
    refine wellFormed_ofMembers ?_
    simp only [List.forall_mem_cons]
    exact ⟨hcomment, .string _, hgrammar, by simp⟩
  refine wellFormed_ofMembers ?_
  simp only [List.forall_mem_cons]
  exact ⟨hcomment, .array (List.forall_mem_singleton.2 hcurve), by simp⟩

theorem arrangement_rearrangedTwigs : Arrangement twigs.entries rearrangedTwigs.written := by
  have hnamed : ∀ m, (namedMember m).IsNamed m.1.toList := fun _ => closedString_map_stringPart _
  have hgrammar : Arrangement twigGrammar.entries rearrangedGrammar.written := by
    have hall := twigGrammar.arranged (.swap ('F', ['G', 'G']) ('G', ['F']) [])
    have hreversed := hall.reorder (List.reverse_perm _).symm
    have hdraw := hreversed.leaveOut (List.mem_of_getElem? (i := 5) rfl) (hnamed _) rfl
    have hclosed := hdraw.leaveOut (List.mem_of_getElem? (i := 4) rfl) (hnamed _) rfl
    have hlength := hclosed.leaveOut (List.mem_of_getElem? (i := 3) rfl) (hnamed _) rfl
    exact ⟨_, hlength.add (foreign_namedMember (by decide)), written_object _⟩
  have hcurve : Arrangement twigCurve.entries rearrangedCurve.written := by
    have hreversed := (twigCurve.arranged hgrammar).reorder (List.reverse_perm _).symm
    have hiterations := hreversed.leaveOut (List.mem_of_getElem? (i := 4) rfl) (hnamed _) rfl
    have hurl := hiterations.leaveOut (List.mem_of_getElem? (i := 3) rfl) (hnamed _) rfl
    have hswapped := hurl.reorder (.swap _ _ _)
    have hmax := hswapped.leaveOut (List.mem_of_getElem? (i := 1) rfl) (hnamed _) rfl
    exact ⟨_, hmax.add (foreign_namedMember (by decide)), written_object _⟩
  have hcurves := twigs.arranged (.cons hcurve .nil)
  exact ⟨_, hcurves.add (foreign_namedMember (by decide)), written_object _⟩

theorem ofDocument_rearrangedTwigs :
    (∀ x ∈ twigs.floats, ReadsBack x) ∧ twigs.Rearranged ('\t' :: rearrangedTwigs.pretty) ∧
      ofDocument ('\t' :: rearrangedTwigs.pretty) = .ok twigs := by
  have hfloats : ∀ x ∈ twigs.floats, ReadsBack x := by decide +kernel
  have hblank : ∀ c ∈ ['\t'], isSpace c := List.forall_mem_singleton.2 rfl
  have hspells := wellFormed_rearrangedTwigs.spells_pretty.blanks_append hblank
  have htext : twigs.Rearranged ('\t' :: rearrangedTwigs.pretty) :=
    ⟨_, arrangement_rearrangedTwigs, hspells⟩
  exact ⟨hfloats, htext, ofDocument_of_rearranged hfloats htext⟩

end Catalog

end FractalCurve
