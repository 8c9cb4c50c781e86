import FractalCurve.Proofs.RuleText

/-!
# The language of rule texts

Which texts hold rules, said without reading them from left to right: the
separators divide a text into entries, its first arrow divides an entry into
two sides, and the last entry for a symbol gives its production.

`parse_language`: the texts that are read, the rules read from them, and the
entry that is named when a text is refused. `parse_format_of_parse`: rules read
from a text are read back from their own text, unless one of the entries began
with a semicolon; the text of such rules is refused.
-/

namespace FractalCurve.Rules

-- ---------------------------------------------------------------------------
-- Entries of a text
-- ---------------------------------------------------------------------------

/-- The parts of a text between its separators. -/
structure Divided (text : List Char) (entries : List (List Char)) : Prop where
  joined : separator.intercalate entries = text
  ne_nil : entries ≠ []
  plain : ∀ entry ∈ entries, ¬ separator <:+: entry

theorem intercalate_consFirst {c : Char} {texts : List (List Char)} (h : texts ≠ []) :
    separator.intercalate (consFirst c texts) = c :: separator.intercalate texts := by
  cases texts with
  | nil => contradiction
  | cons text texts => cases texts <;> simp [consFirst, List.intercalate_cons_cons]

theorem intercalate_pieces (text : List Char) : separator.intercalate (pieces text) = text := by
  fun_induction pieces text with
  | case1 => rfl
  | case2 rest ih =>
    obtain ⟨piece, others, h⟩ := List.exists_cons_of_ne_nil (pieces_ne_nil rest)
    rw [h] at ih ⊢
    rw [List.intercalate_cons_cons, ih]
    rfl
  | case3 c rest _ ih => rw [intercalate_consFirst (pieces_ne_nil rest), ih]

/-- There is one way to divide a text. -/
theorem divided_iff {text : List Char} {entries : List (List Char)} :
    Divided text entries ↔ entries = pieces text := by
  constructor
  · rintro ⟨rfl, hne, hplain⟩
    have hentries : entries.flatMap pieces = entries.flatMap fun entry => [entry] :=
      List.flatMap_congr fun entry he => pieces_of_not_infix (hplain entry he)
    rw [pieces_intercalate hne, hentries, List.flatMap_singleton']
  · rintro rfl
    exact ⟨intercalate_pieces text, pieces_ne_nil text,
      fun _ => not_separator_infix_of_mem_pieces⟩

instance (text : List Char) (entries : List (List Char)) : Decidable (Divided text entries) :=
  decidable_of_iff (entries = pieces text) divided_iff.symm

-- ---------------------------------------------------------------------------
-- Sides of an entry
-- ---------------------------------------------------------------------------

/-- What stands in front of the first arrow of an entry and behind it. -/
structure Sides (entry left right : List Char) : Prop where
  joined : entry = left ++ arrow ++ right
  first : ∀ l r, entry = l ++ arrow ++ r → left.length ≤ l.length

theorem sides_arrow (right : List Char) : Sides (arrow ++ right) [] right :=
  ⟨rfl, fun _ _ _ => Nat.zero_le _⟩

theorem sides_cons {c : Char} {entry left right : List Char} (hc : ¬ arrow <+: c :: entry) :
    Sides (c :: entry) left right ↔ ∃ rest, left = c :: rest ∧ Sides entry rest right := by
  constructor
  · rintro ⟨hjoined, hfirst⟩
    cases left with
    | nil => exact absurd ⟨right, hjoined.symm⟩ hc
    | cons d rest =>
      obtain ⟨rfl, hentry⟩ := List.cons.inj hjoined
      refine ⟨rest, rfl, hentry, ?_⟩
      intro l r h
      exact Nat.le_of_succ_le_succ (hfirst (c :: l) r (congrArg (c :: ·) h))
  · rintro ⟨rest, rfl, hjoined, hfirst⟩
    refine ⟨congrArg (c :: ·) hjoined, ?_⟩
    intro l r h
    cases l with
    | nil => exact absurd ⟨r, h.symm⟩ hc
    | cons d l =>
      obtain ⟨rfl, hentry⟩ := List.cons.inj h
      exact Nat.succ_le_succ (hfirst l r hentry)

theorem splitArrow_eq_some_iff {entry left right : List Char} :
    splitArrow entry = some (left, right) ↔ Sides entry left right := by
  fun_induction splitArrow entry generalizing left with
  | case1 =>
    constructor
    · intro h
      contradiction
    · rintro ⟨hjoined, -⟩
      cases left <;> contradiction
  | case2 rest =>
    constructor
    · rintro ⟨⟩
      exact sides_arrow right
    · rintro ⟨hjoined, hfirst⟩
      obtain rfl := List.length_eq_zero_iff.1 (Nat.le_zero.1 (hfirst [] rest rfl))
      cases hjoined
      rfl
  | case3 c rest hno ih =>
    have hc : ¬ arrow <+: c :: rest := by
      rintro ⟨behind, h⟩
      obtain ⟨rfl, rfl⟩ := List.cons.inj h
      exact hno behind rfl rfl
    rw [sides_cons hc]
    simp only [Option.map_eq_some_iff, Prod.mk.injEq]
    constructor
    · rintro ⟨⟨left, right⟩, hrest, rfl, rfl⟩
      exact ⟨left, rfl, ih.1 hrest⟩
    · rintro ⟨left, rfl, hrest⟩
      exact ⟨(left, right), ih.2 hrest, rfl, rfl⟩

/-- A rule has an arrow and something in front of the first one. -/
def IsRule (entry : List Char) : Prop := ∃ left right, Sides entry left right ∧ left ≠ []

theorem parseEntry_eq_ok_iff {entry : List Char} {symbol : Char} {production : Word} :
    parseEntry entry = .ok (symbol, production) ↔
      ∃ left, Sides entry (symbol :: left) production := by
  simp only [← splitArrow_eq_some_iff, parseEntry]
  split
  next c left right hsplit => simp [hsplit]
  next hno =>
    constructor
    · intro h
      contradiction
    · rintro ⟨left, h⟩
      exact absurd h (hno symbol left production)

theorem isRule_iff {entry : List Char} : IsRule entry ↔ ∃ e, parseEntry entry = .ok e := by
  constructor
  · rintro ⟨left, right, hsides, hleft⟩
    obtain ⟨symbol, left, rfl⟩ := List.exists_cons_of_ne_nil hleft
    exact ⟨(symbol, right), parseEntry_eq_ok_iff.2 ⟨left, hsides⟩⟩
  · rintro ⟨⟨symbol, production⟩, h⟩
    obtain ⟨left, hsides⟩ := parseEntry_eq_ok_iff.1 h
    exact ⟨symbol :: left, production, hsides, List.cons_ne_nil symbol left⟩

instance (entry : List Char) : Decidable (IsRule entry) :=
  decidable_of_iff ((parseEntry entry).isOk = true) <| by
    rw [isRule_iff]
    cases parseEntry entry <;> simp [Except.isOk, Except.toBool]

theorem parseEntry_eq_error_iff {entry : List Char} {error : CurveError} :
    parseEntry entry = .error error ↔ ¬ IsRule entry ∧ error = .ruleSyntax entry := by
  rw [isRule_iff, parseEntry]
  split <;> simp [eq_comm]

theorem head?_of_parseEntry {entry : List Char} {e : Char × Word} (h : parseEntry entry = .ok e) :
    entry.head? = some e.1 := by
  obtain ⟨left, hsides⟩ := parseEntry_eq_ok_iff.1 h
  rw [hsides.joined]
  rfl

-- ---------------------------------------------------------------------------
-- Entries one after the other
-- ---------------------------------------------------------------------------

/-- The last of the entries that begin with the symbol has this production. -/
def Gives (entries : List (List Char)) (symbol : Char) (production : Word) : Prop :=
  ∃ before entry after left, entries = before ++ entry :: after ∧
    Sides entry (symbol :: left) production ∧ ∀ later ∈ after, later.head? ≠ some symbol

theorem gives_cons {entry : List Char} {entries : List (List Char)} {symbol : Char}
    {production : Word} :
    Gives (entry :: entries) symbol production ↔ Gives entries symbol production ∨
      parseEntry entry = .ok (symbol, production) ∧
        ∀ later ∈ entries, later.head? ≠ some symbol := by
  rw [parseEntry_eq_ok_iff]
  constructor
  · rintro ⟨before, e, after, left, h, hsides, hlater⟩
    cases before with
    | nil =>
      cases h
      exact .inr ⟨⟨left, hsides⟩, hlater⟩
    | cons d before =>
      cases h
      exact .inl ⟨before, e, after, left, rfl, hsides, hlater⟩
  · rintro (⟨before, e, after, left, rfl, hsides, hlater⟩ | ⟨⟨left, hsides⟩, hlater⟩)
    · exact ⟨entry :: before, e, after, left, rfl, hsides, hlater⟩
    · exact ⟨[], entry, entries, left, rfl, hsides, hlater⟩

theorem exists_gives_iff {entries : List (List Char)} (h : ∀ entry ∈ entries, IsRule entry)
    {symbol : Char} :
    (∃ production, Gives entries symbol production) ↔
      ∃ entry ∈ entries, entry.head? = some symbol := by
  constructor
  · rintro ⟨production, before, entry, after, left, rfl, hsides, -⟩
    refine ⟨entry, List.mem_append_right before List.mem_cons_self, ?_⟩
    rw [hsides.joined]
    rfl
  · induction entries with
    | nil => simp
    | cons entry entries ih =>
      intro hsome
      obtain ⟨hentry, hentries⟩ := List.forall_mem_cons.1 h
      by_cases hlater : ∃ later ∈ entries, later.head? = some symbol
      · obtain ⟨production, hgives⟩ := ih hentries hlater
        exact ⟨production, gives_cons.2 (.inl hgives)⟩
      · -- then the first entry is the last one for the symbol
        obtain ⟨⟨c, production⟩, hread⟩ := isRule_iff.1 hentry
        obtain ⟨e, he, hsymbol⟩ := hsome
        rcases List.mem_cons.1 he with rfl | he
        · rw [head?_of_parseEntry hread] at hsymbol
          cases hsymbol
          refine ⟨production, gives_cons.2 (.inr ⟨hread, ?_⟩)⟩
          exact fun later hmem hfirst => hlater ⟨later, hmem, hfirst⟩
        · exact absurd ⟨e, he, hsymbol⟩ hlater

/-- Entries put into a map one after the other: an entry for the symbol, or the
value from before if there is none. -/
theorem find?_insertAll_entries {entries : List (List Char)} {es : List (Char × Word)}
    (h : List.Forall₂ (fun entry e => parseEntry entry = .ok e) entries es) (rules : Rules)
    (symbol : Char) (production : Word) :
    (rules.insertAll es).find? symbol = some production ↔ Gives entries symbol production ∨
      (∀ entry ∈ entries, entry.head? ≠ some symbol) ∧
        rules.find? symbol = some production := by
  induction h generalizing rules with
  | nil =>
    have hnone : ¬ Gives [] symbol production := by
      rintro ⟨before, _, _, _, hnil, _⟩
      cases before <;> contradiction
    simp [SymbolMap.insertAll, hnone]
  | @cons entry e entries es hentry _ ih =>
    have hstep := ih (rules.insert e.1 e.2)
    rw [SymbolMap.find?_insert] at hstep
    rw [gives_cons, List.forall_mem_cons, head?_of_parseEntry hentry, hentry]
    refine hstep.trans ?_
    by_cases hsymbol : symbol = e.1
    · subst hsymbol
      simp [and_comm, Prod.ext_iff]
    · have hother : e ≠ (symbol, production) := by
        rintro rfl
        exact hsymbol rfl
      simp [hsymbol, Ne.symm hsymbol, hother]

-- ---------------------------------------------------------------------------
-- Texts
-- ---------------------------------------------------------------------------

theorem parse_of_not_blank {text : List Char} (h : ¬ text.all Text.isBlank) :
    parse text = ((pieces text).mapM parseEntry).map SymbolMap.ofList := by
  rw [parse, if_neg h]
  cases (pieces text).mapM parseEntry <;> rfl

theorem parse_eq_error_iff {text : List Char} (h : ¬ text.all Text.isBlank) {error : CurveError} :
    parse text = .error error ↔ ∃ before entry after, pieces text = before ++ entry :: after ∧
      (∀ earlier ∈ before, IsRule earlier) ∧ ¬ IsRule entry ∧ error = .ruleSyntax entry := by
  have hmap : parse text = .error error ↔ (pieces text).mapM parseEntry = .error error := by
    rw [parse_of_not_blank h]
    cases (pieces text).mapM parseEntry <;> simp [Except.map]
  rw [hmap, mapM_eq_error_iff]
  simp only [isRule_iff, parseEntry_eq_error_iff]

theorem exists_parse_eq_ok_iff {text : List Char} (h : ¬ text.all Text.isBlank) :
    (∃ rules, parse text = .ok rules) ↔ ∀ entry ∈ pieces text, IsRule entry := by
  simp only [isRule_iff, ← exists_mapM_eq_ok_iff, parse_eq_ok_iff h]
  constructor
  · rintro ⟨rules, entries, hread, -⟩
    exact ⟨entries, hread⟩
  · rintro ⟨entries, hread⟩
    exact ⟨_, entries, hread, rfl⟩

theorem find?_of_parse {text : List Char} (h : ¬ text.all Text.isBlank) {rules : Rules}
    (hread : parse text = .ok rules) (symbol : Char) (production : Word) :
    rules.find? symbol = some production ↔ Gives (pieces text) symbol production := by
  obtain ⟨entries, hentries, rfl⟩ := (parse_eq_ok_iff h).1 hread
  refine (find?_insertAll_entries (mapM_eq_ok_iff.1 hentries) .empty symbol production).trans ?_
  simp

/-- Blank text holds no rules. Of other texts those are read whose entries are
all rules: their first characters are the symbols, and the last entry for a
symbol counts. Any other text is refused with the first entry that is not a
rule. -/
theorem parse_language (text : List Char) :
    ((∀ c ∈ text, Text.isBlank c) → parse text = .ok .empty) ∧
      (¬ (∀ c ∈ text, Text.isBlank c) →
        ∃ entries, (∀ other, Divided text other ↔ other = entries) ∧
          ((∃ rules, parse text = .ok rules) ↔ ∀ entry ∈ entries, IsRule entry) ∧
          (∀ rules, parse text = .ok rules → ∀ symbol,
            ((∃ production, rules.find? symbol = some production) ↔
              ∃ entry ∈ entries, entry.head? = some symbol) ∧
            ∀ production, rules.find? symbol = some production ↔
              Gives entries symbol production) ∧
          ∀ error, parse text = .error error ↔
            ∃ before entry after, entries = before ++ entry :: after ∧
              (∀ earlier ∈ before, IsRule earlier) ∧ ¬ IsRule entry ∧
              error = .ruleSyntax entry) := by
  rw [← List.all_eq_true]
  constructor
  · intro hblank
    rw [parse, if_pos hblank]
  · intro hblank
    refine ⟨pieces text, fun _ => divided_iff, exists_parse_eq_ok_iff hblank, ?_,
      fun _ => parse_eq_error_iff hblank⟩
    intro rules hread symbol
    have hrules := (exists_parse_eq_ok_iff hblank).1 ⟨rules, hread⟩
    refine ⟨?_, find?_of_parse hblank hread symbol⟩
    simp only [find?_of_parse hblank hread, exists_gives_iff hrules]

/-- Blank text; a symbol with two rules, the second with an arrow in its
production; an entry with nothing in front of its arrow. -/
theorem parse_language_of_blank_repeated_and_faulty :
    parse "\t \n".toList = .ok .empty ∧
      (∃ rules, parse "F+ => A; G => ; F => B => C;".toList = .ok rules ∧
        rules.find? 'F' = some "B => C;".toList ∧ rules.find? '+' = none) ∧
      parse "F => A;  => B; C".toList = .error (.ruleSyntax " => B".toList) := by
  refine ⟨(parse_language _).1 fun c hc => List.all_eq_true.1 (by decide) c hc, ?_, ?_⟩
  · obtain ⟨entries, hdivided, hread, hrules, -⟩ :=
      (parse_language "F+ => A; G => ; F => B => C;".toList).2 fun h =>
        absurd (h 'F' (by decide)) (by decide)
    obtain rfl : ["F+ => A".toList, "G => ".toList, "F => B => C;".toList] = entries :=
      (hdivided _).1 (by decide)
    obtain ⟨rules, hok⟩ := hread.2 (by decide)
    refine ⟨rules, hok, ?_, ?_⟩
    · refine ((hrules rules hok 'F').2 _).2 ⟨["F+ => A".toList, "G => ".toList], _, [], [], rfl, ?_⟩
      exact ⟨splitArrow_eq_some_iff.1 rfl, nofun⟩
    · apply Option.eq_none_iff_forall_ne_some.2
      intro production hfind
      exact absurd ((hrules rules hok '+').1.1 ⟨production, hfind⟩) (by decide)
  · obtain ⟨entries, hdivided, -, -, hfault⟩ :=
      (parse_language "F => A;  => B; C".toList).2 fun h => absurd (h 'F' (by decide)) (by decide)
    obtain rfl : ["F => A".toList, " => B".toList, "C".toList] = entries :=
      (hdivided _).1 (by decide)
    exact (hfault _).2 ⟨["F => A".toList], " => B".toList, ["C".toList], rfl, by decide⟩

-- ---------------------------------------------------------------------------
-- Rules written and read again
-- ---------------------------------------------------------------------------

theorem pieces_of_blank {text : List Char} (h : text.all Text.isBlank) : pieces text = [text] := by
  apply pieces_of_not_infix
  intro hinside
  have hsemicolon : ';' ∈ text := hinside.subset (by simp [separator])
  exact absurd (List.all_eq_true.1 h ';' hsemicolon) (by decide)

theorem exists_find?_of_parse {text : List Char} {rules : Rules} (hread : parse text = .ok rules)
    {symbol : Char} (hsymbol : ¬ Text.isBlank symbol) :
    (∃ production, rules.find? symbol = some production) ↔
      ∃ entry ∈ pieces text, entry.head? = some symbol := by
  by_cases hblank : text.all Text.isBlank
  · rw [parse, if_pos hblank] at hread
    cases hread
    rw [pieces_of_blank hblank]
    constructor
    · rintro ⟨production, h⟩
      contradiction
    · rintro ⟨entry, hentry, hfirst⟩
      cases List.mem_singleton.1 hentry
      exact absurd (List.all_eq_true.1 hblank symbol (List.mem_of_head? hfirst)) hsymbol
  · have hrules := (exists_parse_eq_ok_iff hblank).1 ⟨rules, hread⟩
    simp only [find?_of_parse hblank hread, exists_gives_iff hrules]

/-- A production that was read ends an entry, so no separator is in it. -/
theorem not_separator_infix_of_parse {text : List Char} {rules : Rules}
    (hread : parse text = .ok rules) {e : Char × Word} (he : e ∈ rules.entries) :
    ¬ separator <:+: e.2 := by
  by_cases hblank : text.all Text.isBlank
  · rw [parse, if_pos hblank] at hread
    cases hread
    contradiction
  · have hfind := (SymbolMap.find?_eq_some_iff rules e.1 e.2).2 he
    rw [find?_of_parse hblank hread] at hfind
    obtain ⟨before, entry, after, left, hpieces, hsides, -⟩ := hfind
    have hentry : entry ∈ pieces text := by simp [hpieces]
    have hpart : e.2 <:+: entry := hsides.joined ▸ (List.suffix_append _ e.2).isInfix
    intro hinside
    exact not_separator_infix_of_mem_pieces hentry (hinside.trans hpart)

theorem mapM_pieces_entryText {es : List (Char × Word)} (h : ∀ e ∈ es, ¬ separator <:+: e.2) :
    (es.flatMap fun e => pieces (entryText e)).mapM parseEntry =
      if ∃ e ∈ es, e.1 = ';' then .error (.ruleSyntax []) else .ok es := by
  induction es with
  | nil => rfl
  | cons e es ih =>
    obtain ⟨hproduction, hes⟩ := List.forall_mem_cons.1 h
    obtain ⟨symbol, production⟩ := e
    rw [List.flatMap_cons]
    by_cases hsymbol : symbol = ';'
    · -- the semicolon makes a separator with its arrow, so the entry in front is empty
      subst hsymbol
      have hpieces : pieces (entryText (';', production)) =
          [] :: pieces (['=', '>', ' '] ++ production) := rfl
      simp [hpieces, parseEntry, splitArrow, bind, Except.bind]
    · have hpieces : pieces (entryText (symbol, production)) = [entryText (symbol, production)] :=
        pieces_of_not_infix (not_separator_infix_entryText hsymbol hproduction)
      rw [hpieces, List.singleton_append, List.mapM_cons, parseEntry_entryText, ih hes]
      by_cases hlater : ∃ e ∈ es, e.1 = ';'
      · simp [hlater, bind, Except.bind]
      · simp [hlater, hsymbol, bind, Except.bind, pure, Except.pure]

theorem parse_format_of_plain {rules : Rules} (h : ∀ e ∈ rules.entries, ¬ separator <:+: e.2) :
    parse (format rules) =
      if ∃ e ∈ rules.entries, e.1 = ';' then .error (.ruleSyntax []) else .ok rules := by
  by_cases hnone : rules.entries = []
  · cases SymbolMap.ext_entries (n := .empty) hnone
    rfl
  · rw [parse_of_not_blank (format_not_blank hnone), pieces_format hnone, mapM_pieces_entryText h]
    split
    · rfl
    · exact congrArg Except.ok (SymbolMap.ofList_entries rules)

/-- Rules that were read from a text are read back from their own text, unless
an entry began with a semicolon; then their text is refused for an empty
entry. -/
theorem parse_format_of_parse {text : List Char} {rules : Rules} (h : parse text = .ok rules) :
    parse (format rules) =
      if ∃ entry ∈ pieces text, entry.head? = some ';' then .error (.ruleSyntax [])
      else .ok rules := by
  have hsemicolon : (∃ e ∈ rules.entries, e.1 = ';') ↔
      ∃ entry ∈ pieces text, entry.head? = some ';' := by
    rw [← exists_find?_of_parse h (by decide)]
    simp only [SymbolMap.find?_eq_some_iff]
    constructor
    · rintro ⟨⟨symbol, production⟩, he, rfl⟩
      exact ⟨production, he⟩
    · rintro ⟨production, he⟩
      exact ⟨(';', production), he, rfl⟩
  rw [parse_format_of_plain fun e => not_separator_infix_of_parse h]
  simp only [hsemicolon]

/-- A semicolon that ends an entry does no harm. -/
theorem parse_format_of_semicolon_in_production :
    ∃ rules, parse "FX => A;; G =>  => ;".toList = .ok rules ∧
      parse (format rules) =
        if ∃ entry ∈ pieces "FX => A;; G =>  => ;".toList, entry.head? = some ';' then
          .error (.ruleSyntax [])
        else .ok rules := by
  have h : parse "FX => A;; G =>  => ;".toList =
      .ok (.ofList [('F', "A;".toList), ('G', " => ;".toList)]) := by decide
  exact ⟨_, h, parse_format_of_parse h⟩

/-- A text that is read, yet the text of its rules is not. -/
theorem parse_format_of_semicolon_entry :
    parse ";F => G".toList = .ok (.ofList [(';', "G".toList)]) ∧
      parse (format (.ofList [(';', "G".toList)])) = .error (.ruleSyntax []) := by
  decide

end FractalCurve.Rules
