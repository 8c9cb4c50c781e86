import FractalCurve.Grammar.RuleText
import FractalCurve.Proofs.Traversal

/-!
# Rules read back from their text

A separator in the text of rules is one that joins two entries, one inside of a
production, or a semicolon that is a symbol together with the blank of its
arrow. Only the first kind is meant.

`parse_format_eq_ok_iff`: rules are read back from their text exactly if there
are no separators of the other two kinds.
-/

namespace FractalCurve.Rules

-- ---------------------------------------------------------------------------
-- Pieces
-- ---------------------------------------------------------------------------

theorem separator_prefix_cons {c : Char} {rest : List Char} :
    separator <+: c :: rest ↔ c = ';' ∧ [' '] <+: rest := by
  rw [separator, List.cons_prefix_cons, eq_comm]

theorem pieces_cons {c : Char} {rest : List Char} (h : ¬ separator <+: c :: rest) :
    pieces (c :: rest) = consFirst c (pieces rest) := by
  rw [pieces]
  rintro rest' rfl rfl
  exact h ⟨rest', rfl⟩

theorem pieces_ne_nil (text : List Char) : pieces text ≠ [] := by
  fun_cases pieces text with
  | case1 => simp
  | case2 rest => simp
  | case3 c rest _ => cases pieces rest <;> simp [consFirst]

theorem consFirst_append {c : Char} {u : List (List Char)} (h : u ≠ []) (v : List (List Char)) :
    consFirst c (u ++ v) = consFirst c u ++ v := by
  cases u with
  | nil => contradiction
  | cons piece u => rfl

/-- A separator does not depend on what stands around it. -/
theorem pieces_append_separator (u v : List Char) :
    pieces (u ++ separator ++ v) = pieces u ++ pieces v := by
  fun_induction pieces u with
  | case1 => rfl
  | case2 rest ih => exact congrArg ([] :: ·) ih
  | case3 c rest hno ih =>
    have hno' : ¬ separator <+: c :: (rest ++ separator ++ v) := by
      rw [separator_prefix_cons]
      rintro ⟨rfl, hblank⟩
      cases rest with
      | nil => simp [separator] at hblank
      | cons d rest =>
        obtain rfl : ' ' = d := (List.cons_prefix_cons.1 hblank).1
        exact hno rest rfl rfl
    rw [List.cons_append, List.cons_append, pieces_cons hno', ih,
      consFirst_append (pieces_ne_nil rest)]

theorem pieces_intercalate {texts : List (List Char)} (h : texts ≠ []) :
    pieces (separator.intercalate texts) = texts.flatMap pieces := by
  induction texts with
  | nil => contradiction
  | cons text texts ih =>
    cases texts with
    | nil => simp
    | cons next texts =>
      rw [List.intercalate_cons_cons, pieces_append_separator, ih (List.cons_ne_nil _ _)]
      rfl

theorem prefix_of_pieces_eq_cons {text piece : List Char} {others : List (List Char)}
    (h : pieces text = piece :: others) : piece <+: text := by
  fun_induction pieces text generalizing piece others with
  | case1 =>
    obtain ⟨rfl, -⟩ := List.cons.inj h
    exact List.prefix_rfl
  | case2 rest _ =>
    obtain ⟨rfl, -⟩ := List.cons.inj h
    exact List.nil_prefix
  | case3 c rest _ ih =>
    cases hp : pieces rest with
    | nil => exact absurd hp (pieces_ne_nil rest)
    | cons first later =>
      rw [hp] at h
      obtain ⟨rfl, -⟩ := List.cons.inj h
      exact List.cons_prefix_cons.2 ⟨rfl, ih hp⟩

theorem not_separator_infix_of_mem_pieces {text piece : List Char} (h : piece ∈ pieces text) :
    ¬ separator <:+: piece := by
  fun_induction pieces text generalizing piece with
  | case1 =>
    rw [List.mem_singleton.1 h]
    simp [separator]
  | case2 rest ih =>
    rcases List.mem_cons.1 h with rfl | h
    · simp [separator]
    · exact ih h
  | case3 c rest hno ih =>
    cases hp : pieces rest with
    | nil => exact absurd hp (pieces_ne_nil rest)
    | cons first later =>
      rw [hp] at h ih
      rcases List.mem_cons.1 h with rfl | h
      · rw [List.infix_cons_iff, separator_prefix_cons]
        rintro (⟨rfl, hblank⟩ | hinside)
        · obtain ⟨rest', hrest⟩ := hblank.trans (prefix_of_pieces_eq_cons hp)
          exact hno rest' rfl hrest.symm
        · exact ih List.mem_cons_self hinside
      · exact ih (List.mem_cons_of_mem _ h)

theorem pieces_of_not_infix {text : List Char} (h : ¬ separator <:+: text) :
    pieces text = [text] := by
  induction text with
  | nil => rfl
  | cons c rest ih =>
    rw [List.infix_cons_iff, not_or] at h
    rw [pieces_cons h.1, ih h.2]
    rfl

-- ---------------------------------------------------------------------------
-- Entries
-- ---------------------------------------------------------------------------

/-- The arrow behind the symbol is the first one in an entry, whatever the
symbol and the production are. -/
theorem parseEntry_entryText (e : Char × Word) : parseEntry (entryText e) = .ok e := by
  obtain ⟨symbol, production⟩ := e
  have hsplit : splitArrow (entryText (symbol, production)) = some ([symbol], production) := by
    simp [entryText, arrow, splitArrow]
  rw [parseEntry, hsplit]

theorem splitArrow_suffix {entry : List Char} {sides : List Char × List Char}
    (h : splitArrow entry = some sides) : sides.2 <:+ entry := by
  fun_induction splitArrow entry generalizing sides with
  | case1 => contradiction
  | case2 rest =>
    obtain rfl := Option.some.inj h
    exact ⟨[' ', '=', '>', ' '], rfl⟩
  | case3 c rest _ ih =>
    obtain ⟨sides, hsides, rfl⟩ := Option.map_eq_some_iff.1 h
    exact (ih hsides).trans (List.suffix_cons c rest)

theorem production_suffix_of_parseEntry {entry : List Char} {e : Char × Word}
    (h : parseEntry entry = .ok e) : e.2 <:+ entry := by
  unfold parseEntry at h
  split at h
  next symbol _ production hsplit =>
    obtain rfl := Except.ok.inj h
    exact splitArrow_suffix hsplit
  next => contradiction

/-- A semicolon for a symbol makes a separator with its arrow. -/
theorem nil_mem_pieces_entryText (production : Word) :
    [] ∈ pieces (entryText (';', production)) := by
  simp [entryText, arrow, pieces]

theorem not_separator_infix_entryText {e : Char × Word} (hsymbol : e.1 ≠ ';')
    (hproduction : ¬ separator <:+: e.2) : ¬ separator <:+: entryText e := by
  simp [entryText, arrow, List.infix_cons_iff, separator_prefix_cons, hsymbol, hproduction]

-- ---------------------------------------------------------------------------
-- Rules
-- ---------------------------------------------------------------------------

theorem of_mapM_eq_ok {ε α β : Type} {f : α → Except ε β} {l : List α} {r : List β}
    (h : l.mapM f = .ok r) :
    (∀ a ∈ l, ∃ b, f a = .ok b) ∧ ∀ b ∈ r, ∃ a ∈ l, f a = .ok b :=
  ⟨exists_mapM_eq_ok_iff.1 ⟨r, h⟩, exists_of_forall₂ (mapM_eq_ok_iff.1 h)⟩

theorem mapM_map_eq_ok {ε α β : Type} {f : α → Except ε β} {g : β → α} (h : ∀ b, f (g b) = .ok b)
    (l : List β) : (l.map g).mapM f = .ok l := by
  rw [mapM_eq_ok_iff, List.forall₂_map_left_iff]
  exact List.forall₂_same.2 fun b _ => h b

theorem parse_eq_ok_iff {text : List Char} {rules : Rules} (h : ¬ text.all Text.isBlank) :
    parse text = .ok rules ↔
      ∃ entries, (pieces text).mapM parseEntry = .ok entries ∧
        SymbolMap.ofList entries = rules := by
  simp only [parse, if_neg h]
  cases (pieces text).mapM parseEntry <;> simp [bind, Except.bind, pure, Except.pure]

theorem format_not_blank {rules : Rules} (h : rules.entries ≠ []) :
    ¬ (format rules).all Text.isBlank := by
  have hequals : '=' ∈ format rules := by
    rw [format]
    cases hentries : rules.entries with
    | nil => contradiction
    | cons e rest =>
      have hfirst : '=' ∈ entryText e := by simp [entryText, arrow]
      cases rest with
      | nil => simpa using hfirst
      | cons => simp [List.intercalate_cons_cons, hfirst]
  intro hblank
  exact absurd (List.all_eq_true.1 hblank '=' hequals) (by decide)

theorem pieces_format {rules : Rules} (h : rules.entries ≠ []) :
    pieces (format rules) = rules.entries.flatMap fun e => pieces (entryText e) := by
  rw [format, pieces_intercalate (by simpa using h), List.flatMap_map]

/-- Rules are read back from their text exactly if no symbol is a semicolon and
no production contains a separator. -/
theorem parse_format_eq_ok_iff (rules : Rules) :
    parse (format rules) = .ok rules ↔
      ∀ e ∈ rules.entries, e.1 ≠ ';' ∧ ¬ separator <:+: e.2 := by
  by_cases hnone : rules.entries = []
  · obtain rfl : rules = SymbolMap.empty := SymbolMap.ext_entries hnone
    exact ⟨fun _ _ he => absurd he List.not_mem_nil, fun _ => rfl⟩
  rw [parse_eq_ok_iff (format_not_blank hnone), pieces_format hnone]
  constructor
  · rintro ⟨entries, hread, hrules⟩ e he
    obtain ⟨hpieces, hentries⟩ := of_mapM_eq_ok hread
    constructor
    · -- the piece in front of the separator is empty, which is no entry
      intro hsymbol
      have hnil : [] ∈ pieces (entryText e) := by
        rw [← Prod.eta e, hsymbol]
        exact nil_mem_pieces_entryText e.2
      obtain ⟨entry, hentry⟩ := hpieces [] (List.mem_flatMap.2 ⟨e, he, hnil⟩)
      contradiction
    · -- the production is a part of a piece
      have hread : e ∈ entries := SymbolMap.mem_of_mem_ofList (hrules ▸ he)
      obtain ⟨piece, hpiece, hentry⟩ := hentries e hread
      obtain ⟨other, -, hpiece⟩ := List.mem_flatMap.1 hpiece
      have hpart := (production_suffix_of_parseEntry hentry).isInfix
      exact fun hinside => not_separator_infix_of_mem_pieces hpiece (hinside.trans hpart)
  · intro hgood
    have htexts : (rules.entries.flatMap fun e => pieces (entryText e)) =
        rules.entries.map entryText := by
      rw [← List.flatMap_pure_eq_map]
      refine List.flatMap_congr fun e he => ?_
      obtain ⟨hsymbol, hproduction⟩ := hgood e he
      exact pieces_of_not_infix (not_separator_infix_entryText hsymbol hproduction)
    refine ⟨rules.entries, ?_, SymbolMap.ofList_entries rules⟩
    rw [htexts, mapM_map_eq_ok parseEntry_entryText]

/-- Arrows and semicolons in productions, blanks and parts of the arrow as
symbols; a production that reads as two rules; a semicolon as a symbol. -/
theorem parse_format_of_arrows_and_semicolons :
    parse (format SymbolMap.empty) = .ok SymbolMap.empty ∧
      (∀ rules, rules = SymbolMap.ofList [(' ', " => ".toList), ('=', "A;".toList), ('>', [])] →
        parse (format rules) = .ok rules) ∧
      (∀ rules, rules = SymbolMap.ofList [('A', "B; C => D".toList)] →
        parse (format rules) ≠ .ok rules) ∧
      ∀ rules, rules = SymbolMap.ofList [('A', "B;".toList), (';', "C".toList)] →
        parse (format rules) ≠ .ok rules := by
  refine ⟨(parse_format_eq_ok_iff _).2 (by decide), ?_, ?_, ?_⟩
  · rintro rules rfl
    exact (parse_format_eq_ok_iff _).2 (by decide)
  · rintro rules rfl hread
    have hgood := (parse_format_eq_ok_iff _).1 hread ('A', "B; C => D".toList) (by decide)
    exact hgood.2 ⟨['B'], "C => D".toList, rfl⟩
  · rintro rules rfl hread
    have hgood := (parse_format_eq_ok_iff _).1 hread (';', "C".toList) (by decide)
    exact hgood.1 rfl

end FractalCurve.Rules
