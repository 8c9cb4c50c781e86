/-!
# Maps on symbols

A map from characters to values, kept as a list of entries in strictly
ascending order. The order makes the representation unique: two maps with the
same entries are the same map, and reading the entries out in order needs no
sorting.
-/

namespace FractalCurve

structure SymbolMap (α : Type) where
  entries : List (Char × α)
  sorted : entries.Pairwise (fun a b => a.1 < b.1)

namespace SymbolMap

variable {α : Type}

instance [BEq α] : BEq (SymbolMap α) := ⟨fun m n => m.entries == n.entries⟩

theorem ext_entries {m n : SymbolMap α} (h : m.entries = n.entries) : m = n := by
  cases m; cases n; simp_all

instance [DecidableEq α] : DecidableEq (SymbolMap α) := fun m n =>
  decidable_of_iff (m.entries = n.entries) ⟨ext_entries, fun h => by rw [h]⟩

def empty : SymbolMap α := ⟨[], List.Pairwise.nil⟩

def find? (m : SymbolMap α) (symbol : Char) : Option α :=
  (m.entries.find? fun e => e.1 = symbol).map (·.2)

/-- The new entry stands before the first larger symbol, in place of an equal
one. -/
def insertEntry (symbol : Char) (value : α) : List (Char × α) → List (Char × α)
  | [] => [(symbol, value)]
  | (k, v) :: rest =>
    if symbol < k then (symbol, value) :: (k, v) :: rest
    else if symbol = k then (symbol, value) :: rest
    else (k, v) :: insertEntry symbol value rest

theorem mem_insertEntry {symbol : Char} {value : α} {entries : List (Char × α)}
    {e : Char × α} (h : e ∈ insertEntry symbol value entries) :
    e = (symbol, value) ∨ e ∈ entries := by
  induction entries with
  | nil => simp_all [insertEntry]
  | cons head rest ih =>
    simp only [insertEntry] at h
    split at h
    · simpa using h
    · split at h
      · rcases List.mem_cons.1 h with h | h
        · exact .inl h
        · exact .inr (List.mem_cons_of_mem _ h)
      · rcases List.mem_cons.1 h with h | h
        · exact .inr (h ▸ List.mem_cons_self)
        · exact (ih h).imp_right (List.mem_cons_of_mem _)

theorem lt_of_not_lt {a b : Char} (h : ¬ a < b) (hne : a ≠ b) : b < a :=
  Decidable.byContradiction fun hn => hne (Char.le_antisymm (Char.not_lt.1 hn) (Char.not_lt.1 h))

theorem insertEntry_sorted {symbol : Char} {value : α} {entries : List (Char × α)}
    (h : entries.Pairwise (fun a b => a.1 < b.1)) :
    (insertEntry symbol value entries).Pairwise (fun a b => a.1 < b.1) := by
  induction entries with
  | nil => simp [insertEntry]
  | cons head rest ih =>
    obtain ⟨hhead, hrest⟩ := List.pairwise_cons.1 h
    simp only [insertEntry]
    split
    next hlt =>
      refine List.pairwise_cons.2 ⟨fun e he => ?_, h⟩
      rcases List.mem_cons.1 he with rfl | he
      · exact hlt
      · exact Char.lt_trans hlt (hhead e he)
    next hnlt =>
      split
      next heq => exact List.pairwise_cons.2 ⟨fun e he => heq ▸ hhead e he, hrest⟩
      next hne =>
        refine List.pairwise_cons.2 ⟨fun e he => ?_, ih hrest⟩
        rcases mem_insertEntry he with rfl | he
        · exact lt_of_not_lt hnlt hne
        · exact hhead e he

def insert (m : SymbolMap α) (symbol : Char) (value : α) : SymbolMap α :=
  ⟨insertEntry symbol value m.entries, insertEntry_sorted m.sorted⟩

def filter (m : SymbolMap α) (keep : α → Bool) : SymbolMap α :=
  ⟨m.entries.filter fun e => keep e.2, m.sorted.filter _⟩

/-- Inserts the entries one after the other into a map, so later ones win. -/
def insertAll (m : SymbolMap α) (entries : List (Char × α)) : SymbolMap α :=
  entries.foldl (fun m e => m.insert e.1 e.2) m

def ofList (entries : List (Char × α)) : SymbolMap α := empty.insertAll entries

@[simp] theorem find?_empty (symbol : Char) : (empty : SymbolMap α).find? symbol = none := rfl

@[simp] theorem find?_insert (m : SymbolMap α) (symbol : Char) (value : α) (c : Char) :
    (m.insert symbol value).find? c = if c = symbol then some value else m.find? c := by
  suffices h : ∀ entries : List (Char × α),
      ((insertEntry symbol value entries).find? fun e => e.1 = c).map (·.2) =
        if c = symbol then some value else (entries.find? fun e => e.1 = c).map (·.2) from
    h m.entries
  intro entries
  induction entries with
  | nil => by_cases h : c = symbol <;> simp [insertEntry, h, Ne.symm]
  | cons head rest ih =>
    simp only [insertEntry]
    split
    · by_cases h : c = symbol <;> simp [List.find?_cons, h, Ne.symm]
    · split
      next heq =>
        by_cases h : c = symbol <;> grind
      next hne =>
        by_cases h : c = symbol <;> grind

theorem find?_insertAll_const (m : SymbolMap α) (symbols : List Char) (value : α) (c : Char) :
    (m.insertAll (symbols.map fun s => (s, value))).find? c =
      if c ∈ symbols then some value else m.find? c := by
  induction symbols generalizing m with
  | nil => rfl
  | cons symbol rest ih =>
    simp only [insertAll, List.map_cons, List.foldl_cons] at ih ⊢
    rw [ih, find?_insert]
    by_cases hr : c ∈ rest <;> simp [hr]

theorem find?_eq_some_iff (m : SymbolMap α) (c : Char) (value : α) :
    m.find? c = some value ↔ (c, value) ∈ m.entries := by
  obtain ⟨entries, sorted⟩ := m
  simp only [find?]
  induction entries with
  | nil => simp
  | cons head rest ih =>
    obtain ⟨hhead, hrest⟩ := List.pairwise_cons.1 sorted
    by_cases h : head.1 = c
    · have hout : (c, value) ∉ rest := fun hm => by
        have hlt := hhead _ hm
        exact Char.lt_irrefl c (h ▸ hlt)
      subst h
      simp only [List.find?_cons, decide_true, Option.map_some, Option.some.injEq,
        List.mem_cons, hout, or_false]
      exact ⟨fun hv => hv ▸ rfl, fun hv => by rw [← hv]⟩
    · have hne : (c, value) ≠ head := fun hv => h (by rw [← hv])
      simp [h, hne, ih hrest]

@[simp] theorem find?_filter (m : SymbolMap α) (keep : α → Bool) (c : Char) :
    (m.filter keep).find? c = (m.find? c).filter keep := by
  ext value
  simp [find?_eq_some_iff, Option.filter_eq_some_iff, filter]

theorem insertEntry_of_forall_lt {symbol : Char} {value : α} {entries : List (Char × α)}
    (h : ∀ e ∈ entries, e.1 < symbol) :
    insertEntry symbol value entries = entries ++ [(symbol, value)] := by
  induction entries with
  | nil => rfl
  | cons head rest ih =>
    obtain ⟨hhead, hrest⟩ := List.forall_mem_cons.1 h
    have hne : symbol ≠ head.1 := fun heq => Char.lt_irrefl _ (heq ▸ hhead)
    rw [insertEntry, if_neg (Char.lt_asymm hhead), if_neg hne, ih hrest]
    rfl

theorem entries_insertAll_of_sorted {m : SymbolMap α} {entries : List (Char × α)}
    (h : (m.entries ++ entries).Pairwise fun a b => a.1 < b.1) :
    (m.insertAll entries).entries = m.entries ++ entries := by
  induction entries generalizing m with
  | nil => exact (List.append_nil _).symm
  | cons e rest ih =>
    have hlast : ∀ a ∈ m.entries, a.1 < e.1 := fun a ha =>
      (List.pairwise_append.1 h).2.2 a ha e List.mem_cons_self
    have hinsert : (m.insert e.1 e.2).entries = m.entries ++ [e] := insertEntry_of_forall_lt hlast
    show ((m.insert e.1 e.2).insertAll rest).entries = _
    rw [ih (by rwa [hinsert, List.append_assoc]), hinsert, List.append_assoc]
    rfl

/-- A map is built again from its entries. -/
theorem ofList_entries (m : SymbolMap α) : ofList m.entries = m :=
  ext_entries (entries_insertAll_of_sorted m.sorted)

theorem mem_insertAll {m : SymbolMap α} {entries : List (Char × α)} {e : Char × α}
    (h : e ∈ (m.insertAll entries).entries) : e ∈ m.entries ∨ e ∈ entries := by
  induction entries generalizing m with
  | nil => exact .inl h
  | cons head rest ih =>
    rcases ih (m := m.insert head.1 head.2) h with h | h
    · rcases mem_insertEntry h with rfl | h
      · exact .inr List.mem_cons_self
      · exact .inl h
    · exact .inr (List.mem_cons_of_mem _ h)

theorem mem_of_mem_ofList {entries : List (Char × α)} {e : Char × α}
    (h : e ∈ (ofList entries).entries) : e ∈ entries :=
  (mem_insertAll h).resolve_left List.not_mem_nil

theorem nodup_keys (m : SymbolMap α) : (m.entries.map (·.1)).Nodup :=
  List.pairwise_map.2 (m.sorted.imp Char.ne_of_lt)

theorem find?_insertAll_of_forall_ne {m : SymbolMap α} {entries : List (Char × α)} {c : Char}
    (h : ∀ e ∈ entries, e.1 ≠ c) : (m.insertAll entries).find? c = m.find? c := by
  induction entries generalizing m with
  | nil => rfl
  | cons head rest ih =>
    obtain ⟨hhead, hrest⟩ := List.forall_mem_cons.1 h
    have hinsert : (m.insert head.1 head.2).find? c = m.find? c := by
      rw [find?_insert, if_neg (Ne.symm hhead)]
    exact (ih (m := m.insert head.1 head.2) hrest).trans hinsert

theorem find?_insertAll_of_mem {m : SymbolMap α} {entries : List (Char × α)}
    (hkeys : (entries.map (·.1)).Nodup) {c : Char} {value : α} (h : (c, value) ∈ entries) :
    (m.insertAll entries).find? c = some value := by
  induction entries generalizing m with
  | nil => exact absurd h List.not_mem_nil
  | cons head rest ih =>
    obtain ⟨hhead, hrest⟩ := List.nodup_cons.1 hkeys
    rcases List.mem_cons.1 h with rfl | h
    · have hlater : ∀ e ∈ rest, e.1 ≠ c := fun e he heq => hhead (List.mem_map.2 ⟨e, he, heq⟩)
      have hinsert : (m.insert c value).find? c = some value := by rw [find?_insert, if_pos rfl]
      exact (find?_insertAll_of_forall_ne (m := m.insert c value) hlater).trans hinsert
    · exact ih hrest h

/-- Entries of different symbols do not replace each other. -/
theorem find?_ofList_eq_some_iff {entries : List (Char × α)} (hkeys : (entries.map (·.1)).Nodup)
    {c : Char} {value : α} : (ofList entries).find? c = some value ↔ (c, value) ∈ entries :=
  ⟨fun h => mem_of_mem_ofList ((find?_eq_some_iff _ c value).1 h), find?_insertAll_of_mem hkeys⟩

/-- Lookup tells maps apart. -/
theorem ext_find? {m n : SymbolMap α} (h : ∀ c, m.find? c = n.find? c) : m = n := by
  refine ext_entries (List.Perm.eq_of_pairwise ?_ m.sorted n.sorted ?_)
  · exact fun a b _ _ hab hba => absurd hab (Char.lt_asymm hba)
  · refine (List.perm_ext_iff_of_nodup (m.sorted.imp ?_) (n.sorted.imp ?_)).2 fun e => ?_
    · exact fun h he => Char.lt_irrefl _ (he ▸ h)
    · exact fun h he => Char.lt_irrefl _ (he ▸ h)
    · rw [← find?_eq_some_iff, ← find?_eq_some_iff, h]

end SymbolMap

end FractalCurve
