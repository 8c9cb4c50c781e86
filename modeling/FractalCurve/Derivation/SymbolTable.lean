/-!
# Symbol tables

Names numbered in the order of their first use. The number of a name is its place,
so distinct names have distinct numbers.
-/

namespace FractalCurve

/-- The place of a name is its number. -/
structure SymbolTable where
  names : List String
  nodup : names.Nodup

namespace SymbolTable

def empty : SymbolTable := ⟨[], List.nodup_nil⟩

def resolve? (t : SymbolTable) (name : String) : Option Nat := t.names.idxOf? name

/-- A new name goes to the end. -/
def intern (t : SymbolTable) (name : String) : SymbolTable :=
  if h : name ∈ t.names then t
  else
    ⟨t.names ++ [name],
      List.nodup_append.2 ⟨t.nodup, by simp, fun a ha b hb => by
        rw [List.mem_singleton] at hb; exact hb ▸ fun hab => h (hab ▸ ha)⟩⟩

theorem resolve?_eq_some_iff (t : SymbolTable) (name : String) (symbol : Nat) :
    t.resolve? name = some symbol ↔ t.names[symbol]? = some name := by
  obtain ⟨names, nodup⟩ := t
  simp only [resolve?]
  induction names generalizing symbol with
  | nil => simp
  | cons head rest ih =>
    obtain ⟨hhead, hrest⟩ := List.nodup_cons.1 nodup
    by_cases h : head = name
    · subst h
      cases symbol with
      | zero => simp [List.idxOf?_cons]
      | succ n =>
        simp only [List.idxOf?_cons, beq_self_eq_true, if_true, List.getElem?_cons_succ]
        constructor
        · intro hn; simp at hn
        · intro hn; exact absurd (List.mem_of_getElem? hn) hhead
    · cases symbol with
      | zero => simp [List.idxOf?_cons, h]
      | succ n => simp [List.idxOf?_cons, h, ih n hrest]

end SymbolTable

end FractalCurve
