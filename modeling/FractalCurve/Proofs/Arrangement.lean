import FractalCurve.Proofs.Reading
import FractalCurve.Proofs.Traversal
import Mathlib.Data.List.Forall2
import Mathlib.Data.List.Nodup

/-!
# Objects in any arrangement

The object written for a record may be rearranged: its members put in another
order, members that stand for a default left out, foreign members added.
`takes_arrangement`: the record's reader gets the same out of all of them.

While such an object is read, what is in the draft depends only on the fields
that have been given by then. `Record.Drafts` says so for a record, with the
draft as a function of the names of those fields.
-/

namespace FractalCurve.Json

/-- A member that is written for a record. -/
structure Entry where
  name : String
  /-- The tokens that may stand for the value. -/
  Value : List Token → Prop
  /-- Reading has the same result without the member. -/
  omissible : Prop
  isValue : ∀ {ts}, Value ts → IsValue ts

def Entry.ofJson (name : String) (j : Json) (omissible : Prop) : Entry where
  name := name
  Value ts := ts = j.written
  omissible := omissible
  isValue := by
    rintro ts rfl
    exact j.isValue_written

def Member.IsNamed (m : Member) (name : List Char) : Prop := closedString m.name = .ok name

theorem Member.IsNamed.unique {m : Member} {name name' : List Char} (h : m.IsNamed name)
    (h' : m.IsNamed name') : name = name' :=
  Except.ok.inj (h.symm.trans h')

/-- The member is one that may be written for the entry. -/
structure Entry.Writes (e : Entry) (m : Member) : Prop where
  isNamed : m.IsNamed e.name.toList
  value : e.Value m.value

/-- A member that has nothing to do with the entries. -/
structure Foreign (entries : List Entry) (m : Member) : Prop where
  isValue : IsValue m.value
  isNamed : ∃ name, m.IsNamed name ∧ ∀ e ∈ entries, e.name.toList ≠ name

/-- The members that can be made from those written for the entries. -/
inductive Arranged (entries : List Entry) : List Member → Prop
  | all {members : List Member} (h : List.Forall₂ Entry.Writes entries members) :
    Arranged entries members
  | reorder {members members' : List Member} (h : Arranged entries members)
      (hperm : members.Perm members') : Arranged entries members'
  | leaveOut {e : Entry} {m : Member} {members : List Member} (h : Arranged entries (m :: members))
      (he : e ∈ entries) (hm : m.IsNamed e.name.toList) (homissible : e.omissible) :
      Arranged entries members
  | add {m : Member} {members : List Member} (h : Arranged entries members)
      (hm : Foreign entries m) : Arranged entries (m :: members)

/-- The tokens of an object of such members. -/
def Arrangement (entries : List Entry) (ts : List Token) : Prop :=
  ∃ members, Arranged entries members ∧ ts = objectTokens members

variable {entries : List Entry} {members : List Member}

def namedMember (m : String × Json) : Member := writtenMember (m.1.toList, m.2)

theorem Arranged.written {members : List (String × Json)}
    (h : List.Forall₂ (fun e m => e.name = m.1 ∧ e.Value m.2.written) entries members) :
    Arranged entries (members.map namedMember) := by
  refine .all (List.forall₂_map_right_iff.2 (h.imp fun e m hm => ?_))
  exact ⟨hm.1 ▸ closedString_map_stringPart _, hm.2⟩

theorem Arranged.ofMembers {members : List (String × Json)}
    (h : Arranged entries (members.map namedMember)) :
    Arrangement entries (ofMembers members).written := by
  refine ⟨_, h, ?_⟩
  rw [Json.ofMembers, written_object, List.map_map]
  rfl

theorem foreign_namedMember {m : String × Json} (h : m.1 ∉ entries.map Entry.name) :
    Foreign entries (namedMember m) := by
  refine ⟨m.2.isValue_written, _, closedString_map_stringPart _, fun e he heq => h ?_⟩
  exact String.toList_inj.1 heq ▸ List.mem_map_of_mem he

-- ---------------------------------------------------------------------------
-- What an arrangement keeps
-- ---------------------------------------------------------------------------

/-- No two of the members have a name in common. -/
theorem pairwise_isNamed (h : List.Forall₂ Entry.Writes entries members)
    (hdistinct : (entries.map Entry.name).Nodup) :
    members.Pairwise fun m m' => ∀ name, m.IsNamed name → ¬ m'.IsNamed name := by
  induction h with
  | nil => exact .nil
  | @cons e m entries members hm hmembers ih =>
    obtain ⟨hfirst, hdistinct⟩ := List.nodup_cons.1 hdistinct
    refine .cons (fun m' hm' name hname hname' => hfirst ?_) (ih hdistinct)
    obtain ⟨e', he', hwrites⟩ := exists_of_forall₂ hmembers m' hm'
    rw [String.toList_inj.1 ((hm.isNamed.unique hname).trans (hname'.unique hwrites.isNamed))]
    exact List.mem_map_of_mem he'

theorem Foreign.not_isNamed {m : Member} (h : Foreign entries m) :
    ∀ e ∈ entries, ¬ m.IsNamed e.name.toList := by
  intro e he hname
  obtain ⟨name, hm, hforeign⟩ := h.isNamed
  exact hforeign e he (hname.unique hm)

namespace Arranged

theorem writes_or_foreign (h : Arranged entries members) :
    ∀ m ∈ members, (∃ e ∈ entries, e.Writes m) ∨ Foreign entries m := by
  induction h with
  | all h => exact fun m hm => .inl (exists_of_forall₂ h m hm)
  | reorder _ hperm ih => exact fun m hm => ih m (hperm.mem_iff.2 hm)
  | leaveOut _ _ _ _ ih => exact fun m hm => ih m (List.mem_cons_of_mem _ hm)
  | add _ hm ih => exact List.forall_mem_cons.2 ⟨.inr hm, ih⟩

/-- No entry is given twice. -/
theorem once (h : Arranged entries members) (hdistinct : (entries.map Entry.name).Nodup) :
    members.Pairwise fun m m' =>
      ∀ e ∈ entries, m.IsNamed e.name.toList → ¬ m'.IsNamed e.name.toList := by
  induction h with
  | all h =>
    have hpairwise := pairwise_isNamed h hdistinct
    exact hpairwise.imp fun hnames (e : Entry) _ => hnames e.name.toList
  | reorder _ hperm ih =>
    exact ih.perm hperm fun hnames e he hname hname' => hnames e he hname' hname
  | leaveOut _ _ _ _ ih => exact ih.tail
  | add _ hm ih =>
    exact .cons (fun _ _ (e : Entry) he hname => absurd hname (hm.not_isNamed e he)) ih

theorem given (h : Arranged entries members) (hdistinct : (entries.map Entry.name).Nodup) :
    ∀ e ∈ entries, e.omissible ∨ ∃ m ∈ members, m.IsNamed e.name.toList := by
  induction h with
  | all h =>
    intro e he
    obtain ⟨m, hm, hwrites⟩ := exists_of_forall₂ h.flip e he
    exact .inr ⟨m, hm, hwrites.isNamed⟩
  | reorder _ hperm ih =>
    intro e he
    refine (ih e he).imp_right ?_
    rintro ⟨m, hm, hname⟩
    exact ⟨m, hperm.mem_iff.1 hm, hname⟩
  | leaveOut _ hleft hm homissible ih =>
    intro e he
    rcases ih e he with hkept | ⟨m', hm', hname⟩
    · exact .inl hkept
    · rcases List.mem_cons.1 hm' with rfl | hm'
      · have hsame := String.toList_inj.1 (hname.unique hm)
        have heq := List.inj_on_of_nodup_map hdistinct he hleft hsame
        exact .inl (heq ▸ homissible)
      · exact .inr ⟨m', hm', hname⟩
  | add _ _ ih =>
    intro e he
    refine (ih e he).imp_right ?_
    rintro ⟨m, hm, hname⟩
    exact ⟨m, List.mem_cons_of_mem _ hm, hname⟩

end Arranged

theorem Arrangement.isValue {ts : List Token} (h : Arrangement entries ts) : IsValue ts := by
  obtain ⟨members, harranged, rfl⟩ := h
  refine .object fun m hm => ?_
  rcases harranged.writes_or_foreign m hm with ⟨e, -, hwrites⟩ | hforeign
  · exact e.isValue hwrites.value
  · exact hforeign.isValue

-- ---------------------------------------------------------------------------
-- Reading an arrangement
-- ---------------------------------------------------------------------------

/-- The value of a field, once the field has been given. -/
def valueIn {β : Type} (given : List String) (name : String) (b : β) : Option β :=
  if name ∈ given then some b else none

section

variable {β : Type} {given : List String} {name : String} {b : β}

theorem valueIn_of_mem (h : name ∈ given) : valueIn given name b = some b := if_pos h

theorem getD_valueIn {default : β} (h : b = default ∨ name ∈ given) :
    (valueIn given name b).getD default = b := by
  rcases h with rfl | h
  · unfold valueIn
    split <;> rfl
  · rw [valueIn_of_mem h]
    rfl

end

section

variable {α β δ : Type} {r : Record δ α} {draft : List String → δ} {a : α}

/-- There is a field for the entry, which takes the draft without the entry to
the draft with it. -/
def Record.Receives (r : Record δ α) (draft : List String → δ) (e : Entry) : Prop :=
  ∃ f, (r.fields.find? fun f => f.name = e.name.toList) = some f ∧
    ∀ given, e.name ∉ given → f.isSet (draft given) = false ∧
      ∀ ts, e.Value ts → (f.read (draft given)).Takes ts (.ok (draft (e.name :: given)))

/-- A field that sets its own part of the draft. -/
theorem Record.Receives.of {e : Entry} {read : Reader β} {get : δ → Option β} {set : δ → β → δ}
    {b : β} (name : String) (hname : e.name = name)
    (hfield : (r.fields.find? fun f => f.name = name.toList) = some (.of name read get set))
    (hget : ∀ given, get (draft given) = valueIn given name b)
    (hset : ∀ given, set (draft given) b = draft (name :: given))
    (hread : ∀ ts, e.Value ts → read.Takes ts (.ok b)) : r.Receives draft e := by
  subst hname
  refine ⟨_, hfield, fun given hnew => ⟨?_, fun ts hts => ?_⟩⟩
  · have hunset : get (draft given) = none := (hget given).trans (if_neg hnew)
    simp [Field.of, hunset]
  · have htakes := (hread ts hts).map (set (draft given))
    rw [← hset]
    exact htakes

/-- The drafts in which the fields of these names have been given, on the way to
the value. -/
structure Record.Drafts (r : Record δ α) (entries : List Entry)
    (draft : List String → δ) (a : α) : Prop where
  distinct : (entries.map Entry.name).Nodup
  blank : draft [] = r.blank
  receives : ∀ e ∈ entries, r.Receives draft e
  names : r.fields.map Field.name = entries.map fun e => e.name.toList
  finish : ∀ given, (∀ e ∈ entries, e.omissible ∨ e.name ∈ given) →
    r.finish (draft given) = some a

theorem Record.Drafts.find?_foreign (h : r.Drafts entries draft a) {name : List Char}
    (hname : ∀ e ∈ entries, e.name.toList ≠ name) :
    (r.fields.find? fun f => f.name = name) = none := by
  refine List.find?_eq_none.2 fun f hf => ?_
  have hmem : f.name ∈ entries.map fun e => e.name.toList := h.names ▸ List.mem_map_of_mem hf
  obtain ⟨e, he, heq⟩ := List.mem_map.1 hmem
  simpa [← heq] using hname e he

theorem Record.Drafts.collects (h : r.Drafts entries draft a)
    (hmembers : ∀ m ∈ members, (∃ e ∈ entries, e.Writes m) ∨ Foreign entries m)
    (honce : members.Pairwise fun m m' =>
      ∀ e ∈ entries, m.IsNamed e.name.toList → ¬ m'.IsNamed e.name.toList)
    {given : List String} (hgiven : ∀ m ∈ members, ∀ name ∈ given, ¬ m.IsNamed name.toList) :
    ∃ given', r.Collects (draft given) members (.ok (draft given')) ∧ given ⊆ given' ∧
      ∀ m ∈ members, ∀ e ∈ entries, m.IsNamed e.name.toList → e.name ∈ given' := by
  -- Each member of an entry adds a name to those given, which the later ones must not have.
  induction members generalizing given with
  | nil => exact ⟨given, .nil _, List.Subset.refl _, List.forall_mem_nil _⟩
  | cons m members ih =>
    obtain ⟨hm, hmembers⟩ := List.forall_mem_cons.1 hmembers
    obtain ⟨hfirst, honce⟩ := List.pairwise_cons.1 honce
    obtain ⟨hnew, hgiven⟩ := List.forall_mem_cons.1 hgiven
    rcases hm with ⟨e, he, hwrites⟩ | hforeign
    · have hgiven' : ∀ m' ∈ members, ∀ name ∈ e.name :: given, ¬ m'.IsNamed name.toList := by
        intro m' hm'
        exact List.forall_mem_cons.2 ⟨hfirst m' hm' e he hwrites.isNamed, hgiven m' hm'⟩
      obtain ⟨given', hcollects, hsubset, hnamed⟩ := ih hmembers honce hgiven'
      obtain ⟨hhead, hsubset⟩ := List.cons_subset.1 hsubset
      obtain ⟨f, hfield, hf⟩ := h.receives e he
      obtain ⟨hunset, hread⟩ := hf given fun hin => hnew _ hin hwrites.isNamed
      refine ⟨given', ?_, hsubset, List.forall_mem_cons.2 ⟨fun e' _ hname => ?_, hnamed⟩⟩
      · exact .cons hwrites.isNamed hfield hunset (hread _ hwrites.value) hcollects
      · rwa [String.toList_inj.1 (hname.unique hwrites.isNamed)]
    · obtain ⟨given', hcollects, hsubset, hnamed⟩ := ih hmembers honce hgiven
      obtain ⟨name, hname, hother⟩ := hforeign.isNamed
      refine ⟨given', ?_, hsubset, List.forall_mem_cons.2 ⟨fun e he hown => ?_, hnamed⟩⟩
      · exact .foreign hname (h.find?_foreign hother) hforeign.isValue hcollects
      · exact absurd hown (hforeign.not_isNamed e he)

theorem takes_arrangement (h : r.Drafts entries draft a) {ts : List Token}
    (hts : Arrangement entries ts) : r.reader.Takes ts (.ok a) := by
  obtain ⟨members, harranged, rfl⟩ := hts
  have hnone : ∀ m ∈ members, ∀ name ∈ ([] : List String), ¬ m.IsNamed name.toList :=
    fun _ _ => List.forall_mem_nil _
  obtain ⟨given, hcollects, -, hnamed⟩ :=
    h.collects harranged.writes_or_foreign (harranged.once h.distinct) hnone
  rw [h.blank] at hcollects
  have hfinish : r.finish (draft given) = some a := by
    refine h.finish given fun e he => (harranged.given h.distinct e he).imp_right ?_
    rintro ⟨m, hm, hname⟩
    exact hnamed m hm e he hname
  refine takes_record hcollects ?_
  show r.finished (draft given) = .ok a
  rw [Record.finished, hfinish]

end

end FractalCurve.Json
