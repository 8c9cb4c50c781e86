import FractalCurve.Json.Record
import FractalCurve.Proofs.Tokens
import FractalCurve.Proofs.WrittenFloats

/-!
# Reading written values

`Reader.Takes` says what a reader makes of some tokens: it takes them and no
more. `Reader.Yields` says it of the tokens that are written for a value. There
is one lemma for each reader, and for records a relation between the members of
an object, foreign ones among them, and what they leave in the draft.

Only a float need not survive. `Rereads` says what may become of a value, given
the floats in it.
-/

namespace FractalCurve.Json

open Number

variable {α β : Type}

-- ---------------------------------------------------------------------------
-- Outcomes
-- ---------------------------------------------------------------------------

/-- There is a result under the condition, and the text is unsuitable
otherwise. -/
structure SuitableIff (result : Except Fault α) (condition : Prop) : Prop where
  ok : condition → ∃ a, result = .ok a
  unsuitable : ¬ condition → result = .error .unsuitable

namespace SuitableIff

theorem exists_ok_iff {result : Except Fault α} {condition : Prop}
    (h : SuitableIff result condition) : (∃ a, result = .ok a) ↔ condition := by
  refine ⟨fun ⟨a, ha⟩ => Classical.byContradiction fun hnot => ?_, h.ok⟩
  cases ha.symm.trans (h.unsuitable hnot)

theorem bind {result : Except Fault α} {next : α → Except Fault β} {p q : Prop}
    (h : SuitableIff result p) (hnext : ∀ a, SuitableIff (next a) q) :
    SuitableIff (result >>= next) (p ∧ q) := by
  refine ⟨fun ⟨hp, hq⟩ => ?_, fun hnot => ?_⟩
  · obtain ⟨a, rfl⟩ := h.ok hp
    exact (hnext a).ok hq
  · by_cases hp : p
    · obtain ⟨a, rfl⟩ := h.ok hp
      exact (hnext a).unsuitable fun hq => hnot ⟨hp, hq⟩
    · rw [h.unsuitable hp]
      rfl

theorem map {result : Except Fault α} {p : Prop} (h : SuitableIff result p) (f : α → β) :
    SuitableIff (result.map f) p := by
  refine ⟨fun hp => ?_, fun hnot => ?_⟩
  · obtain ⟨a, rfl⟩ := h.ok hp
    exact ⟨f a, rfl⟩
  · rw [h.unsuitable hnot]
    rfl

end SuitableIff

/-- The reader takes these tokens and no more, with this result. -/
def Reader.Takes (read : Reader α) (ts : List Token) (result : Except Fault α) : Prop :=
  ∀ rest, read (ts ++ rest) = result.map fun a => (a, rest)

/-- The reader takes exactly the tokens of the value, with this result. -/
def Reader.Yields (read : Reader α) (j : Json) (result : Except Fault α) : Prop :=
  read.Takes j.written result

theorem Reader.Takes.map {read : Reader α} {ts : List Token} {result : Except Fault α}
    (h : read.Takes ts result) (f : α → β) : (read.map f).Takes ts (result.map f) := by
  intro rest
  simp only [Reader.map, h rest]
  cases result <;> rfl

theorem Reader.Takes.ofText {read : Reader α} {ts : List Token} {result : Except Fault α}
    (h : read.Takes ts result) {text : List Char} (htext : tokens text = ts) :
    read.ofText text = result := by
  have hread := h []
  rw [List.append_nil] at hread
  simp only [Reader.ofText, htext, hread]
  cases result <;> rfl

-- ---------------------------------------------------------------------------
-- Strings, words and numbers
-- ---------------------------------------------------------------------------

theorem yields_string (s : List Char) : Reader.string.Yields (.string s) (.ok s) := by
  intro rest
  simp only [written, List.singleton_append, Reader.string, closedString_map_stringPart]
  rfl

theorem yields_bool (b : Bool) : Reader.bool.Yields (.bool b) (.ok b) := by
  intro rest
  simp only [written]
  rfl

theorem yields_uint32 (n : UInt32) : Reader.uint32.Yields (.ofNat n.toNat) (.ok n) := by
  have hlt : n.toNat < twoPow 32 := n.toNat_lt
  have hvalue := numberValue_ofNat (Nat.lt_trans hlt (by decide))
  have hsize : (NumberValue.natural n.toNat.toUInt64).toUInt32? = some n := by
    have hnat : n.toNat.toUInt64.toNat = n.toNat := Nat.mod_eq_of_lt (Nat.lt_trans hlt (by decide))
    simp only [NumberValue.toUInt32?, hnat, if_pos hlt]
    refine congrArg some (UInt32.toNat_inj.1 ?_)
    simp
  intro rest
  simp only [ofNat, written, List.singleton_append, Reader.uint32, hvalue, bind, Except.bind, hsize]
  rfl

/-- A float after it has been written and read. -/
def rereadFloat (x : Float32) : Except Fault Float32 := Reader.float32.ofText (ofFloat x).compact

theorem yields_float32_number (n : Numeral) :
    Reader.float32.Yields (.number n) ((numberValue n).map NumberValue.toFloat32) := by
  intro rest
  simp only [written, List.singleton_append, Reader.float32]
  cases numberValue n <;> rfl

theorem yields_float32_null : Reader.float32.Yields .null (.error .unsuitable) := by
  intro rest
  simp only [written]
  rfl

theorem wellFormed_ofNat (n : Nat) : (Json.ofNat n).WellFormed :=
  .number (Numeral.wellFormed_ofNat n)

theorem wellFormed_ofFloat (x : Float32) : (ofFloat x).WellFormed := by
  rcases ofFloat_cases x with ⟨-, h⟩ | ⟨-, n, hn, h⟩
  · exact h ▸ .null
  · exact h ▸ .number hn.toWellFormed

theorem rereadFloat_eq {x : Float32} {result : Except Fault Float32}
    (h : Reader.float32.Yields (.ofFloat x) result) : rereadFloat x = result :=
  h.ofText (tokens_compact (wellFormed_ofFloat x))

theorem rereadFloat_of_number {x : Float32} {n : Numeral} (h : ofFloat x = .number n) :
    rereadFloat x = (numberValue n).map NumberValue.toFloat32 :=
  rereadFloat_eq (h ▸ yields_float32_number n)

theorem rereadFloat_of_null {x : Float32} (h : ofFloat x = .null) :
    rereadFloat x = .error .unsuitable :=
  rereadFloat_eq (h ▸ yields_float32_null)

theorem yields_float32 (x : Float32) : Reader.float32.Yields (.ofFloat x) (rereadFloat x) := by
  rcases ofFloat_cases x with ⟨-, h⟩ | ⟨-, n, -, h⟩
  · rw [rereadFloat_of_null h, h]
    exact yields_float32_null
  · rw [rereadFloat_of_number h, h]
    exact yields_float32_number n

theorem suitableIff_rereadFloat (x : Float32) : SuitableIff (rereadFloat x) x.isFinite := by
  rcases ofFloat_cases x with ⟨hx, h⟩ | ⟨hx, n, hn, h⟩
  · rw [rereadFloat_of_null h, hx]
    exact ⟨nofun, fun _ => rfl⟩
  · obtain ⟨value, hvalue⟩ := exists_numberValue hn
    rw [rereadFloat_of_number h, hvalue, hx]
    exact ⟨fun _ => ⟨_, rfl⟩, fun hnot => absurd rfl hnot⟩

/-- The numeral written for the float reads back as the same float. -/
def ReadsBack (x : Float32) : Prop := rereadFloat x = .ok x

theorem readsBack_iff (x : Float32) :
    ReadsBack x ↔
      ((finite32 x).bind fun v => (numberValue (floatStyle.numeral v)).toOption).map
        NumberValue.toFloat32 = some x := by
  unfold ReadsBack
  cases h : finite32 x with
  | none =>
    have hfloat : ofFloat x = .null := by simp [ofFloat, h]
    simp [rereadFloat_of_null hfloat]
  | some v =>
    have hfloat : ofFloat x = .number (floatStyle.numeral v) := by simp [ofFloat, h]
    rw [rereadFloat_of_number hfloat, Option.bind_some]
    cases numberValue (floatStyle.numeral v) with
    | error fault => simp [Except.map, Except.toOption]
    | ok value => simp [Except.map, Except.toOption]

instance : DecidablePred ReadsBack := fun x => decidable_of_iff _ (readsBack_iff x).symm

/-- What may become of a value that has been written and read, if these are the
floats in it: it is unsuitable if one of them is infinite or NaN, and the same
if all read back. -/
structure Rereads (a : α) (floats : List Float32) (result : Except Fault α) : Prop where
  suitable : SuitableIff result (∀ x ∈ floats, x.isFinite)
  same : (∀ x ∈ floats, ReadsBack x) → result = .ok a

namespace Rereads

variable {a : α} {floats : List Float32} {result : Except Fault α}

theorem ok (a : α) : Rereads a [] (.ok a) :=
  ⟨⟨fun _ => ⟨a, rfl⟩, fun hnot => absurd (List.forall_mem_nil _) hnot⟩, fun _ => rfl⟩

theorem float (x : Float32) : Rereads x [x] (rereadFloat x) := by
  refine ⟨?_, fun h => h x (List.mem_singleton_self x)⟩
  rw [List.forall_mem_singleton]
  exact suitableIff_rereadFloat x

theorem map (h : Rereads a floats result) (f : α → β) : Rereads (f a) floats (result.map f) := by
  refine ⟨h.suitable.map f, fun hfloats => ?_⟩
  rw [h.same hfloats]
  rfl

theorem bind {f : α → β} {next : α → Except Fault β} {others : List Float32}
    (h : Rereads a floats result) (hnext : ∀ a, Rereads (f a) others (next a)) :
    Rereads (f a) (floats ++ others) (result >>= next) := by
  constructor
  · rw [List.forall_mem_append]
    exact h.suitable.bind fun a => (hnext a).suitable
  · intro hall
    obtain ⟨hfloats, hothers⟩ := List.forall_mem_append.1 hall
    rw [h.same hfloats]
    exact (hnext a).same hothers

theorem mapM {f : α → Except Fault α} {floats : α → List Float32} {l : List α}
    (h : ∀ a ∈ l, Rereads a (floats a) (f a)) : Rereads l (l.flatMap floats) (l.mapM f) := by
  induction l with
  | nil => exact .ok []
  | cons a l ih =>
    obtain ⟨ha, hl⟩ := List.forall_mem_cons.1 h
    rw [List.flatMap_cons, List.mapM_cons]
    exact ha.bind fun b => (ih hl).map (b :: ·)

end Rereads

theorem yields_none {read : Reader α} : read.optional.Yields .null (.ok none) := by
  intro rest
  simp only [written]
  rfl

theorem Reader.Yields.optional {read : Reader α} {j : Json} {result : Except Fault α}
    (h : read.Yields j result) (hj : j ≠ .null) : read.optional.Yields j (result.map some) := by
  intro rest
  rw [← Takes.map h some rest]
  cases j with
  | null => exact absurd rfl hj
  | _ =>
    simp only [written]
    rfl

-- ---------------------------------------------------------------------------
-- Lists
-- ---------------------------------------------------------------------------

theorem nextItem_append {read : Reader α} {ts : List Token} (hts : IsValue ts)
    {result : Except Fault α} (h : read.Takes ts result) (first : Bool) (rest : List Token) :
    nextItem first read (lead first ++ (ts ++ rest)) =
      result.map fun a => (some a, rest) := by
  have hsome : read.map some (ts ++ rest) = result.map fun a => (some a, rest) := by
    rw [h.map some rest]
    cases result <;> rfl
  cases first with
  | false => exact hsome
  | true =>
    obtain ⟨t, tail, rfl, hclose, hcomma⟩ := hts.exists_cons
    rw [← hsome]
    cases t with
    | closeArray => exact absurd rfl hclose
    | comma => exact absurd rfl hcomma
    | _ => rfl

section

variable {ι : Type} {read : Reader β} {write : ι → List Token} {reread : ι → Except Fault β}

theorem itemsWithin_append {items : List ι} (hvalues : ∀ i ∈ items, IsValue (write i))
    (h : ∀ i ∈ items, read.Takes (write i) (reread i)) {bound : Nat}
    (hbound : items.length < bound) (first : Bool) (rest : List Token) :
    itemsWithin read bound first
        (separated first (items.map write) ++ .closeArray :: rest) =
      (items.mapM reread).map fun bs => (bs, rest) := by
  -- A comma leads every item but the first, so `first` varies with the items.
  induction items generalizing bound first with
  | nil =>
    obtain ⟨bound, rfl⟩ := Nat.exists_eq_add_one_of_ne_zero (Nat.ne_zero_of_lt hbound)
    rfl
  | cons i items ih =>
    obtain ⟨bound, rfl⟩ := Nat.exists_eq_add_one_of_ne_zero (Nat.ne_zero_of_lt hbound)
    obtain ⟨hvalue, hvalues⟩ := List.forall_mem_cons.1 hvalues
    obtain ⟨hi, hitems⟩ := List.forall_mem_cons.1 h
    have htail := ih hvalues hitems (Nat.lt_of_succ_lt_succ hbound) false
    rw [List.map_cons, separated, itemsWithin, List.append_assoc, List.append_assoc,
      nextItem_append hvalue hi, List.mapM_cons]
    cases reread i with
    | error fault => rfl
    | ok b =>
      simp only [bind, Except.bind, Except.map, htail]
      cases items.mapM reread <;> rfl

theorem takes_list {items : List ι} (hvalues : ∀ i ∈ items, IsValue (write i))
    (h : ∀ i ∈ items, read.Takes (write i) (reread i)) :
    (Reader.list read).Takes (arrayTokens (items.map write)) (items.mapM reread) := by
  intro rest
  have hbound := length_le_separated true (List.forall_mem_map.2 fun i hi => (hvalues i hi).ne_nil)
  rw [List.length_map] at hbound
  simp only [arrayTokens, List.cons_append, List.append_assoc, Reader.list]
  refine itemsWithin_append hvalues h ?_ true rest
  simp only [List.length_append, List.length_cons]
  omega

end

theorem yields_list {read : Reader β} {write : α → Json} {reread : α → Except Fault β}
    {items : List α} (h : ∀ a ∈ items, read.Yields (write a) (reread a)) :
    (Reader.list read).Yields (.array (items.map write)) (items.mapM reread) := by
  unfold Reader.Yields
  rw [written_array, List.map_map]
  exact takes_list (fun a _ => (write a).isValue_written) h

-- ---------------------------------------------------------------------------
-- Skipping
-- ---------------------------------------------------------------------------

section

variable {frames : List Frame} {opening close : Token} {tss : List (List Token)}

/-- Behind an item or a member, up to the end of the frame. -/
theorem skipWithin_separated {frame : Frame} {expected : Expected}
    (hcomma : ∀ ts, skipWithin .separator (frame :: frames) (.comma :: ts) =
      skipWithin expected (frame :: frames) ts)
    (hclose : ∀ ts, skipWithin .separator (frame :: frames) (close :: ts) =
      skipWithin .separator frames ts)
    (htss : ∀ ts ∈ tss, ∀ rest, skipWithin expected (frame :: frames) (ts ++ rest) =
      skipWithin .separator (frame :: frames) rest) (rest : List Token) :
    skipWithin .separator (frame :: frames) (separated false tss ++ close :: rest) =
      skipWithin .separator frames rest := by
  induction tss with
  | nil => exact hclose rest
  | cons ts tss ih =>
    obtain ⟨hts, htss⟩ := List.forall_mem_cons.1 htss
    rw [separated, List.append_assoc, List.append_assoc]
    exact (hcomma _).trans ((hts _).trans (ih htss))

theorem skipWithin_enclosed (frame : Frame) (expected : Expected)
    (hempty : ∀ ts, skipWithin .value frames (opening :: close :: ts) =
      skipWithin .separator frames ts)
    (hopen : ∀ ts ∈ tss, ∀ rest, skipWithin .value frames (opening :: (ts ++ rest)) =
      skipWithin expected (frame :: frames) (ts ++ rest))
    (hcomma : ∀ ts, skipWithin .separator (frame :: frames) (.comma :: ts) =
      skipWithin expected (frame :: frames) ts)
    (hclose : ∀ ts, skipWithin .separator (frame :: frames) (close :: ts) =
      skipWithin .separator frames ts)
    (htss : ∀ ts ∈ tss, ∀ rest, skipWithin expected (frame :: frames) (ts ++ rest) =
      skipWithin .separator (frame :: frames) rest) (rest : List Token) :
    skipWithin .value frames (opening :: (separated true tss ++ [close]) ++ rest) =
      skipWithin .separator frames rest := by
  cases tss with
  | nil => exact hempty rest
  | cons ts tss =>
    obtain ⟨hts, htss⟩ := List.forall_mem_cons.1 htss
    rw [separated, List.cons_append, List.append_assoc, List.append_assoc, List.append_assoc]
    refine (hopen ts List.mem_cons_self _).trans ((hts _).trans ?_)
    exact skipWithin_separated hcomma hclose htss rest

end

theorem skipWithin_append {ts : List Token} (h : IsValue ts) (frames : List Frame)
    (rest : List Token) :
    skipWithin .value frames (ts ++ rest) = skipWithin .separator frames rest := by
  induction h generalizing frames rest with
  | array hitems ih =>
    refine skipWithin_enclosed .array .value ?_ ?_ ?_ ?_ ?_ rest
    · exact fun ts => by rw [skipWithin]
    · intro ts hts rest
      obtain ⟨t, tail, rfl, hclose, -⟩ := (hitems ts hts).exists_cons
      rw [List.cons_append, skipWithin]
      exact fun _ heq => hclose (List.cons.inj heq).1
    · exact fun ts => by rw [skipWithin]
    · exact fun ts => by rw [skipWithin]
    · exact fun ts hts rest => ih ts hts _ rest
  | object _ ih =>
    refine skipWithin_enclosed .object .name ?_ ?_ ?_ ?_ ?_ rest
    · exact fun ts => by rw [skipWithin]
    · intro ts hts rest
      obtain ⟨m, -, rfl⟩ := List.mem_map.1 hts
      rw [Member.tokens, List.cons_append, skipWithin]
      exact nofun
    · exact fun ts => by rw [skipWithin]
    · exact fun ts => by rw [skipWithin]
    · intro ts hts rest
      obtain ⟨m, hm, rfl⟩ := List.mem_map.1 hts
      rw [Member.tokens, List.cons_append, List.cons_append, skipWithin]
      exact ih m hm _ rest
  | _ => rw [List.singleton_append, skipWithin]

theorem skip_append {ts : List Token} (h : IsValue ts) (rest : List Token) :
    skip (ts ++ rest) = .ok rest := by
  rw [skip, skipWithin_append h]
  cases rest <;> rw [skipWithin]

-- ---------------------------------------------------------------------------
-- Records
-- ---------------------------------------------------------------------------

theorem nextMember_append (first : Bool) {m : Member} {name : List Char}
    (hname : closedString m.name = .ok name) (rest : List Token) :
    nextMember first (lead first ++ (m.tokens ++ rest)) =
      .ok (some name, .colon :: (m.value ++ rest)) := by
  cases first <;>
    simp [lead, Member.tokens, nextMember, Reader.map, memberName, hname, bind, Except.bind, pure,
      Except.pure]

theorem length_le_members (first : Bool) (members : List Member) :
    members.length ≤ (separated first (members.map Member.tokens)).length := by
  have hne : ∀ ts ∈ members.map Member.tokens, ts ≠ [] :=
    List.forall_mem_map.2 fun _ _ => List.cons_ne_nil _ _
  have hle := length_le_separated first hne
  rwa [List.length_map] at hle

theorem wellFormed_ofMembers {members : List (String × Json)}
    (h : ∀ m ∈ members, m.2.WellFormed) : (ofMembers members).WellFormed := by
  refine .object fun m hm => ?_
  obtain ⟨member, hmember, rfl⟩ := List.mem_map.1 hm
  exact h member hmember

section

variable {δ : Type} {name : String} {read : Reader β} {get : δ → Option β} {set : δ → β → δ}
variable {fields : List (Field δ)}

theorem Field.find?_cons_self :
    ((Field.of name read get set :: fields).find? fun f => f.name = name.toList) =
      some (.of name read get set) :=
  List.find?_cons_of_pos (decide_eq_true rfl)

theorem Field.find?_cons_of_ne {other : String} {result : Option (Field δ)} (hne : name ≠ other)
    (h : (fields.find? fun f => f.name = other.toList) = result) :
    ((Field.of name read get set :: fields).find? fun f => f.name = other.toList) = result := by
  rw [List.find?_cons_of_neg, h]
  simpa [Field.of, String.toList_inj] using hne

end

variable {δ : Type} {r : Record δ α}

theorem Record.member_field {draft : δ} {name : List Char} {ts : List Token} {f : Field δ}
    {result : Except Fault δ} (hfield : (r.fields.find? fun f => f.name = name) = some f)
    (hunset : f.isSet draft = false) (hread : (f.read draft).Takes ts result)
    (rest : List Token) :
    r.member draft name (.colon :: (ts ++ rest)) = result.map fun d => (d, rest) := by
  simp only [member, hfield, hunset, Bool.false_eq_true, if_false, require, if_true]
  exact hread rest

theorem Record.member_foreign {draft : δ} {name : List Char} {ts : List Token}
    (hforeign : (r.fields.find? fun f => f.name = name) = none) (hts : IsValue ts)
    (rest : List Token) : r.member draft name (.colon :: (ts ++ rest)) = .ok (draft, rest) := by
  simp only [member, hforeign, require, if_true, bind, Except.bind, skip_append hts]
  rfl

/-- What is in a draft once the members have been read into it, one after the
other, unless one of them cannot be read. -/
inductive Record.Collects (r : Record δ α) : δ → List Member → Except Fault δ → Prop
  | nil (draft : δ) : Collects r draft [] (.ok draft)
  | cons {draft d : δ} {m : Member} {name : List Char} {members : List Member}
      {f : Field δ} {result : Except Fault δ} (hname : closedString m.name = .ok name)
      (hfield : (r.fields.find? fun f => f.name = name) = some f) (hunset : f.isSet draft = false)
      (hread : (f.read draft).Takes m.value (.ok d)) (hmembers : Collects r d members result) :
      Collects r draft (m :: members) result
  | foreign {draft : δ} {m : Member} {name : List Char} {members : List Member}
      {result : Except Fault δ} (hname : closedString m.name = .ok name)
      (hforeign : (r.fields.find? fun f => f.name = name) = none) (hvalue : IsValue m.value)
      (hmembers : Collects r draft members result) : Collects r draft (m :: members) result
  | fault {draft : δ} {m : Member} {name : List Char} {members : List Member}
      {f : Field δ} {fault : Fault} (hname : closedString m.name = .ok name)
      (hfield : (r.fields.find? fun f => f.name = name) = some f) (hunset : f.isSet draft = false)
      (hread : (f.read draft).Takes m.value (.error fault)) :
      Collects r draft (m :: members) (.error fault)

namespace Record.Collects

section

variable {draft : δ} {name : String} {read : Reader β} {get : δ → Option β} {set : δ → β → δ}
variable {value : Json} {members : List Member}

theorem field_bind {result : Except Fault β} {next : β → Except Fault δ}
    (hfield : (r.fields.find? fun f => f.name = name.toList) = some (.of name read get set))
    (hunset : get draft = none) (hread : read.Yields value result)
    (hnext : ∀ b, r.Collects (set draft b) members (next b)) :
    r.Collects draft (writtenMember (name.toList, value) :: members) (result >>= next) := by
  have hname : closedString (writtenMember (name.toList, value)).name = .ok name.toList :=
    closedString_map_stringPart _
  have hisSet : (Field.of name read get set).isSet draft = false := by simp [Field.of, hunset]
  have hdraft := Reader.Takes.map hread (set draft)
  cases result with
  | ok b => exact .cons hname hfield hisSet hdraft (hnext b)
  | error fault => exact .fault hname hfield hisSet hdraft

theorem field {b : β} {result : Except Fault δ}
    (hfield : (r.fields.find? fun f => f.name = name.toList) = some (.of name read get set))
    (hunset : get draft = none) (hread : read.Yields value (.ok b))
    (hmembers : r.Collects (set draft b) members result) :
    r.Collects draft (writtenMember (name.toList, value) :: members) result :=
  .cons (closedString_map_stringPart _) hfield (by simp [Field.of, hunset])
    (Reader.Takes.map hread (set draft)) hmembers

end

theorem membersWithin {draft : δ} {members : List Member} {result : Except Fault δ}
    (h : r.Collects draft members result) {bound : Nat} (hbound : members.length < bound)
    (first : Bool) (rest : List Token) :
    r.membersWithin bound first draft
        (separated first (members.map Member.tokens) ++ .closeObject :: rest) =
      result.map fun d => (d, rest) := by
  induction h generalizing bound first with
  | nil draft =>
    obtain ⟨bound, rfl⟩ := Nat.exists_eq_add_one_of_ne_zero (Nat.ne_zero_of_lt hbound)
    rfl
  | cons hname hfield hunset hread _ ih =>
    obtain ⟨bound, rfl⟩ := Nat.exists_eq_add_one_of_ne_zero (Nat.ne_zero_of_lt hbound)
    rw [List.map_cons, separated, List.append_assoc, List.append_assoc, Record.membersWithin,
      nextMember_append first hname]
    simp only [bind, Except.bind, member_field hfield hunset hread, Except.map]
    exact ih (Nat.lt_of_succ_lt_succ hbound) false
  | foreign hname hforeign hvalue _ ih =>
    obtain ⟨bound, rfl⟩ := Nat.exists_eq_add_one_of_ne_zero (Nat.ne_zero_of_lt hbound)
    rw [List.map_cons, separated, List.append_assoc, List.append_assoc, Record.membersWithin,
      nextMember_append first hname]
    simp only [bind, Except.bind, member_foreign hforeign hvalue]
    exact ih (Nat.lt_of_succ_lt_succ hbound) false
  | fault hname hfield hunset hread =>
    obtain ⟨bound, rfl⟩ := Nat.exists_eq_add_one_of_ne_zero (Nat.ne_zero_of_lt hbound)
    rw [List.map_cons, separated, List.append_assoc, List.append_assoc, Record.membersWithin,
      nextMember_append first hname]
    simp only [bind, Except.bind, member_field hfield hunset hread, Except.map]

end Record.Collects

theorem takes_record {members : List Member} {draft : Except Fault δ}
    {result : Except Fault α} (h : r.Collects r.blank members draft)
    (hfinish : (draft >>= r.finished) = result) : r.reader.Takes (objectTokens members) result := by
  intro rest
  have hbound := length_le_members true members
  simp only [objectTokens, List.cons_append, List.append_assoc, List.nil_append, Record.reader]
  rw [h.membersWithin (by simp only [List.length_append, List.length_cons]; omega), ← hfinish]
  cases draft with
  | error fault => rfl
  | ok d =>
    simp only [bind, Except.bind, Except.map]
    cases r.finished d <;> rfl

theorem yields_record {members : List (List Char × Json)} {draft : Except Fault δ}
    {result : Except Fault α} (h : r.Collects r.blank (members.map writtenMember) draft)
    (hfinish : (draft >>= r.finished) = result) : r.reader.Yields (.object members) result := by
  unfold Reader.Yields
  rw [written_object]
  exact takes_record h hfinish

-- ---------------------------------------------------------------------------
-- Variants
-- ---------------------------------------------------------------------------

section

variable {variants : List (Variant α)} {name : String}

theorem yields_ofString {a : α} (hfind : findVariant variants name.toList = .ok (.ofValue name a)) :
    (variantReader variants).Yields (.ofString name) (.ok a) := by
  intro rest
  simp only [ofString, written, List.singleton_append, variantReader, closedString_map_stringPart,
    bind, Except.bind, hfind, Variant.ofValue, Except.map]

theorem yields_ofContent {make : β → α} {read : Reader β} {content : Json}
    {result : Except Fault β}
    (hfind : findVariant variants name.toList = .ok (.ofContent name make read))
    (hread : read.Yields content result) :
    (variantReader variants).Yields (ofContent name content) (result.map make) := by
  intro rest
  have htokens : (ofContent name content).written ++ rest =
      .openObject :: .string (name.toList.map stringPart) :: .colon ::
        (content.written ++ .closeObject :: rest) := by
    simp [ofContent, ofMembers, written, writtenMembers, lead]
  have hcontent := Reader.Takes.map hread make (.closeObject :: rest)
  simp only [htokens, variantReader, memberName, closedString_map_stringPart, bind, Except.bind,
    pure, Except.pure, hfind, Variant.ofContent, require, if_true, hcontent]
  cases result <;> rfl

end

end FractalCurve.Json
