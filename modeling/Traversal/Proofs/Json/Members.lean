import Mathlib.Logic.Relation
import Traversal.Proofs.Except
import Traversal.Proofs.Json.Written

namespace Traversal.Json

/-- The text of a string, if no half of a pair stands alone in it. -/
def Piece.text? (ps : List Piece) : Option String :=
  (Piece.join ps).map String.ofList

namespace Node

theorem textOf_eq_ok {ps : List Piece} {s : String} :
    textOf ps = .ok s ↔ Piece.text? ps = some s := by
  rw [textOf, Piece.text?]
  cases Piece.join ps <;> simp

def text? : Node → Option String
  | string ps => Piece.text? ps
  | _ => none

theorem refuse_ne_ok {α : Type} (expected : String) (n : Node) (a : α) :
    n.refuse expected ≠ .ok a := by
  cases n with
  | number n =>
    rw [refuse]
    split <;> nofun
  | string ps =>
    rw [refuse]
    cases textOf ps <;> nofun
  | _ => nofun

theorem readText_eq_ok {expected s : String} {n : Node} :
    n.readText expected = .ok s ↔ n.text? = some s := by
  cases n with
  | string ps => exact textOf_eq_ok
  | _ => simp [readText, text?, refuse_ne_ok]

theorem readOption_readText_eq_ok {expected : String} {n : Node} {v : Option String} :
    n.readOption (readText expected) = .ok v ↔
      n = .null ∧ v = none ∨ ∃ s, n.text? = some s ∧ v = some s := by
  cases n with
  | null => simp [readOption, text?, eq_comm]
  | _ =>
    rw [readOption, map_eq_ok]
    · simp only [readText_eq_ok, reduceCtorEq, false_and, false_or, @eq_comm _ v]
    · nofun

end Node

/-- A key and a value of an object. -/
abbrev Member := List Piece × Node

/-- The name that a key spells. -/
def Member.name? (m : Member) : Option String :=
  Piece.text? m.1

/-- Every key spells a name. -/
def Spelled (ms : List Member) : Prop :=
  ∀ m ∈ ms, (Member.name? m).isSome

/-- The values of the members of a name in the order of the text. -/
def valuesOf (name : String) (ms : List Member) : List Node :=
  (ms.filter fun m => m.name? = some name).map (·.2)

/-- There is one member of the name, and its value is read as `a`. -/
def Tells {α : Type} (ms : List Member) (name : String) (value : Node → Decoded α) (a : α) : Prop :=
  ∃ n, valuesOf name ms = [n] ∧ value n = .ok a

/-- There is one member of the name, and its value is read as `a`, or there is none. -/
def TellsOr {α : Type} (ms : List Member) (name : String) (value : Node → Decoded α)
    (default a : α) : Prop :=
  (valuesOf name ms = [] ∧ a = default) ∨ Tells ms name value a

section Values

variable {name key : String} {m : Member} {ms : List Member} {α : Type} {value : Node → Decoded α}
  {a b : α}

theorem Tells.ne_nil (h : Tells ms name value a) : valuesOf name ms ≠ [] := by
  obtain ⟨n, one, -⟩ := h
  simp [one]

theorem Tells.unique (h : Tells ms name value a) (h' : Tells ms name value b) : a = b := by
  obtain ⟨n, one, ha⟩ := h
  obtain ⟨n', one', hb⟩ := h'
  obtain rfl : n = n' := List.singleton_inj.1 (one.symm.trans one')
  exact Except.ok.inj (ha.symm.trans hb)

theorem valuesOf_cons_self (h : m.name? = some name) :
    valuesOf name (m :: ms) = m.2 :: valuesOf name ms := by
  simp [valuesOf, h]

theorem valuesOf_cons_of_ne (h : m.name? = some key) (different : key ≠ name) :
    valuesOf name (m :: ms) = valuesOf name ms := by
  simp [valuesOf, h, different]

/-- If no name is given twice, one member that can be read is enough. -/
theorem exists_tells_iff (single : (valuesOf name ms).length ≤ 1) :
    (∃ a, Tells ms name value a) ↔ ∃ n ∈ valuesOf name ms, ∃ a, value n = .ok a := by
  constructor
  · rintro ⟨a, n, one, ha⟩
    exact ⟨n, by simp [one], a, ha⟩
  · rintro ⟨n, hn, a, ha⟩
    obtain ⟨n', one⟩ := List.length_eq_one_iff.1 (Nat.le_antisymm single (List.length_pos_of_mem hn))
    obtain rfl : n = n' := by simpa [one] using hn
    exact ⟨a, n, one, ha⟩

theorem exists_tellsOr_iff (single : (valuesOf name ms).length ≤ 1) (default : α) :
    (∃ a, TellsOr ms name value default a) ↔ ∀ n ∈ valuesOf name ms, ∃ a, value n = .ok a := by
  constructor
  · rintro ⟨a, ⟨none, -⟩ | ⟨n', one, ha⟩⟩ n hn
    · simp [none] at hn
    · obtain rfl : n = n' := by simpa [one] using hn
      exact ⟨a, ha⟩
  · intro readable
    cases h : valuesOf name ms with
    | nil => exact ⟨default, .inl ⟨h, rfl⟩⟩
    | cons n ns =>
      have hn : n ∈ valuesOf name ms := by simp [h]
      obtain ⟨a, tells⟩ := (exists_tells_iff single).2 ⟨n, hn, readable n hn⟩
      exact ⟨a, .inr tells⟩

theorem tells_cons_self (h : m.name? = some name) :
    Tells (m :: ms) name value a ↔ valuesOf name ms = [] ∧ value m.2 = .ok a := by
  rw [Tells, valuesOf_cons_self h]
  constructor
  · rintro ⟨n, one, ha⟩
    obtain ⟨rfl, none⟩ := List.cons.inj one
    exact ⟨none, ha⟩
  · rintro ⟨none, ha⟩
    exact ⟨m.2, by rw [none], ha⟩

theorem tells_cons_of_ne (h : m.name? = some key) (different : key ≠ name) :
    Tells (m :: ms) name value a ↔ Tells ms name value a := by
  rw [Tells, Tells, valuesOf_cons_of_ne h different]

theorem valuesOf_append (ms ms' : List Member) :
    valuesOf name (ms ++ ms') = valuesOf name ms ++ valuesOf name ms' := by
  simp [valuesOf]

end Values

/-- Members are put into another order, or one is added whose name is not known. Known names are
those that a reader asks for. -/
inductive Edit (known : List String) : List Member → List Member → Prop where
  | permute {ms ms' : List Member} : ms.Perm ms' → Edit known ms ms'
  | insert {m : Member} {name : String} (front back : List Member) : m.name? = some name →
    name ∉ known → Edit known (front ++ back) (front ++ m :: back)

section Written

open Value (memberNodes)

theorem text?_pieces (s : String) : Piece.text? (pieces s) = some s :=
  Node.textOf_eq_ok.1 (textOf_pieces s)

theorem readText_string (expected s : String) :
    (Value.string s).node.readText expected = .ok s :=
  textOf_pieces s

theorem readOption_ofOption (expected : String) (s : Option String) :
    (Value.ofOption .string s).node.readOption (Node.readText expected) = .ok s := by
  cases s with
  | none => rfl
  | some s => exact Node.readOption_readText_eq_ok.2 (.inr ⟨s, text?_pieces s, rfl⟩)

theorem readBool_bool (b : Bool) : (Value.bool b).node.readBool = .ok b :=
  rfl

theorem spelled_memberNodes (ms : List (String × Value)) : Spelled (memberNodes ms) := by
  induction ms with
  | nil => exact List.forall_mem_nil _
  | cons m ms ih =>
    refine List.forall_mem_cons.2 ⟨?_, ih⟩
    rw [Member.name?, text?_pieces]
    rfl

theorem valuesOf_memberNodes (name : String) (ms : List (String × Value)) :
    valuesOf name (memberNodes ms) = (ms.filter fun m => m.1 = name).map (·.2.node) := by
  induction ms with
  | nil => rfl
  | cons m ms ih =>
    have spelled : Member.name? (pieces m.1, m.2.node) = some m.1 := text?_pieces m.1
    rw [memberNodes]
    by_cases same : m.1 = name
    · rw [valuesOf_cons_self (spelled.trans (congrArg some same)), ih]
      simp [same]
    · rw [valuesOf_cons_of_ne spelled same, ih]
      simp [same]

section Members

variable {all : List (String × Value)} {name : String} {v : Value} {α : Type}
  {value : Node → Decoded α} {a : α}

theorem tells_memberNodes (only : (all.filter fun m => m.1 = name) = [(name, v)])
    (read : value v.node = .ok a) : Tells (memberNodes all) name value a :=
  ⟨v.node, by rw [valuesOf_memberNodes, only]; rfl, read⟩

/-- A member may be left out if its value is the default. -/
theorem tellsOr_memberNodes (only : (all.filter fun m => m.1 = name) = [(name, v)])
    (read : value v.node = .ok a) (omitted : List String) {default : α}
    (h : name ∈ omitted → a = default) :
    TellsOr (memberNodes (all.filter fun m => m.1 ∉ omitted)) name value default a := by
  have left : (all.filter fun m => m.1 ∉ omitted).filter (fun m => m.1 = name) =
      [(name, v)].filter fun m => m.1 ∉ omitted := by
    rw [List.filter_comm, only]
  by_cases hn : name ∈ omitted
  · refine .inl ⟨?_, h hn⟩
    rw [valuesOf_memberNodes, left]
    simp [hn]
  · exact .inr (tells_memberNodes (left.trans (by simp [hn])) read)

end Members

end Written

section Edits

open Relation (EqvGen)

variable {known : List String} {ms ms' : List Member}

theorem Edit.values_perm (h : Edit known ms ms') {name : String} (hn : name ∈ known) :
    (valuesOf name ms).Perm (valuesOf name ms') := by
  cases h with
  | permute perm => exact (perm.filter _).map _
  | insert front back hm unknown =>
    have different := (ne_of_mem_of_not_mem hn unknown).symm
    rw [valuesOf_append, valuesOf_append, valuesOf_cons_of_ne hm different]

theorem Edit.spelled_iff (h : Edit known ms ms') : Spelled ms ↔ Spelled ms' := by
  cases h with
  | permute perm => exact forall_congr' fun m => imp_congr_left perm.mem_iff
  | insert front back hm _ => simp [Spelled, hm, or_imp, forall_and]

/-- Edits in both directions keep the members of the known names, apart from their order. -/
theorem values_perm_of_edits (h : EqvGen (Edit known) ms ms') {name : String}
    (hn : name ∈ known) : (valuesOf name ms).Perm (valuesOf name ms') := by
  induction h with
  | rel _ _ edit => exact edit.values_perm hn
  | refl _ => exact .refl _
  | symm _ _ _ ih => exact ih.symm
  | trans _ _ _ _ _ ih ih' => exact ih.trans ih'

theorem values_eq_nil_iff (h : EqvGen (Edit known) ms ms') {name : String} (hn : name ∈ known) :
    valuesOf name ms = [] ↔ valuesOf name ms' = [] := by
  rw [← List.perm_nil, ← List.perm_nil]
  exact (values_perm_of_edits h hn).congr_left _

theorem tells_iff_of_edits (h : EqvGen (Edit known) ms ms') {name : String} (hn : name ∈ known)
    {α : Type} (value : Node → Decoded α) (a : α) :
    Tells ms name value a ↔ Tells ms' name value a := by
  have one : ∀ n, valuesOf name ms = [n] ↔ valuesOf name ms' = [n] := by
    intro n
    rw [← List.perm_singleton, ← List.perm_singleton]
    exact (values_perm_of_edits h hn).congr_left _
  simp only [Tells, one]

theorem tellsOr_iff_of_edits (h : EqvGen (Edit known) ms ms') {name : String} (hn : name ∈ known)
    {α : Type} (value : Node → Decoded α) (default a : α) :
    TellsOr ms name value default a ↔ TellsOr ms' name value default a := by
  rw [TellsOr, TellsOr, values_eq_nil_iff h hn, tells_iff_of_edits h hn]

theorem spelled_iff_of_edits (h : EqvGen (Edit known) ms ms') : Spelled ms ↔ Spelled ms' := by
  induction h with
  | rel _ _ edit => exact edit.spelled_iff
  | refl _ => exact .rfl
  | symm _ _ _ ih => exact ih.symm
  | trans _ _ _ _ _ ih ih' => exact ih.trans ih'

end Edits

end Traversal.Json
