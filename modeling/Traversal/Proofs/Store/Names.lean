import Mathlib.Data.List.Infix
import Traversal.Proofs.Store.Numbering

namespace Traversal

/-- What is known, and behind it what comes up and is not known, each once. -/
def arrivals {α : Type} [DecidableEq α] (known : List α) : List α → List α
  | [] => known
  | a :: new => arrivals (if a ∈ known then known else known ++ [a]) new

section Arrivals

variable {α : Type} [DecidableEq α] (known : List α)

theorem arrivals_append (xs ys : List α) :
    arrivals known (xs ++ ys) = arrivals (arrivals known xs) ys := by
  induction xs generalizing known with
  | nil => rfl
  | cons x xs ih => exact ih _

theorem mem_arrivals (xs : List α) (a : α) :
    a ∈ arrivals known xs ↔ a ∈ known ∨ a ∈ xs := by
  induction xs generalizing known with
  | nil => simp [arrivals]
  | cons x xs ih =>
    rw [arrivals, ih]
    by_cases hx : x ∈ known
    · rw [if_pos hx, List.mem_cons]
      constructor
      · intro h
        rcases h with h | h
        · exact .inl h
        · exact .inr (.inr h)
      · intro h
        rcases h with h | rfl | h
        · exact .inl h
        · exact .inl hx
        · exact .inr h
    · rw [if_neg hx]
      simp [or_assoc]

theorem prefix_arrivals (xs : List α) : known <+: arrivals known xs := by
  induction xs generalizing known with
  | nil => exact List.prefix_refl known
  | cons x xs ih =>
    rw [arrivals]
    split
    · exact ih known
    · exact (List.prefix_append known [x]).trans (ih _)

theorem arrivals_eq_self (xs : List α) (h : ∀ a ∈ xs, a ∈ known) : arrivals known xs = known := by
  induction xs with
  | nil => rfl
  | cons x xs ih =>
    rw [arrivals, if_pos (h x List.mem_cons_self)]
    exact ih fun a ha => h a (List.mem_cons_of_mem x ha)

end Arrivals

section Actions

variable {σ ε δ α β : Type} {act : ExceptT ε (StateM σ) α} {next : α → ExceptT ε (StateM σ) β}
  {s t : σ}

theorem bind_of_ok {a : α} (h : act s = (.ok a, t)) : (act >>= next) s = next a t := by
  change (let r := act s; ExceptT.bindCont next r.1 r.2) = next a t
  rw [h]
  rfl

theorem bind_of_error {e : ε} (h : act s = (.error e, t)) : (act >>= next) s = (.error e, t) := by
  change (let r := act s; ExceptT.bindCont next r.1 r.2) = (.error e, t)
  rw [h]
  rfl

theorem adapt_apply (f : ε → δ) (act : ExceptT ε (StateM σ) α) (s : σ) :
    ExceptT.adapt f act s = ((act s).1.mapError f, (act s).2) :=
  rfl

theorem adapt_of_ok {a : α} (h : act s = (.ok a, t)) (f : ε → δ) :
    ExceptT.adapt f act s = (.ok a, t) := by
  rw [adapt_apply, h]
  rfl

theorem adapt_of_error {e : ε} (h : act s = (.error e, t)) (f : ε → δ) :
    ExceptT.adapt f act s = (.error (f e), t) := by
  rw [adapt_apply, h]
  rfl

end Actions

theorem Quad.ext_node? {q r : Quad} (h : ∀ role, q.node? role = r.node? role) : q = r := by
  ext1
  · exact Option.some.inj (h .subject)
  · exact Option.some.inj (h .predicate)
  · exact Option.some.inj (h .object)
  · exact h .label

namespace Statement

def name? (st : Statement) : Role → Option String
  | .subject => some st.subject
  | .predicate => some st.predicate
  | .object => some st.object
  | .label => st.label

def names (st : Statement) : List String :=
  [st.subject, st.predicate, st.object] ++ st.label.toList

theorem mem_names (st : Statement) (n : String) :
    n ∈ st.names ↔ ∃ role, st.name? role = some n := by
  constructor
  · intro h
    simp only [names, List.mem_append, List.mem_cons, List.not_mem_nil, or_false,
      Option.mem_toList] at h
    rcases h with (rfl | rfl | rfl) | h
    · exact ⟨.subject, rfl⟩
    · exact ⟨.predicate, rfl⟩
    · exact ⟨.object, rfl⟩
    · exact ⟨.label, h⟩
  · intro h
    obtain ⟨role, h⟩ := h
    cases role <;> simp_all [names, name?]

end Statement

namespace NameTable

/-- The statement that a quad stands for. -/
def statement? (t : NameTable) (q : Quad) : Option Statement := do
  let subject ← t.name? q.subject
  let predicate ← t.name? q.predicate
  let object ← t.name? q.object
  let label ← q.label.mapM t.name?
  return { subject, predicate, object, label }

theorem statement?_eq_some (t : NameTable) (q : Quad) (st : Statement) :
    t.statement? q = some st ↔ ∀ role, (q.node? role).map t.name? = (st.name? role).map some := by
  obtain ⟨x, p, y, l⟩ := q
  obtain ⟨a, b, c, d⟩ := st
  have hl : l.mapM t.name? = some d ↔ l.map t.name? = d.map some := by
    cases l <;> cases d <;> simp
  simp only [statement?, Option.bind_eq_bind, Option.bind_eq_some_iff, Option.pure_def,
    Option.some.injEq, Statement.mk.injEq]
  constructor
  · intro h role
    obtain ⟨_, hx, _, hp, _, hy, _, h, rfl, rfl, rfl, rfl⟩ := h
    cases role with
    | subject => exact congrArg some hx
    | predicate => exact congrArg some hp
    | object => exact congrArg some hy
    | label => exact hl.1 h
  · intro h
    exact ⟨a, Option.some.inj (h .subject), b, Option.some.inj (h .predicate), c,
      Option.some.inj (h .object), d, hl.2 (h .label), rfl, rfl, rfl, rfl⟩

theorem name_of_node {t : NameTable} {q : Quad} {st : Statement} (h : t.statement? q = some st)
    {role : Role} {i : NodeId} (hi : q.node? role = some i) :
    ∃ n, st.name? role = some n ∧ t.name? i = some n := by
  have e := (statement?_eq_some t q st).1 h role
  rw [hi, Option.map_some, eq_comm, Option.map_eq_some_iff] at e
  obtain ⟨n, hn, he⟩ := e
  exact ⟨n, hn, he.symm⟩

theorem node_of_name {t : NameTable} {q : Quad} {st : Statement} (h : t.statement? q = some st)
    {role : Role} {n : String} (hn : st.name? role = some n) :
    ∃ i, q.node? role = some i ∧ t.name? i = some n := by
  have e := (statement?_eq_some t q st).1 h role
  rwa [hn, Option.map_some, Option.map_eq_some_iff] at e

theorem Kept.statement? {t u : NameTable} (h : t.Kept u) {q : Quad} {st : Statement}
    (hq : t.statement? q = some st) : u.statement? q = some st := by
  rw [statement?_eq_some]
  intro role
  cases hi : q.node? role with
  | none =>
    have e := (statement?_eq_some t q st).1 hq role
    rwa [hi] at e
  | some i =>
    obtain ⟨n, hn, hin⟩ := name_of_node hq hi
    rw [hn, Option.map_some, Option.map_some, h i n hin]

theorem Valid.statement?_inj {t : NameTable} (h : t.Valid) {q r : Quad} {st : Statement}
    (hq : t.statement? q = some st) (hr : t.statement? r = some st) : q = r := by
  apply Quad.ext_node?
  intro role
  apply Option.ext
  intro i
  constructor
  · intro hi
    obtain ⟨n, hn, hin⟩ := name_of_node hq hi
    obtain ⟨j, hj, hjn⟩ := node_of_name hr hn
    rwa [h.id_inj hin hjn]
  · intro hi
    obtain ⟨n, hn, hin⟩ := name_of_node hr hi
    obtain ⟨j, hj, hjn⟩ := node_of_name hq hn
    rwa [h.id_inj hin hjn]

/-- From a valid table the action numbers `names` in turn and answers with `post`, unless the ids
run out at a name that is new. Names that are known keep their ids. -/
def Numbers {α : Type} (act : Numbering α) (names : List String) (post : NameTable → α → Prop) :
    Prop :=
  ∀ t : NameTable, t.Valid → ∃ u : NameTable, u.Valid ∧ t.Kept u ∧
    ((∃ a, act t = (.ok a, u) ∧ u.list = arrivals t.list names ∧ post u a) ∨
    ∃ e, act t = (.error e, u) ∧ u.size = capacity ∧ ∃ n ∈ names, n ∉ t.list)

/-- What holds of a table and stays true when names are added. -/
def Lasting {α : Type} (post : NameTable → α → Prop) : Prop :=
  ∀ t u a, t.Kept u → post t a → post u a

theorem Numbers.pure {α : Type} {a : α} {post : NameTable → α → Prop} (h : ∀ t, post t a) :
    Numbers (Pure.pure a) [] post := by
  intro t ht
  exact ⟨t, ht, .refl t, .inl ⟨a, rfl, rfl, h t⟩⟩

theorem Numbers.bind {α β : Type} {act : Numbering α} {next : α → Numbering β}
    {ms ns : List String} {mid : NameTable → α → Prop} {post : NameTable → β → Prop}
    (hact : Numbers act ms mid) (lasting : Lasting mid)
    (hnext : ∀ a, Numbers (next a) ns fun u b => mid u a → post u b) :
    Numbers (act >>= next) (ms ++ ns) post := by
  intro t ht
  obtain ⟨u, hu, htu, ⟨a, hr, hul, ha⟩ | ⟨e, hr, hs, n, hn, new⟩⟩ := hact t ht
  · have step : (act >>= next) t = next a u := bind_of_ok hr
    obtain ⟨v, hv, huv, ⟨b, hr', hvl, hb⟩ | ⟨e, hr', hs, n, hn, new⟩⟩ := hnext a u hu
    · refine ⟨v, hv, htu.trans huv, .inl ⟨b, step.trans hr', ?_, hb (lasting u v a huv ha)⟩⟩
      rw [hvl, hul, arrivals_append]
    · refine ⟨v, hv, htu.trans huv, .inr ⟨e, step.trans hr', hs, n, List.mem_append_right ms hn, ?_⟩⟩
      exact fun h => new (htu.mem_list h)
  · have step : (act >>= next) t = (.error e, u) := bind_of_error hr
    exact ⟨u, hu, htu, .inr ⟨e, step, hs, n, List.mem_append_left ns hn, new⟩⟩

theorem lasting_name (n : String) : Lasting fun u i => u.name? i = some n :=
  fun _ _ i h hi => h i n hi

theorem lasting_label (label : Option String) :
    Lasting fun u (l : Option NodeId) => l.map u.name? = label.map some := by
  intro t u l h hl
  cases l with
  | none => exact hl
  | some i =>
    obtain ⟨n, rfl, hi⟩ : ∃ n, label = some n ∧ t.name? i = some n := by
      rw [Option.map_some, eq_comm, Option.map_eq_some_iff] at hl
      obtain ⟨n, hn, e⟩ := hl
      exact ⟨n, hn, e.symm⟩
    rw [Option.map_some, Option.map_some, h i n hi]

theorem numbers_intern (n : String) : Numbers (intern n) [n] fun u i => u.name? i = some n := by
  intro t ht
  rcases ht.intern_cases n with ⟨i, known, e⟩ | ⟨new, -, e, hu, hul⟩ | ⟨new, full, cause, e⟩
  · have hn := (ht.inverse n i).1 known
    have hmem : n ∈ t.list := (mem_list t n).2 ⟨i, hn⟩
    exact ⟨t, ht, .refl t, .inl ⟨i, e, by simp [arrivals, hmem], hn⟩⟩
  · refine ⟨t.number n, hu, ht.kept_number n, .inl ⟨t.next, e, ?_, ?_⟩⟩
    · rw [arrivals, if_neg new]
      exact hul
    · exact (name?_number t t.next n).trans (if_pos rfl)
  · exact ⟨t, ht, .refl t, .inr ⟨cause, e, full, n, List.mem_singleton_self n, new⟩⟩

theorem numbers_label (label : Option String) : Numbers (label.mapM intern) label.toList
    fun u l => l.map u.name? = label.map some := by
  cases label with
  | none => exact .pure fun _ => rfl
  | some n =>
    have answer : ∀ i, Numbers (Pure.pure (some i)) []
        fun u l => u.name? i = some n → l.map u.name? = (some n).map some := by
      intro i
      refine .pure fun u hi => ?_
      rw [Option.map_some, hi, Option.map_some]
    change Numbers (some <$> intern n) _ _
    rw [map_eq_pure_bind]
    exact (numbers_intern n).bind (lasting_name n) answer

theorem numbers_quad (st : Statement) : Numbers (quad st) st.names
    fun u q => u.statement? q = some st := by
  have h : Numbers (quad st) ([st.subject] ++ ([st.predicate] ++ ([st.object] ++
      (st.label.toList ++ [])))) fun u q => u.statement? q = some st := by
    refine (numbers_intern st.subject).bind (lasting_name _) fun x => ?_
    refine (numbers_intern st.predicate).bind (lasting_name _) fun p => ?_
    refine (numbers_intern st.object).bind (lasting_name _) fun y => ?_
    refine (numbers_label st.label).bind (lasting_label st.label) fun l => ?_
    refine Numbers.pure fun u hl hy hp hx => ?_
    rw [statement?_eq_some]
    intro role
    cases role with
    | subject => exact congrArg some hx
    | predicate => exact congrArg some hp
    | object => exact congrArg some hy
    | label => exact hl
  simpa [Statement.names] using h

end NameTable

end Traversal
