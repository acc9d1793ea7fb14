import Traversal.Proofs.Path.Image

namespace Traversal

/-- Nodes that correspond are members of both sets or of neither. -/
def Alike (r : NodeId → NodeId → Prop) (xs ys : Set NodeId) : Prop :=
  ∀ i j, r i j → (i ∈ xs ↔ j ∈ ys)

namespace Alike

variable {r : NodeId → NodeId → Prop} {xs ys xs' ys' : Set NodeId}

theorem symm (h : Alike r xs ys) : Alike (flip r) ys xs :=
  fun j i hij => (h i j hij).symm

theorem inter (h : Alike r xs ys) (k : Alike r xs' ys') : Alike r (xs ∩ xs') (ys ∩ ys') :=
  fun i j hij => and_congr (h i j hij) (k i j hij)

theorem union (h : Alike r xs ys) (k : Alike r xs' ys') : Alike r (xs ∪ xs') (ys ∪ ys') :=
  fun i j hij => or_congr (h i j hij) (k i j hij)

theorem diff (h : Alike r xs ys) (k : Alike r xs' ys') : Alike r (xs \ xs') (ys \ ys') :=
  fun i j hij => and_congr (h i j hij) (not_congr (k i j hij))

end Alike

namespace Graph

/-- Nodes that correspond have the same names and the same edges, and every node of an edge
corresponds to some node of the other graph. What plans answer is left out. -/
structure Matches (r : NodeId → NodeId → Prop) (g h : Graph) : Prop where
  nodes : Alike r g.nodes h.nodes
  node? : ∀ n i j, r i j → (g.node? n = some i ↔ h.node? n = some j)
  edge : ∀ x x' p p' y y', r x x' → r p p' → r y y' → (g.edge x p y ↔ h.edge x' p' y')
  left : ∀ x p y, g.edge x p y → (∃ x', r x x') ∧ (∃ p', r p p') ∧ ∃ y', r y y'
  right : ∀ x' p' y', h.edge x' p' y' → (∃ x, r x x') ∧ (∃ p, r p p') ∧ ∃ y, r y y'

namespace Matches

variable {r : NodeId → NodeId → Prop} {g h : Graph}

theorem symm (m : Matches r g h) : Matches (flip r) h g where
  nodes := m.nodes.symm
  node? n j i hij := (m.node? n i j hij).symm
  edge x' x p' p y' y hx hp hy := (m.edge x x' p p' y y' hx hp hy).symm
  left := m.right
  right := m.left

theorem named (m : Matches r g h) (names : List String) :
    Alike r (g.named names) (h.named names) := by
  cases names with
  | nil => exact m.nodes
  | cons n names =>
    intro i j hij
    change (∃ k ∈ n :: names, g.node? k = some i) ↔ ∃ k ∈ n :: names, h.node? k = some j
    simp only [m.node? _ i j hij]

section Edges

variable {via : Via} {xs ys : Set NodeId}

theorem mem_out (m : Matches r g h) (hvia : Alike r (via.image g) (via.image h))
    (hxs : Alike r xs ys) {i j : NodeId} (hij : r i j) (hi : i ∈ (Step.out via).image g xs) :
    j ∈ (Step.out via).image h ys := by
  obtain ⟨x, hx, p, hp, e⟩ := hi
  obtain ⟨⟨x', hxx⟩, ⟨p', hpp⟩, -⟩ := m.left x p i e
  exact ⟨x', (hxs x x' hxx).1 hx, p', (hvia p p' hpp).1 hp, (m.edge x x' p p' i j hxx hpp hij).1 e⟩

theorem mem_into (m : Matches r g h) (hvia : Alike r (via.image g) (via.image h))
    (hys : Alike r xs ys) {i j : NodeId} (hij : r i j) (hi : i ∈ (Step.into via).image g xs) :
    j ∈ (Step.into via).image h ys := by
  obtain ⟨y, hy, p, hp, e⟩ := hi
  obtain ⟨-, ⟨p', hpp⟩, y', hyy⟩ := m.left i p y e
  exact ⟨y', (hys y y' hyy).1 hy, p', (hvia p p' hpp).1 hp, (m.edge i j p p' y y' hij hpp hyy).1 e⟩

theorem out (m : Matches r g h) (hvia : Alike r (via.image g) (via.image h)) (hxs : Alike r xs ys) :
    Alike r ((Step.out via).image g xs) ((Step.out via).image h ys) :=
  fun _ _ hij => ⟨m.mem_out hvia hxs hij, m.symm.mem_out hvia.symm hxs.symm hij⟩

theorem into (m : Matches r g h) (hvia : Alike r (via.image g) (via.image h))
    (hys : Alike r xs ys) : Alike r ((Step.into via).image g xs) ((Step.into via).image h ys) :=
  fun _ _ hij => ⟨m.mem_into hvia hys hij, m.symm.mem_into hvia.symm hys.symm hij⟩

end Edges

/-- A path without plans leads from nodes that correspond to nodes that correspond. -/
def TransfersPath (r : NodeId → NodeId → Prop) (g h : Graph) (p : Path) : Prop :=
  p.planFree = true → ∀ xs ys, Alike r xs ys → Alike r (p.image g xs) (p.image h ys)

def TransfersStep (r : NodeId → NodeId → Prop) (g h : Graph) (s : Step) : Prop :=
  s.every Step.isPlain = true → ∀ xs ys, Alike r xs ys → Alike r (s.image g xs) (s.image h ys)

def TransfersVia (r : NodeId → NodeId → Prop) (g h : Graph) (v : Via) : Prop :=
  v.every Step.isPlain = true → Alike r (v.image g) (v.image h)

theorem transfers_steps {steps : List Step} (binding : Option StoreHandle)
    (hs : ∀ s ∈ steps, TransfersStep r g h s) : TransfersPath r g h ⟨steps, binding⟩ := by
  intro hplain
  change ∀ xs ys, _ → Alike r (Step.imageAll g steps xs) (Step.imageAll h steps ys)
  replace hplain : Step.everyAll Step.isPlain steps = true := hplain
  induction steps with
  | nil => exact fun xs ys hxs => hxs
  | cons s ss ih =>
    rw [Step.everyAll, Bool.and_eq_true] at hplain
    intro xs ys hxs
    have first := hs s List.mem_cons_self hplain.1 xs ys hxs
    exact ih (fun t ht => hs t (List.mem_cons_of_mem s ht)) hplain.2 _ _ first

theorem transfers (m : Matches r g h) : (∀ p, TransfersPath r g h p) ∧
    (∀ s, TransfersStep r g h s) ∧ ∀ v, TransfersVia r g h v := by
  have fromNodes {p : Path} (hp : TransfersPath r g h p) (hplain : p.planFree = true) :
      Alike r (p.image g g.nodes) (p.image h h.nodes) := hp hplain _ _ m.nodes
  apply Path.induction
  case mk => exact fun _ binding => transfers_steps binding
  case is => exact fun names _ xs ys hxs => hxs.inter (m.named names)
  case tag => exact fun _ _ xs ys hxs => hxs
  case out => exact fun via hvia hplain xs ys hxs => m.out (hvia hplain) hxs
  case into => exact fun via hvia hplain xs ys hxs => m.into (hvia hplain) hxs
  case plan =>
    intro it hplain
    cases hplain
  case and => exact fun p hp hplain xs ys hxs => hxs.inter (fromNodes hp hplain)
  case or => exact fun p hp hplain xs ys hxs => hxs.union (fromNodes hp hplain)
  case except => exact fun p hp hplain xs ys hxs => hxs.inter (m.nodes.diff (fromNodes hp hplain))
  case follow => exact fun p hp => hp
  case any => exact fun _ => m.nodes
  case name => exact fun n _ => m.named [n]
  case names => exact fun ns _ => m.named ns
  case path => exact fun p => fromNodes

end Matches

end Graph

end Traversal
