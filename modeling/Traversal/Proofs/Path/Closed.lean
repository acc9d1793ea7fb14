import Traversal.Proofs.Path.Compile
import Traversal.Query

namespace Traversal

/-- The ends of every edge are nodes of the graph. -/
def Graph.Closed (g : Graph) : Prop :=
  ∀ x p y, g.edge x p y → x ∈ g.nodes ∧ y ∈ g.nodes

namespace Graph.Closed

variable {g : Graph}

theorem image_steps_subset {steps : List Step}
    (hs : ∀ s ∈ steps, ∀ xs ⊆ g.nodes, s.image g xs ⊆ g.nodes) :
    ∀ xs ⊆ g.nodes, Step.imageAll g steps xs ⊆ g.nodes := by
  induction steps with
  | nil => exact fun _ hxs => hxs
  | cons s ss ih =>
    intro xs hxs
    have next : s.image g xs ⊆ g.nodes := hs s List.mem_cons_self xs hxs
    exact ih (fun t ht => hs t (List.mem_cons_of_mem s ht)) _ next

/-- From nodes of the graph a path leads to nodes of the graph. Filters add none, not even those
that keep the answers of a plan, and all that is added is an end of an edge or comes from another
path. -/
theorem image_subset (h : g.Closed) : (∀ p : Path, ∀ xs ⊆ g.nodes, p.image g xs ⊆ g.nodes) ∧
    (∀ s : Step, ∀ xs ⊆ g.nodes, s.image g xs ⊆ g.nodes) ∧ ∀ _ : Via, True := by
  apply Path.induction
  case mk => exact fun _ _ hs => image_steps_subset hs
  case is => exact fun _ _ hxs => Set.inter_subset_left.trans hxs
  case tag => exact fun _ _ hxs => hxs
  case out =>
    intro via _ xs _ y hy
    obtain ⟨x, -, p, -, e⟩ := hy
    exact (h x p y e).2
  case into =>
    intro via _ xs _ x hx
    obtain ⟨y, -, p, -, e⟩ := hx
    exact (h x p y e).1
  case plan => exact fun _ _ hxs => Set.inter_subset_left.trans hxs
  case and => exact fun _ _ _ hxs => Set.inter_subset_left.trans hxs
  case or => exact fun _ hp _ hxs => Set.union_subset hxs (hp g.nodes subset_rfl)
  case except => exact fun _ _ _ hxs => Set.inter_subset_left.trans hxs
  case follow => exact fun _ hp => hp
  all_goals
    intros
    trivial

end Graph.Closed

theorem Path.image_push (g : Graph) (p : Path) (s : Step) (xs : Set NodeId) :
    (p.push s).image g xs = s.image g (p.image g xs) := by
  obtain ⟨steps, binding⟩ := p
  exact Step.imageAll_append g steps [s] xs

theorem Path.planFree_push (p : Path) (s : Step) :
    (p.push s).planFree = (p.planFree && s.every Step.isPlain) := by
  obtain ⟨steps, binding⟩ := p
  change Step.everyAll Step.isPlain (steps ++ [s]) = _
  rw [Step.everyAll_append, Step.everyAll_singleton]
  rfl

namespace Store

variable {s : Store}

theorem Valid.graph_closed (h : s.Valid) : s.graph.Closed := by
  intro x p y e
  obtain ⟨q, hq, rfl, rfl, rfl⟩ := e
  obtain ⟨id, hid⟩ := (h.index.mem_quads q).1 hq
  have subject : q.node? .subject = some q.subject := rfl
  have object : q.node? .object = some q.object := rfl
  exact ⟨h.mem_idSet_of_node hid subject, h.mem_idSet_of_node hid object⟩

theorem Valid.exists_yields_seed (h : s.Valid) {p : Path} (hp : p.planFree = true) :
    ∃ xs, s.Yields p s.source.seed xs ∧ ∀ i, i ∈ xs ↔ i ∈ p.image s.graph s.graph.nodes := by
  have all : s.source.seed.evaluate s.source = .ok s.names.idSet := rfl
  exact h.exists_yields hp all

/-- From every node, `and` and `except` split the nodes of a path in two: those to which the other
path leads, and those to which it does not. -/
theorem yields_and_except (h : s.Reachable) {p q : Path} (hp : p.planFree = true)
    (hq : q.planFree = true) :
    ∃ xs ws ys zs, s.Yields p s.source.seed xs ∧ s.Yields q s.source.seed ws ∧
      s.Yields (p.push (.and q)) s.source.seed ys ∧
      s.Yields (p.push (.except q)) s.source.seed zs ∧
      (∀ i, i ∈ ys ↔ i ∈ xs ∧ i ∈ ws) ∧ (∀ i ∈ ys, i ∉ zs) ∧ ys ∪ zs = xs := by
  have inside : p.image s.graph s.graph.nodes ⊆ s.graph.nodes :=
    h.valid.graph_closed.image_subset.1 p _ subset_rfl
  have hand : (p.push (.and q)).planFree = true := by
    rw [Path.planFree_push, hp]
    exact hq
  have hexcept : (p.push (.except q)).planFree = true := by
    rw [Path.planFree_push, hp]
    exact hq
  obtain ⟨xs, hxs, mem_xs⟩ := h.valid.exists_yields_seed hp
  obtain ⟨ws, hws, mem_ws⟩ := h.valid.exists_yields_seed hq
  obtain ⟨ys, hys, mem_ys⟩ := h.valid.exists_yields_seed hand
  obtain ⟨zs, hzs, mem_zs⟩ := h.valid.exists_yields_seed hexcept
  have kept : ∀ i, i ∈ ys ↔ i ∈ xs ∧ i ∈ ws := by
    intro i
    rw [mem_ys, Path.image_push, mem_xs, mem_ws]
    rfl
  have dropped : ∀ i, i ∈ zs ↔ i ∈ xs ∧ i ∉ ws := by
    intro i
    rw [mem_zs, Path.image_push, mem_xs, mem_ws]
    constructor
    · intro hi
      exact ⟨hi.1, hi.2.2⟩
    · intro hi
      -- What is left out is left out of all nodes, and the path leads to no others.
      exact ⟨hi.1, inside hi.1, hi.2⟩
  refine ⟨xs, ws, ys, zs, hxs, hws, hys, hzs, kept, fun i hi hz => ?_, ?_⟩
  · exact ((dropped i).1 hz).2 ((kept i).1 hi).2
  · apply Std.ExtTreeSet.ext_mem
    intro i
    rw [Std.ExtTreeSet.mem_union_iff, kept, dropped, ← and_or_left]
    exact and_iff_left (Classical.em _)

/-- What is followed is `bob` and `carol`, and only `bob` follows in turn. -/
theorem yields_and_except_friends :
    let p : Path := ⟨[.out (.name "follows")], none⟩
    let q : Path := ⟨[.into (.name "follows")], none⟩
    ∃ xs ws ys zs, friends.Yields p .all xs ∧ friends.Yields q .all ws ∧
      friends.Yields (p.push (.and q)) .all ys ∧ friends.Yields (p.push (.except q)) .all zs ∧
      (∀ i, i ∈ ys ↔ i ∈ xs ∧ i ∈ ws) ∧ (∀ i ∈ ys, i ∉ zs) ∧ ys ∪ zs = xs ∧
      ((p.push (.and q)).queryOn friends.source).map (·.names) = .ok ["bob"] ∧
      ((p.push (.except q)).queryOn friends.source).map (·.names) = .ok ["carol"] := by
  intro p q
  obtain ⟨xs, ws, ys, zs, hxs, hws, hys, hzs, kept, apart, whole⟩ :=
    yields_and_except reachable_friends (p := p) (q := q) rfl rfl
  exact ⟨xs, ws, ys, zs, hxs, hws, hys, hzs, kept, apart, whole, by decide +kernel,
    by decide +kernel⟩

end Store

end Traversal
