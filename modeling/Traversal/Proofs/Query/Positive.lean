import Traversal.Proofs.Query.Answer
import Traversal.Proofs.Query.Growth

namespace Traversal

/-- Whether the step neither drops the nodes of a path nor restricts to the answers of a plan. -/
def Step.isPositive : Step → Bool
  | .except _ => false
  | .plan _ => false
  | _ => true

/-- Whether every step is positive, at any depth. -/
def Path.positive (p : Path) : Bool :=
  p.every Step.isPositive

theorem Path.planFree_of_positive {p : Path} (h : p.positive = true) : p.planFree = true := by
  refine (every_mono fun s hs => ?_).1 p h
  cases s with
  | plan it => cases hs
  | _ => rfl

/-- Every node, name and edge of the graph is one of the other. What plans answer is left out. -/
structure Graph.Within (g h : Graph) : Prop where
  nodes : g.nodes ⊆ h.nodes
  node? : ∀ n i, g.node? n = some i → h.node? n = some i
  edge : ∀ x p y, g.edge x p y → h.edge x p y

namespace Graph.Within

variable {g h : Graph}

theorem named (w : Within g h) (names : List String) : g.named names ⊆ h.named names := by
  cases names with
  | nil => exact w.nodes
  | cons n names =>
    intro i hi
    obtain ⟨m, hm, known⟩ := hi
    exact ⟨m, hm, w.node? m i known⟩

/-- From more nodes of a larger graph a positive path leads to more nodes. -/
def GrowsPath (g h : Graph) (p : Path) : Prop :=
  p.positive = true → ∀ xs ys, xs ⊆ ys → p.image g xs ⊆ p.image h ys

def GrowsStep (g h : Graph) (s : Step) : Prop :=
  s.every Step.isPositive = true → ∀ xs ys, xs ⊆ ys → s.image g xs ⊆ s.image h ys

def GrowsVia (g h : Graph) (v : Via) : Prop :=
  v.every Step.isPositive = true → v.image g ⊆ v.image h

theorem grows_steps {steps : List Step} (binding : Option StoreHandle)
    (hs : ∀ s ∈ steps, GrowsStep g h s) : GrowsPath g h ⟨steps, binding⟩ := by
  intro hpos
  replace hpos : Step.everyAll Step.isPositive steps = true := hpos
  change ∀ xs ys, _ → Step.imageAll g steps xs ⊆ Step.imageAll h steps ys
  induction steps with
  | nil => exact fun xs ys hxs => hxs
  | cons s ss ih =>
    rw [Step.everyAll, Bool.and_eq_true] at hpos
    intro xs ys hxs
    have first := hs s List.mem_cons_self hpos.1 xs ys hxs
    exact ih (fun t ht => hs t (List.mem_cons_of_mem s ht)) hpos.2 _ _ first

theorem grows (w : Within g h) : (∀ p, GrowsPath g h p) ∧ (∀ s, GrowsStep g h s) ∧
    ∀ v, GrowsVia g h v := by
  have fromNodes {p : Path} (hp : GrowsPath g h p) (hpos : p.positive = true) :
      p.image g g.nodes ⊆ p.image h h.nodes := hp hpos _ _ w.nodes
  apply Path.induction
  case mk => exact fun _ binding => grows_steps binding
  case is => exact fun names _ xs ys hxs => Set.inter_subset_inter hxs (w.named names)
  case tag => exact fun _ _ xs ys hxs => hxs
  case out =>
    intro via hvia hpos xs ys hxs y hy
    obtain ⟨x, hx, p, hp, e⟩ := hy
    exact ⟨x, hxs hx, p, hvia hpos hp, w.edge x p y e⟩
  case into =>
    intro via hvia hpos xs ys hxs x hx
    obtain ⟨y, hy, p, hp, e⟩ := hx
    exact ⟨y, hxs hy, p, hvia hpos hp, w.edge x p y e⟩
  case plan =>
    intro it hpos
    cases hpos
  case and => exact fun p hp hpos xs ys hxs => Set.inter_subset_inter hxs (fromNodes hp hpos)
  case or => exact fun p hp hpos xs ys hxs => Set.union_subset_union hxs (fromNodes hp hpos)
  case except =>
    -- The nodes that are dropped grow too, so no inclusion would be left.
    intro p _ hpos
    cases hpos
  case follow => exact fun p hp => hp
  case any => exact fun _ => w.nodes
  case name => exact fun n _ => w.named [n]
  case names => exact fun ns _ => w.named ns
  case path => exact fun p => fromNodes

end Graph.Within

namespace Store

/-- What paths see of a store stays there while the store grows. -/
theorem Kept.graph_within {s t : Store} (k : Kept s t) (hs : s.Valid) (ht : t.Valid) :
    Graph.Within s.graph t.graph where
  nodes i hi := by
    obtain ⟨n, hn⟩ := (s.names.mem_idSet i).1 hi
    exact (t.names.mem_idSet i).2 ⟨n, k.names i n hn⟩
  node? n i := k.id? hs ht
  edge x p y e := by
    obtain ⟨q, hq, ends⟩ := e
    have stays : q ∈ t.index.quads.toList := k.quads.subset (Array.mem_toList_iff.2 hq)
    exact ⟨q, Array.mem_toList_iff.1 stays, ends⟩

/-- A query that only asks for what is there loses no answer while the store grows, although names
that were not known may be known later and the plan another one. -/
theorem queryOn_after {s : Store} (h : s.Reachable) (changes : List Change) {p : Path}
    (hp : p.positive = true) :
    ∃ a b, p.queryOn s.source = .ok a ∧ p.queryOn (s.after changes).source = .ok b ∧
      (∀ i ∈ a.ids, i ∈ b.ids) ∧ ∀ n ∈ a.names, n ∈ b.names := by
  obtain ⟨later, kept⟩ := h.valid.after changes
  have within := kept.graph_within h.valid later
  have plain := Path.planFree_of_positive hp
  obtain ⟨a, ha, image, names⟩ := h.valid.exists_query plain
  obtain ⟨b, hb, image', names'⟩ := later.exists_query plain
  have ids : ∀ i ∈ a.ids, i ∈ b.ids := by
    intro i hi
    rw [image] at hi
    rw [image']
    exact within.grows.1 p hp _ _ within.nodes hi
  refine ⟨a, b, ha, hb, ids, fun n hn => ?_⟩
  obtain ⟨i, hi, name⟩ := (names n).1 hn
  exact (names' n).2 ⟨i, ids i hi, kept.names i n name⟩

/-- `dave` is not known at first. Then `dave` is found by name, and as one that follows `alice`. -/
theorem queryOn_after_friends :
    let later := friends.after [.add ⟨"dave", "follows", "alice", none⟩]
    let p : Path := ⟨[.is ["alice", "dave"], .or ⟨[.is ["alice"], .into (.name "follows")], none⟩],
      none⟩
    (∃ a b, p.queryOn friends.source = .ok a ∧ p.queryOn later.source = .ok b ∧
      (∀ i ∈ a.ids, i ∈ b.ids) ∧ ∀ n ∈ a.names, n ∈ b.names) ∧
    (p.queryOn friends.source).map (·.names) = .ok ["alice"] ∧
    (p.queryOn later.source).map (·.names) = .ok ["alice", "dave"] :=
  ⟨queryOn_after reachable_friends _ rfl, by decide +kernel, by decide +kernel⟩

end Store

end Traversal
