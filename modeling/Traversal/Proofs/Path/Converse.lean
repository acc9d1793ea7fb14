import Mathlib.Data.Rel
import Traversal.Proofs.Path.Compile

namespace Traversal

mutual

/-- The steps of the path, with the steps of each path that is followed in its place. -/
def Path.spine : Path → List Step
  | ⟨steps, _⟩ => Step.spineAll steps
termination_by structural p => p

def Step.spineAll : List Step → List Step
  | [] => []
  | s :: ss => s.spine ++ Step.spineAll ss
termination_by structural ss => ss

def Step.spine : Step → List Step
  | .is names => [.is names]
  | .tag names => [.tag names]
  | .out via => [.out via]
  | .into via => [.into via]
  | .plan it => [.plan it]
  | .and path => [.and path]
  | .or path => [.or path]
  | .except path => [.except path]
  | .follow path => path.spine
termination_by structural s => s

end

/-- One relation between nodes that `there` follows forwards and `back` follows backwards. -/
def Converse (there back : Set NodeId → Set NodeId) : Prop :=
  ∃ r : SetRel NodeId NodeId, (∀ xs, there xs = r.image xs) ∧ ∀ ys, back ys = r.preimage ys

namespace Converse

theorem refl : Converse (fun xs => xs) fun xs => xs :=
  ⟨SetRel.id, fun xs => (SetRel.image_id xs).symm, fun ys => (SetRel.preimage_id ys).symm⟩

theorem filter (zs : Set NodeId) : Converse (fun xs => xs ∩ zs) fun xs => xs ∩ zs := by
  refine ⟨{e | e.1 = e.2 ∧ e.1 ∈ zs}, fun xs => ?_, fun ys => ?_⟩
  · ext y
    constructor
    · intro h
      obtain ⟨hy, hz⟩ := h
      exact ⟨y, hy, rfl, hz⟩
    · intro h
      obtain ⟨x, hx, ⟨⟩, hz⟩ := h
      exact ⟨hx, hz⟩
  · ext x
    constructor
    · intro h
      obtain ⟨hx, hz⟩ := h
      exact ⟨x, hx, rfl, hz⟩
    · intro h
      obtain ⟨y, hy, ⟨⟩, hz⟩ := h
      exact ⟨hy, hz⟩

theorem symm {there back : Set NodeId → Set NodeId} (h : Converse there back) :
    Converse back there := by
  obtain ⟨r, hthere, hback⟩ := h
  exact ⟨r.inv, fun xs => (hback xs).trans rfl, fun ys => (hthere ys).trans rfl⟩

/-- The way back walks the parts in the opposite order. -/
theorem comp {there back further home : Set NodeId → Set NodeId} (h : Converse there back)
    (k : Converse further home) :
    Converse (fun xs => further (there xs)) fun ys => back (home ys) := by
  obtain ⟨r, hthere, hback⟩ := h
  obtain ⟨t, hfurther, hhome⟩ := k
  refine ⟨r.comp t, fun xs => ?_, fun ys => ?_⟩
  · change further (there xs) = _
    rw [hthere, hfurther, SetRel.image_comp]
  · change back (home ys) = _
    rw [hhome, hback, SetRel.preimage_comp]

theorem mem_iff {there back : Set NodeId → Set NodeId} (h : Converse there back) (x y : NodeId) :
    y ∈ there {x} ↔ x ∈ back {y} := by
  obtain ⟨r, hthere, hback⟩ := h
  rw [hthere, hback]
  simp

end Converse

theorem converse_edges (g : Graph) (via : Via) :
    Converse ((Step.out via).image g) ((Step.into via).image g) := by
  refine ⟨{e | ∃ p ∈ via.image g, g.edge e.1 p e.2}, fun xs => ?_, fun ys => ?_⟩
  · rfl
  · rfl

/-- The path walked backwards leads from `y` to `x` if the path leads from `x` to `y`. -/
def ConversePath (g : Graph) (p : Path) : Prop :=
  (∀ q, .or q ∉ p.spine) → Converse (p.image g) (p.reverse.image g)

def ConverseStep (g : Graph) (s : Step) : Prop :=
  (∀ q, .or q ∉ s.spine) → Converse (s.image g) (s.reversal.image g)

theorem converse_steps {g : Graph} {steps : List Step} (binding : Option StoreHandle)
    (h : ∀ s ∈ steps, ConverseStep g s) : ConversePath g ⟨steps, binding⟩ := by
  intro hor
  change Converse (Step.imageAll g steps) (Step.imageAll g (Step.reversals steps))
  replace hor : ∀ q, .or q ∉ Step.spineAll steps := hor
  induction steps with
  | nil => exact .refl
  | cons s ss ih =>
    simp only [Step.spineAll, List.mem_append, not_or] at hor
    have first := h s List.mem_cons_self fun q => (hor q).1
    have rest := ih (fun t ht => h t (List.mem_cons_of_mem s ht)) fun q => (hor q).2
    have back : Step.imageAll g (Step.reversals (s :: ss)) = fun ys =>
        s.reversal.image g (Step.imageAll g (Step.reversals ss) ys) := by
      funext ys
      rw [Step.reversals, Step.imageAll_append]
      rfl
    rw [back]
    exact first.comp rest

/-- On a path without alternatives every step is a filter or walks edges, and a filter is its own
converse. The paths that its filters and predicate lists hold are the same in both directions. -/
theorem converse_reverse (g : Graph) : (∀ p, ConversePath g p) ∧ (∀ s, ConverseStep g s) ∧
    ∀ _ : Via, True := by
  apply Path.induction
  case mk => exact fun _ binding => converse_steps binding
  case is => exact fun names _ => .filter (g.named names)
  case tag => exact fun _ _ => .refl
  case out => exact fun via _ _ => converse_edges g via
  case into => exact fun via _ _ => (converse_edges g via).symm
  case plan => exact fun it _ => .filter (g.answers it)
  case and => exact fun p _ _ => .filter (p.image g g.nodes)
  case or =>
    -- An alternative would add nodes from which nothing leads back.
    exact fun p _ hor => absurd List.mem_cons_self (hor p)
  case except => exact fun p _ _ => .filter (g.nodes \ p.image g g.nodes)
  case follow => exact fun p hp => hp
  all_goals
    intros
    trivial

namespace Store

variable {s : Store}

/-- The answers of a path that starts at a named node are the image of that node. -/
theorem mem_evaluate_from (h : s.Valid) {n : String} {i : NodeId} (hn : s.names.id? n = some i)
    {p : Path} {binding : Option StoreHandle} {plan : Plan} {ids : IdSet}
    (hplan : (⟨[.is [n], .follow p], binding⟩ : Path).buildOn s.source = .ok plan)
    (hids : plan.evaluate s.source = .ok ids) (j : NodeId) :
    j ∈ ids ↔ j ∈ p.image s.graph {i} := by
  obtain ⟨plan', hplan', hmeaning, -⟩ := h.compiles.1 ⟨[.is [n], .follow p], binding⟩ s.source.seed
  have e : plan' = plan := Except.ok.inj (hplan'.symm.trans hplan)
  have start : s.graph.nodes ∩ s.graph.named [n] = {i} := by
    have one : s.graph.named [n] = {i} := by
      ext k
      simp [Graph.named, graph, hn, eq_comm]
    rw [Set.inter_eq_right.2 (h.named_subset [n]), one]
  have image : (⟨[.is [n], .follow p], binding⟩ : Path).image s.graph s.graph.nodes =
      p.image s.graph (s.graph.nodes ∩ s.graph.named [n]) := rfl
  rw [plan.sound ids hids, ← e, hmeaning, meaning_seed, image, start]

/-- Reversal is the converse: a path without alternatives leads from a node to another just when
its reversal leads back. -/
theorem mem_evaluate_reverse (h : s.Reachable) {p : Path} (hp : ∀ q, .or q ∉ p.spine)
    {a x : String} {i j : NodeId} (ha : s.names.id? a = some i) (hx : s.names.id? x = some j)
    {b c : Option StoreHandle} {there back : Plan} {ys zs : IdSet}
    (hthere : (⟨[.is [a], .follow p], b⟩ : Path).buildOn s.source = .ok there)
    (hys : there.evaluate s.source = .ok ys)
    (hback : (⟨[.is [x], .follow p.reverse], c⟩ : Path).buildOn s.source = .ok back)
    (hzs : back.evaluate s.source = .ok zs) : j ∈ ys ↔ i ∈ zs := by
  rw [mem_evaluate_from h.valid ha hthere hys, mem_evaluate_from h.valid hx hback hzs]
  exact ((converse_reverse s.graph).1 p hp).mem_iff i j

/-- From `alice` to `bob` and back, past a filter that drops `carol`. -/
theorem mem_evaluate_reverse_friends :
    let p : Path := ⟨[.out (.name "follows"), .except ⟨[.is ["carol"]], none⟩], none⟩
    ∃ there back ys zs,
      (⟨[.is ["alice"], .follow p], none⟩ : Path).buildOn friends.source = .ok there ∧
      there.evaluate friends.source = .ok ys ∧
      (⟨[.is ["bob"], .follow p.reverse], none⟩ : Path).buildOn friends.source = .ok back ∧
      back.evaluate friends.source = .ok zs ∧ ((2 : NodeId) ∈ ys ↔ (0 : NodeId) ∈ zs) := by
  intro p
  have noOr : ∀ q, .or q ∉ p.spine := by
    intro q
    simp [p, Path.spine, Step.spineAll, Step.spine]
  have ha : friends.names.id? "alice" = some 0 := by decide
  have hx : friends.names.id? "bob" = some 2 := by decide
  have valid := reachable_friends.valid
  obtain ⟨there, ys, hthere, hys, -⟩ := valid.exists_evaluate
    (p := ⟨[.is ["alice"], .follow p], none⟩) rfl runs_seed
  obtain ⟨back, zs, hback, hzs, -⟩ := valid.exists_evaluate
    (p := ⟨[.is ["bob"], .follow p.reverse], none⟩) rfl runs_seed
  exact ⟨there, back, ys, zs, hthere, hys, hback, hzs,
    mem_evaluate_reverse reachable_friends noOr ha hx hthere hys hback hzs⟩

end Store

end Traversal
