import Traversal.Proofs.Path.Converse

namespace Traversal

/-- From a union the map leads to the union of what it leads to from each part. -/
def Additive (f : Set NodeId → Set NodeId) : Prop :=
  ∀ xs ys, f (xs ∪ ys) = f xs ∪ f ys

namespace Additive

variable {f g : Set NodeId → Set NodeId}

/-- To walk a relation is additive, since every end has a start of its own. -/
theorem of_converse (h : Converse f g) : Additive f := by
  obtain ⟨r, walks, -⟩ := h
  intro xs ys
  rw [walks, walks, walks, SetRel.image_union]

/-- The nodes that are added come from no start, and yet both sides have them. -/
theorem adjoin (zs : Set NodeId) : Additive fun xs => xs ∪ zs :=
  fun xs ys => Set.union_union_distrib_right xs ys zs

theorem comp (h : Additive f) (k : Additive g) : Additive fun xs => g (f xs) := by
  intro xs ys
  change g (f (xs ∪ ys)) = g (f xs) ∪ g (f ys)
  rw [h, k]

theorem mono (h : Additive f) {xs ys : Set NodeId} (hxs : xs ⊆ ys) : f xs ⊆ f ys := by
  have all : xs ∪ ys = ys := Set.union_eq_self_of_subset_left hxs
  rw [← all, h]
  exact Set.subset_union_left

end Additive

theorem additive_steps {g : Graph} {steps : List Step} (binding : Option StoreHandle)
    (hs : ∀ s ∈ steps, Additive (s.image g)) :
    Additive ((⟨steps, binding⟩ : Path).image g) := by
  change Additive (Step.imageAll g steps)
  induction steps with
  | nil => exact fun _ _ => rfl
  | cons s ss ih =>
    have rest := ih fun t ht => hs t (List.mem_cons_of_mem s ht)
    exact (hs s List.mem_cons_self).comp rest

/-- Every step but `or` walks a relation. The paths that steps hold start from every node of the
graph, so they are the same sets whatever the start is, complements included. -/
theorem additive_image (g : Graph) : (∀ p : Path, Additive (p.image g)) ∧
    (∀ s : Step, Additive (s.image g)) ∧ ∀ _ : Via, True := by
  apply Path.induction
  case mk => exact fun _ binding => additive_steps binding
  case is => exact fun names => .of_converse (.filter (g.named names))
  case tag => exact fun _ => .of_converse .refl
  case out => exact fun via _ => .of_converse (converse_edges g via)
  case into => exact fun via _ => .of_converse (converse_edges g via).symm
  case plan => exact fun it => .of_converse (.filter (g.answers it))
  case and => exact fun p _ => .of_converse (.filter (p.image g g.nodes))
  case or => exact fun p _ => .adjoin (p.image g g.nodes)
  case except => exact fun p _ => .of_converse (.filter (g.nodes \ p.image g g.nodes))
  case follow => exact fun _ hp => hp
  all_goals
    intros
    trivial

theorem Plan.evaluate_or_pair {src : Source} {a b : Plan} {xs ys : IdSet}
    (ha : a.evaluate src = .ok xs) (hb : b.evaluate src = .ok ys) :
    (Plan.or [a, b]).evaluate src = .ok (xs ∪ ys) := by
  have last : ys ∪ (∅ : IdSet) = ys := by
    apply Std.ExtTreeSet.ext_mem
    intro i
    simp [Std.ExtTreeSet.mem_union_iff]
  have second : Plan.join src [b] = .ok ys :=
    bind_eq_ok.2 ⟨ys, hb, bind_eq_ok.2 ⟨∅, rfl, congrArg Except.ok last⟩⟩
  exact bind_eq_ok.2 ⟨xs, ha, bind_eq_ok.2 ⟨ys, second, rfl⟩⟩

namespace Store

/-- From the answers of two plans together a path leads to what it leads to from each of them. So
more answers at the start are more answers at the end, even through steps that drop nodes. -/
theorem yields_or {s : Store} (h : s.Reachable) {p : Path} (hp : p.planFree = true) {a b : Plan}
    {xs ys : IdSet} (ha : a.evaluate s.source = .ok xs) (hb : b.evaluate s.source = .ok ys) :
    ∃ vs ws, s.Yields p a vs ∧ s.Yields p b ws ∧ s.Yields p (.or [a, b]) (vs ∪ ws) ∧
      ((∀ i ∈ xs, i ∈ ys) → ∀ i ∈ vs, i ∈ ws) := by
  have additive : Additive (p.image s.graph) := (additive_image s.graph).1 p
  obtain ⟨vs, hvs, mem_vs⟩ := h.valid.exists_yields hp ha
  obtain ⟨ws, hws, mem_ws⟩ := h.valid.exists_yields hp hb
  obtain ⟨us, hus, mem_us⟩ := h.valid.exists_yields hp (Plan.evaluate_or_pair ha hb)
  have start : {x | x ∈ xs ∪ ys} = {x | x ∈ xs} ∪ {x | x ∈ ys} := by
    ext x
    exact Std.ExtTreeSet.mem_union_iff
  have union : us = vs ∪ ws := by
    apply Std.ExtTreeSet.ext_mem
    intro i
    rw [mem_us, start, additive, Std.ExtTreeSet.mem_union_iff, mem_vs, mem_ws]
    rfl
  refine ⟨vs, ws, hvs, hws, union ▸ hus, fun more i hi => ?_⟩
  rw [mem_vs] at hi
  rw [mem_ws]
  exact additive.mono more hi

/-- From `alice` and `bob` together, and from `bob` against all nodes. The path drops `carol` on the
way and adds `alice`. -/
theorem yields_or_friends :
    let p : Path := ⟨[.out (.name "follows"), .except ⟨[.is ["carol"]], none⟩,
      .or ⟨[.is ["alice"]], none⟩], none⟩
    let alice : Plan := .fixed (.ofList [0])
    let bob : Plan := .fixed (.ofList [2])
    (∃ vs ws, friends.Yields p alice vs ∧ friends.Yields p bob ws ∧
      friends.Yields p (.or [alice, bob]) (vs ∪ ws)) ∧
    ∃ vs ws, friends.Yields p bob vs ∧ friends.Yields p .all ws ∧ ∀ i ∈ vs, i ∈ ws := by
  intro p alice bob
  obtain ⟨vs, ws, hvs, hws, both, -⟩ := yields_or reachable_friends (p := p) rfl
    (a := alice) (b := bob) rfl rfl
  obtain ⟨ts, us, hts, hus, -, more⟩ := yields_or reachable_friends (p := p) rfl
    (a := bob) (b := .all) rfl rfl
  have known : ∀ i ∈ (NodeList.ofList [2]).toIdSet, i ∈ friends.names.idSet := by
    intro i hi
    obtain rfl : i = 2 := List.mem_singleton.1 (NodeList.mem_toIdSet.1 hi)
    decide +kernel
  exact ⟨⟨vs, ws, hvs, hws, both⟩, ts, us, hts, hus, more known⟩

end Store

end Traversal
