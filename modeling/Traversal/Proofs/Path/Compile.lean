import Traversal.Path.Compile
import Traversal.Proofs.Path.Image
import Traversal.Proofs.Plan.Meaning
import Traversal.Proofs.Store.Reachable

namespace Traversal.Store

/-- What paths see of the store. -/
def graph (s : Store) : Graph where
  nodes := {i | i ∈ s.names.idSet}
  node? := s.names.id?
  edge x p y := ∃ q ∈ s.index.quads, q.subject = x ∧ q.predicate = p ∧ q.object = y
  answers it := it.meaning s.source

variable {s : Store}

theorem addNamed_eq (nodes : NodeList) (names : List String) :
    s.source.addNamed nodes names = .ok (nodes.addAll (names.filterMap s.names.id?)) := by
  induction names generalizing nodes with
  | nil => rfl
  | cons n names ih =>
    have value : s.source.valueOf n = .ok (s.names.id? n) := rfl
    rw [Source.addNamed, value]
    cases hn : s.names.id? n with
    | none =>
      rw [List.filterMap_cons_none hn]
      exact ih nodes
    | some id =>
      rw [List.filterMap_cons_some hn]
      exact ih (nodes.add id)

theorem meaning_seed : s.source.seed.meaning s.source = s.graph.nodes := by
  ext i
  simp [source, graph, Plan.meaning]

theorem runs_seed : s.source.seed.Runs s.source :=
  ⟨s.names.idSet, rfl⟩

theorem exists_named (names : List String) : ∃ sub, s.source.named names = .ok sub ∧
    sub.meaning s.source = s.graph.named names ∧ sub.Runs s.source := by
  cases names with
  | nil => exact ⟨s.source.seed, rfl, meaning_seed, runs_seed⟩
  | cons n names =>
    refine ⟨.fixed (NodeList.addAll ∅ ((n :: names).filterMap s.names.id?)), ?_, ?_, ⟨_, rfl⟩⟩
    · change (do
        let nodes ← s.source.addNamed ∅ (n :: names)
        return Plan.fixed nodes) = _
      rw [addNamed_eq]
      rfl
    · ext i
      have none : i ∉ (∅ : NodeList).ids := List.not_mem_nil
      simp only [Plan.meaning, Set.mem_ofPred_eq, NodeList.mem_ids_addAll, none, false_or,
        List.mem_filterMap]
      rfl

theorem exists_restrict (names : List String) (it : Plan) :
    ∃ plan, s.source.restrict names it = .ok plan ∧
      plan.meaning s.source = it.meaning s.source ∩ s.graph.named names ∧
      (it.Runs s.source → plan.Runs s.source) := by
  obtain ⟨sub, hsub, hmeaning, hruns⟩ := exists_named (s := s) names
  refine ⟨.and [sub, it], ?_, ?_, ?_⟩
  · rw [Source.restrict, hsub]
    rfl
  · simp [Plan.meaning, Plan.common, hmeaning, Set.inter_comm]
  · intro hit
    apply Plan.runs_and
    simp [hruns, hit]

namespace Valid

theorem named_subset (h : s.Valid) (names : List String) : s.graph.named names ⊆ s.graph.nodes := by
  intro i hi
  cases names with
  | nil => exact hi
  | cons n names =>
    obtain ⟨m, -, hm⟩ := hi
    exact (s.names.mem_idSet i).2 ⟨m, (h.names.inverse m i).1 hm⟩

theorem mem_linksTo (h : s.Valid) (role : Role) (sub : Plan) (tags : TagSet) (id : QuadId) :
    id ∈ (Plan.linksTo role sub tags).meaning s.source ↔
      ∃ q, s.index.quad? id = some q ∧ ∃ node ∈ sub.meaning s.source, q.node? role = some node := by
  simp only [Plan.meaning, Set.mem_ofPred_eq, source, Except.ok.injEq, exists_eq_left',
    h.index.mem_quadsWith]
  constructor
  · intro hh
    obtain ⟨node, hnode, q, hq, hrole⟩ := hh
    exact ⟨q, hq, node, hnode, hrole⟩
  · intro hh
    obtain ⟨q, hq, node, hnode, hrole⟩ := hh
    exact ⟨node, hnode, q, hq, hrole⟩

/-- The index answers the far ends of just the quads that have the right predicate and near end. -/
theorem mem_across (h : s.Valid) (near far : Role) (predicates it : Plan) (i : NodeId) :
    i ∈ (Plan.across near far predicates it).meaning s.source ↔
      ∃ q ∈ s.index.quads, q.predicate ∈ predicates.meaning s.source ∧
        (∃ x ∈ it.meaning s.source, q.node? near = some x) ∧ q.node? far = some i := by
  have stored (id : QuadId) (q : Quad) : s.source.quad id = .ok (some q) ↔
      s.index.quad? id = some q := by simp [source]
  simp only [Plan.across, Plan.meaning, Plan.common, Set.mem_ofPred_eq, Set.mem_inter_iff,
    Set.mem_univ, and_true, stored]
  constructor
  · intro hh
    obtain ⟨id, ⟨hp, hx⟩, q, hq, hfar⟩ := hh
    obtain ⟨r, hr, p, hpred, hrole⟩ := (h.mem_linksTo _ _ ∅ id).1 hp
    obtain ⟨r', hr', hnear⟩ := (h.mem_linksTo _ _ ∅ id).1 hx
    rw [hq] at hr hr'
    cases hr
    cases hr'
    cases hrole
    exact ⟨q, (h.index.mem_quads q).2 ⟨id, hq⟩, hpred, hnear, hfar⟩
  · intro hh
    obtain ⟨q, hmem, hp, hx, hfar⟩ := hh
    obtain ⟨id, hq⟩ := (h.index.mem_quads q).1 hmem
    exact ⟨id, ⟨(h.mem_linksTo _ _ ∅ id).2 ⟨q, hq, q.predicate, hp, rfl⟩,
      (h.mem_linksTo _ _ ∅ id).2 ⟨q, hq, hx⟩⟩, q, hq, hfar⟩

theorem runs_across (h : s.Valid) (near far : Role) {predicates it : Plan}
    (hp : predicates.Runs s.source) (hit : it.Runs s.source) :
    (Plan.across near far predicates it).Runs s.source := by
  have answers : ∀ role node, ∃ ids, s.source.quadsWith role node = .ok ids :=
    fun role node => ⟨_, rfl⟩
  apply Plan.runs_hasA
  · apply Plan.runs_and
    intro p hmem
    simp only [List.mem_cons, List.not_mem_nil, or_false] at hmem
    rcases hmem with rfl | rfl
    · exact Plan.runs_linksTo answers _ _ hp
    · exact Plan.runs_linksTo answers _ _ hit
  · intro id hid
    simp only [Plan.meaning, Plan.common, Set.mem_inter_iff] at hid
    obtain ⟨q, hq, -⟩ := (h.mem_linksTo _ _ ∅ id).1 hid.1
    exact ⟨q, congrArg Except.ok hq⟩

end Valid

/-- Compilation gives a plan that stands for `xs` and can be evaluated under the condition. -/
def Compiles (s : Store) (result : Except PathError Plan) (xs : Set NodeId) (cond : Prop) : Prop :=
  ∃ plan, result = .ok plan ∧ plan.meaning s.source = xs ∧ (cond → plan.Runs s.source)

/-- From every input plan, compilation gives a plan that stands for the image of the input. If no
step keeps the answers of a plan, it can be evaluated whenever the input can. -/
def CompilesPath (s : Store) (p : Path) : Prop :=
  ∀ it : Plan, Compiles s (p.apply s.source it) (p.image s.graph (it.meaning s.source))
    (p.planFree = true ∧ it.Runs s.source)

def CompilesStep (s : Store) (st : Step) : Prop :=
  ∀ it : Plan, Compiles s (st.apply s.source it) (st.image s.graph (it.meaning s.source))
    (st.every Step.isPlain = true ∧ it.Runs s.source)

def CompilesVia (s : Store) (v : Via) : Prop :=
  Compiles s (v.compile s.source) (v.image s.graph) (v.every Step.isPlain = true)

theorem compiles_steps {steps : List Step} (binding : Option StoreHandle)
    (h : ∀ st ∈ steps, CompilesStep s st) : CompilesPath s ⟨steps, binding⟩ := by
  intro it
  change Compiles s (Step.applyAll s.source steps it)
    (Step.imageAll s.graph steps (it.meaning s.source))
    (Step.everyAll Step.isPlain steps = true ∧ it.Runs s.source)
  induction steps generalizing it with
  | nil => exact ⟨it, rfl, rfl, fun c => c.2⟩
  | cons st ss ih =>
    obtain ⟨next, hnext, hm, hr⟩ := h st List.mem_cons_self it
    obtain ⟨plan, hplan, hm', hr'⟩ := ih (fun t ht => h t (List.mem_cons_of_mem st ht)) next
    refine ⟨plan, bind_eq_ok.2 ⟨next, hnext, hplan⟩, ?_, ?_⟩
    · rw [hm', hm]
      rfl
    · intro hh
      obtain ⟨hplain, hit⟩ := hh
      rw [Step.everyAll, Bool.and_eq_true] at hplain
      exact hr' ⟨hplain.2, hr ⟨hplain.1, hit⟩⟩

theorem compiles_is (names : List String) : CompilesStep s (.is names) := by
  intro it
  obtain ⟨plan, hplan, hmeaning, hruns⟩ := exists_restrict (s := s) names it
  exact ⟨plan, hplan, hmeaning, fun c => hruns c.2⟩

theorem compiles_tag (names : List String) : CompilesStep s (.tag names) := by
  intro it
  refine ⟨it.addTags names, rfl, Plan.meaning_addTags it names, ?_⟩
  intro h
  obtain ⟨-, ids, hit⟩ := h
  exact ⟨ids, by rw [Plan.evaluate_addTags, hit]⟩

theorem compiles_plan (plan : Plan) : CompilesStep s (.plan plan) := by
  intro it
  refine ⟨.and [plan, it], rfl, ?_, ?_⟩
  · simp [Plan.meaning, Plan.common, Step.image, graph, Set.inter_comm]
  · intro h
    obtain ⟨hplain, -⟩ := h
    cases hplain

/-- A path inside a path is compiled from every node of the store. -/
theorem CompilesPath.fromSeed {p : Path} (h : CompilesPath s p) :
    Compiles s (p.apply s.source s.source.seed) (p.image s.graph s.graph.nodes)
      (p.planFree = true) := by
  obtain ⟨sub, hsub, hm, hr⟩ := h s.source.seed
  refine ⟨sub, hsub, ?_, fun c => hr ⟨c, runs_seed⟩⟩
  rw [hm, meaning_seed]

theorem compiles_and {p : Path} (h : CompilesPath s p) : CompilesStep s (.and p) := by
  intro it
  obtain ⟨sub, hsub, hm, hr⟩ := h.fromSeed
  refine ⟨.and [it, sub], bind_eq_ok.2 ⟨sub, hsub, rfl⟩, ?_, ?_⟩
  · simp [Plan.meaning, Plan.common, Step.image, hm]
  · intro hh
    obtain ⟨hplain, hit⟩ := hh
    exact Plan.runs_and _ (by simp [hit, hr hplain])

theorem compiles_or {p : Path} (h : CompilesPath s p) : CompilesStep s (.or p) := by
  intro it
  obtain ⟨sub, hsub, hm, hr⟩ := h.fromSeed
  refine ⟨.or [it, sub], bind_eq_ok.2 ⟨sub, hsub, rfl⟩, ?_, ?_⟩
  · simp [Plan.meaning, Plan.united, Step.image, hm]
  · intro hh
    obtain ⟨hplain, hit⟩ := hh
    exact Plan.runs_or _ (by simp [hit, hr hplain])

theorem compiles_except {p : Path} (h : CompilesPath s p) : CompilesStep s (.except p) := by
  intro it
  obtain ⟨sub, hsub, hm, hr⟩ := h.fromSeed
  refine ⟨.and [it, .not sub s.source.seed], bind_eq_ok.2 ⟨sub, hsub, rfl⟩, ?_, ?_⟩
  · rw [Plan.meaning, Plan.common, Plan.common, Set.inter_univ, Plan.meaning, hm, meaning_seed]
    rfl
  · intro hh
    obtain ⟨hplain, hit⟩ := hh
    have hnot := Plan.runs_not ∅ (hr hplain) runs_seed
    exact Plan.runs_and _ (by simp [hit, hnot])

namespace Valid

/-- The names of a predicate list stand for predicates, since a name that is known is a node. -/
theorem compiles_names (h : s.Valid) (names : List String) (cond : Prop) :
    Compiles s (s.source.restrict names s.source.seed) (s.graph.named names) cond := by
  obtain ⟨plan, hplan, hmeaning, hruns⟩ := exists_restrict (s := s) names s.source.seed
  refine ⟨plan, hplan, ?_, fun _ => hruns runs_seed⟩
  rw [hmeaning, meaning_seed]
  exact Set.inter_eq_right.2 (h.named_subset names)

theorem compiles_across (h : s.Valid) {via : Via} (hvia : CompilesVia s via) (near far : Role)
    (it : Plan) {xs : Set NodeId}
    (hxs : ∀ y, y ∈ xs ↔ ∃ q ∈ s.index.quads, q.predicate ∈ via.image s.graph ∧
      (∃ x ∈ it.meaning s.source, q.node? near = some x) ∧ q.node? far = some y) :
    Compiles s (do
      let predicates ← via.compile s.source
      return .across near far predicates it) xs
      (via.every Step.isPlain = true ∧ it.Runs s.source) := by
  obtain ⟨predicates, hcompile, hmeaning, hruns⟩ := hvia
  refine ⟨.across near far predicates it, bind_eq_ok.2 ⟨predicates, hcompile, rfl⟩, ?_, ?_⟩
  · ext y
    rw [h.mem_across, hmeaning, hxs]
  · intro hh
    obtain ⟨hplain, hit⟩ := hh
    exact h.runs_across near far (hruns hplain) hit

theorem compiles_out (h : s.Valid) {via : Via} (hvia : CompilesVia s via) :
    CompilesStep s (.out via) := by
  intro it
  refine h.compiles_across hvia .subject .object it fun y => ?_
  constructor
  · intro hh
    obtain ⟨x, hx, p, hp, q, hq, rfl, rfl, rfl⟩ := hh
    exact ⟨q, hq, hp, ⟨_, hx, rfl⟩, rfl⟩
  · intro hh
    obtain ⟨q, hq, hp, ⟨x, hx, ⟨⟩⟩, ⟨⟩⟩ := hh
    exact ⟨_, hx, _, hp, q, hq, rfl, rfl, rfl⟩

theorem compiles_into (h : s.Valid) {via : Via} (hvia : CompilesVia s via) :
    CompilesStep s (.into via) := by
  intro it
  refine h.compiles_across hvia .object .subject it fun x => ?_
  constructor
  · intro hh
    obtain ⟨y, hy, p, hp, q, hq, rfl, rfl, rfl⟩ := hh
    exact ⟨q, hq, hp, ⟨_, hy, rfl⟩, rfl⟩
  · intro hh
    obtain ⟨q, hq, hp, ⟨y, hy, ⟨⟩⟩, ⟨⟩⟩ := hh
    exact ⟨_, hy, _, hp, q, hq, rfl, rfl, rfl⟩

/-- Compilation never fails on a store, and the plan of a path stands for its image. -/
theorem compiles (h : s.Valid) : (∀ p, CompilesPath s p) ∧ (∀ st, CompilesStep s st) ∧
    ∀ v, CompilesVia s v := by
  apply Path.induction
  case mk => exact fun _ binding => compiles_steps binding
  case is => exact compiles_is
  case tag => exact compiles_tag
  case out => exact fun _ => h.compiles_out
  case into => exact fun _ => h.compiles_into
  case plan => exact compiles_plan
  case and => exact fun _ => compiles_and
  case or => exact fun _ => compiles_or
  case except => exact fun _ => compiles_except
  case follow => exact fun _ => id
  case any => exact h.compiles_names [] _
  case name => exact fun n => h.compiles_names [n] _
  case names => exact fun ns => h.compiles_names ns _
  case path => exact fun _ => CompilesPath.fromSeed

theorem exists_evaluate (h : s.Valid) {p : Path} (hp : p.planFree = true) {it : Plan}
    (hit : it.Runs s.source) : ∃ plan ids, p.apply s.source it = .ok plan ∧
      plan.evaluate s.source = .ok ids ∧
      ∀ i, i ∈ ids ↔ i ∈ p.image s.graph (it.meaning s.source) := by
  obtain ⟨plan, hplan, hmeaning, hruns⟩ := h.compiles.1 p it
  obtain ⟨ids, hids⟩ := hruns ⟨hp, hit⟩
  refine ⟨plan, ids, hplan, hids, fun i => ?_⟩
  rw [plan.sound ids hids i, hmeaning]

end Valid

/-- On the store, the path compiles from `it` to a plan that evaluates to these ids. -/
def Yields (s : Store) (p : Path) (it : Plan) (ids : IdSet) : Prop :=
  ∃ plan, p.apply s.source it = .ok plan ∧ plan.evaluate s.source = .ok ids

theorem Valid.exists_yields (h : s.Valid) {p : Path} (hp : p.planFree = true) {it : Plan}
    {xs : IdSet} (hit : it.evaluate s.source = .ok xs) :
    ∃ ys, s.Yields p it ys ∧ ∀ i, i ∈ ys ↔ i ∈ p.image s.graph {x | x ∈ xs} := by
  have input : it.meaning s.source = {x | x ∈ xs} := by
    ext x
    exact (it.sound xs hit x).symm
  obtain ⟨plan, ys, hplan, hys, answers⟩ := h.exists_evaluate hp ⟨xs, hit⟩
  rw [input] at answers
  exact ⟨ys, ⟨plan, hplan, hys⟩, answers⟩

/-- A path without plans, compiled on a store from a plan that can be evaluated, gives a plan that
can be evaluated too. Its answers are the image of the answers of the input. -/
theorem evaluate_apply {s : Store} (h : s.Reachable) {p : Path} (hp : p.planFree = true) {it : Plan}
    {xs : IdSet} (hit : it.evaluate s.source = .ok xs) :
    ∃ plan ys, p.apply s.source it = .ok plan ∧ plan.evaluate s.source = .ok ys ∧
      ∀ i, i ∈ ys ↔ i ∈ p.image s.graph {x | x ∈ xs} := by
  have input : it.meaning s.source = {x | x ∈ xs} := by
    ext x
    exact (it.sound xs hit x).symm
  rw [← input]
  exact h.valid.exists_evaluate hp ⟨xs, hit⟩

/-- A name that is not known and a nested path, compiled from every node. -/
theorem evaluate_apply_friends :
    let p : Path := ⟨[.is ["alice", "nobody"], .out .any, .or ⟨[.into (.name "follows")], none⟩,
      .except ⟨[.is ["carol"]], none⟩], none⟩
    ∃ plan ys, p.apply friends.source .all = .ok plan ∧ plan.evaluate friends.source = .ok ys ∧
      ∀ i, i ∈ ys ↔ i ∈ p.image friends.graph {x | x ∈ friends.names.idSet} :=
  evaluate_apply reachable_friends rfl rfl

end Traversal.Store
