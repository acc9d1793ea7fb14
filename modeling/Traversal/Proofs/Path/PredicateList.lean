import Traversal.Path.Compile
import Traversal.Proofs.Plan.Meaning
import Traversal.Proofs.Store.Reachable

namespace Traversal

namespace ViaArg

theorem mapM_name?_names (ns : List String) : (ns.map name).mapM name? = some ns := by
  induction ns with
  | nil => rfl
  | cons n ns ih => simp [List.mapM_cons, ih, name?]

/-- The entries are no list of names if there is a path among them, wherever it stands. -/
theorem mapM_name?_eq_none {args : List ViaArg} :
    args.mapM name? = none ↔ ∃ p, path p ∈ args := by
  induction args with
  | nil => simp
  | cons arg args ih =>
    cases arg with
    | path p => simp [List.mapM_cons, name?]
    | name n =>
      have rest : (∃ p, path p ∈ name n :: args) ↔ ∃ p, path p ∈ args := by simp
      rw [rest, ← ih]
      cases hrest : args.mapM name? with
      | none => simp [List.mapM_cons, name?, hrest]
      | some ns => simp [List.mapM_cons, name?, hrest]

end ViaArg

namespace Via

theorem ofArgs_of_two_le {args : List ViaArg} (h : 2 ≤ args.length) :
    ofArgs args = match args.mapM ViaArg.name? with
      | some ns => .ok (names ns)
      | none => .error .mixedVia := by
  match args with
  | .name _ :: _ :: _ => rfl
  | .path _ :: _ :: _ => rfl

theorem ofArgs_names (ns : List String) : ofArgs (ns.map .name) = .ok (ofNames ns) := by
  match ns with
  | [] => rfl
  | [n] => rfl
  | n :: m :: ns =>
    rw [ofArgs_of_two_le (by simp), ViaArg.mapM_name?_names]
    rfl

theorem ofArgs_eq_error {args : List ViaArg} {e : PathError} : ofArgs args = .error e ↔
    e = .mixedVia ∧ 2 ≤ args.length ∧ ∃ p, .path p ∈ args := by
  by_cases long : 2 ≤ args.length
  · rw [ofArgs_of_two_le long, ← ViaArg.mapM_name?_eq_none]
    cases args.mapM ViaArg.name? with
    | none => simp [long, eq_comm]
    | some ns => simp
  · -- A single entry stands for itself, also if it is a path.
    have short : ∃ v, ofArgs args = .ok v := by
      match args with
      | [] => exact ⟨_, rfl⟩
      | [.name n] => exact ⟨_, rfl⟩
      | [.path p] => exact ⟨_, rfl⟩
      | _ :: _ :: args => simp at long
    obtain ⟨v, hv⟩ := short
    simp [hv, long]

/-- The ways to write a list of names as the predicates of an edge. -/
inductive Spells (ns : List String) : Via → Prop
  | names : Spells ns (.names ns)
  | ofNames : Spells ns (.ofNames ns)
  | ofArgs {v : Via} (h : Via.ofArgs (ns.map .name) = .ok v) : Spells ns v
  | template : Spells ns (.path (.template ns))

theorem compile_ofNames (src : Source) (ns : List String) :
    (ofNames ns).compile src = src.restrict ns src.seed := by
  match ns with
  | [] => rfl
  | [_] => rfl
  | _ :: _ :: _ => rfl

theorem compile_template (src : Source) (ns : List String) :
    (path (.template ns)).compile src = src.restrict ns src.seed := by
  change (do
    let next ← src.restrict ns src.seed
    Step.applyAll src [] next) = _
  cases src.restrict ns src.seed with
  | error e => rfl
  | ok plan => rfl

theorem Spells.compile_eq {ns : List String} {v : Via} (h : Spells ns v) (src : Source) :
    v.compile src = src.restrict ns src.seed := by
  cases h with
  | names => rfl
  | ofNames => exact compile_ofNames src ns
  | template => exact compile_template src ns
  | ofArgs h =>
    rw [ofArgs_names] at h
    cases h
    exact compile_ofNames src ns

end Via

namespace Source

variable {src : Source}

theorem mem_addNamed {nodes l : NodeList} {names : List String}
    (h : src.addNamed nodes names = .ok l) (i : NodeId) :
    i ∈ l.ids ↔ i ∈ nodes.ids ∨ ∃ n ∈ names, src.valueOf n = .ok (some i) := by
  induction names generalizing nodes with
  | nil =>
    cases h
    simp
  | cons n names ih =>
    obtain ⟨known, hknown, h⟩ := bind_eq_ok.1 h
    cases known with
    | none => simp [ih h, hknown]
    | some id => simp [ih h, hknown, NodeList.mem_ids_add, or_assoc, eq_comm]

end Source

/-- The plans answer the same, or fail alike, on every source. -/
def Plan.AnswersAlike (p q : Plan) : Prop :=
  ∀ src : Source, p.evaluate src = q.evaluate src

namespace Plan.AnswersAlike

theorem refl (p : Plan) : p.AnswersAlike p :=
  fun _ => rfl

theorem fixed {l m : NodeList} (h : ∀ i, i ∈ l.ids ↔ i ∈ m.ids) :
    (Plan.fixed l).AnswersAlike (.fixed m) := by
  have same : l.toIdSet = m.toIdSet := by
    apply Std.ExtTreeSet.ext_mem
    intro i
    rw [NodeList.mem_toIdSet, NodeList.mem_toIdSet, h]
  exact fun _ => congrArg Except.ok same

variable {p q : Plan}

theorem and (h : p.AnswersAlike q) (it : Plan) :
    (Plan.and [p, it]).AnswersAlike (.and [q, it]) := by
  intro src
  simp only [evaluate, h src]

theorem across (h : p.AnswersAlike q) (near far : Role) (it : Plan) :
    (Plan.across near far p it).AnswersAlike (.across near far q it) := by
  intro src
  simp only [Plan.across, evaluate, h src]

end Plan.AnswersAlike

/-- In either direction, a step along edges meets the plan of its predicates with `it`. -/
theorem Step.exists_across {step : Via → Step} (h : step ∈ [Step.out, Step.into]) :
    ∃ near far, ∀ (v : Via) (src : Source) (it : Plan), (step v).apply src it = (do
      let predicates ← v.compile src
      return .across near far predicates it) := by
  simp only [List.mem_cons, List.not_mem_nil, or_false] at h
  rcases h with rfl | rfl
  · exact ⟨.subject, .object, fun _ _ _ => rfl⟩
  · exact ⟨.object, .subject, fun _ _ _ => rfl⟩

section SameNames

variable {src : Source} {ns ms : List String}

theorem Source.named_answersAlike (same : ∀ n, n ∈ ns ↔ n ∈ ms) {p q : Plan}
    (hp : src.named ns = .ok p) (hq : src.named ms = .ok q) : p.AnswersAlike q := by
  have empty : ns = [] ↔ ms = [] := by simp only [List.eq_nil_iff_forall_not_mem, same]
  cases ns with
  | nil =>
    -- No names stand for every node, so the other list must not name any either.
    obtain rfl := empty.1 rfl
    rw [hp] at hq
    cases hq
    exact .refl p
  | cons n ns =>
    cases ms with
    | nil => exact absurd (empty.2 rfl) (List.cons_ne_nil n ns)
    | cons m ms =>
      obtain ⟨l, hl, hp⟩ := bind_eq_ok.1 hp
      obtain ⟨l', hl', hq⟩ := bind_eq_ok.1 hq
      cases hp
      cases hq
      refine .fixed fun i => ?_
      simp only [mem_addNamed hl, mem_addNamed hl', same]

theorem Source.restrict_answersAlike (same : ∀ n, n ∈ ns ↔ n ∈ ms) {it p q : Plan}
    (hp : src.restrict ns it = .ok p) (hq : src.restrict ms it = .ok q) : p.AnswersAlike q := by
  obtain ⟨a, ha, rfl⟩ := exists_named_of_restrict hp
  obtain ⟨b, hb, rfl⟩ := exists_named_of_restrict hq
  exact (named_answersAlike same ha hb).and it

end SameNames

namespace Via

/-- Entries that are names can be put together. All ways to write a list of names compile alike on
any source, in either direction. Lists of the same names lead to plans that answer alike, whatever
the order of the names and however often each occurs. Entries cannot be put together if a path
stands among several of them. -/
theorem spelling_laws :
    (∀ ns : List String, ∃ v, ofArgs (ns.map .name) = .ok v) ∧
    (∀ ns v w, Spells ns v → Spells ns w → ∀ step ∈ [Step.out, Step.into],
      ∀ (src : Source) (it : Plan), (step v).apply src it = (step w).apply src it) ∧
    (∀ ns ms v w, Spells ns v → Spells ms w → (∀ n, n ∈ ns ↔ n ∈ ms) →
      ∀ step ∈ [Step.out, Step.into], ∀ (src : Source) (it p q : Plan),
        (step v).apply src it = .ok p → (step w).apply src it = .ok q →
          ∀ other : Source, p.evaluate other = q.evaluate other) ∧
    ∀ args e, ofArgs args = .error e ↔ e = .mixedVia ∧ 2 ≤ args.length ∧ ∃ p, .path p ∈ args := by
  refine ⟨fun ns => ⟨_, ofArgs_names ns⟩, ?_, ?_, fun args e => ofArgs_eq_error⟩
  · intro ns v w hv hw step hstep src it
    obtain ⟨near, far, run⟩ := Step.exists_across hstep
    rw [run, run, hv.compile_eq, hw.compile_eq]
  · intro ns ms v w hv hw same step hstep src it p q hp hq
    obtain ⟨near, far, run⟩ := Step.exists_across hstep
    rw [run, hv.compile_eq] at hp
    rw [run, hw.compile_eq] at hq
    obtain ⟨a, ha, hp⟩ := bind_eq_ok.1 hp
    obtain ⟨b, hb, hq⟩ := bind_eq_ok.1 hq
    cases hp
    cases hq
    exact (Source.restrict_answersAlike same ha hb).across near far it

/-- The two lists of names lead to different plans, as their nodes come in another order. -/
theorem spelling_laws_friends :
    let src := Store.friends.source
    let ns := ["follows", "work", "follows"]
    let ms := ["work", "follows"]
    let plan (l : List NodeId) : Plan :=
      .across .object .subject (.and [.fixed (.ofList l), .all]) .all
    (∃ v, ofArgs (ns.map .name) = .ok v ∧
      (Step.out v).apply src .all = (Step.out (.path (.template ns))).apply src .all) ∧
    (Step.into (.names ns)).apply src .all = .ok (plan [1, 4]) ∧
    (Step.into (.ofNames ms)).apply src .all = .ok (plan [4, 1]) ∧
    plan [1, 4] ≠ plan [4, 1] ∧
    (∀ other : Source, (plan [1, 4]).evaluate other = (plan [4, 1]).evaluate other) ∧
    ofArgs [.name "follows", .path (.template ns)] = .error .mixedVia := by
  intro src ns ms plan
  obtain ⟨together, alike, answers, refused⟩ := spelling_laws
  obtain ⟨v, hv⟩ := together ns
  have first : (Step.into (.names ns)).apply src .all = .ok (plan [1, 4]) := by decide +kernel
  have second : (Step.into (.ofNames ms)).apply src .all = .ok (plan [4, 1]) := by decide +kernel
  have outward := alike ns v _ (.ofArgs hv) .template _ List.mem_cons_self src .all
  refine ⟨⟨v, hv, outward⟩, first, second, by decide +kernel, ?_, ?_⟩
  · exact answers ns ms _ _ .names .ofNames (by simp [ns, ms]) _
      (List.mem_cons_of_mem _ List.mem_cons_self) src .all _ _ first second
  · exact (refused _ _).2 ⟨rfl, by simp, .template ns, by simp⟩

end Via

end Traversal
