import Traversal.Proofs.Path.Lookups
import Traversal.Proofs.Plan.Meaning

namespace Traversal

namespace Source

/-- Looks the names up, one after the other, and forgets their nodes. -/
def probe (src : Source) : List String → Except StoreError Unit
  | [] => .ok ()
  | n :: ns => do
    let _ ← src.valueOf n
    src.probe ns

/-- The lookup of one of the names fails in this way, and no lookup of a name before it fails. -/
def FailsFirst (src : Source) (names : List String) (e : StoreError) : Prop :=
  ∃ before n after, names = before ++ n :: after ∧
    (∀ m ∈ before, ∃ node, src.valueOf m = .ok node) ∧ src.valueOf n = .error e

variable {src : Source}

theorem probe_append (ms ns : List String) :
    src.probe (ms ++ ns) = (do
      src.probe ms
      src.probe ns) := by
  induction ms with
  | nil => rfl
  | cons m ms ih =>
    simp only [List.cons_append, probe, ih]
    cases src.valueOf m with
    | error e => rfl
    | ok node => rfl

theorem probe_eq_ok {names : List String} :
    src.probe names = .ok () ↔ ∀ n ∈ names, ∃ node, src.valueOf n = .ok node := by
  induction names with
  | nil => simp [probe]
  | cons n ns ih =>
    rw [probe, bind_eq_ok, List.forall_mem_cons, ← ih]
    exact exists_and_right

theorem failsFirst_cons {n : String} {ns : List String} {e : StoreError} :
    src.FailsFirst (n :: ns) e ↔
      src.valueOf n = .error e ∨ ∃ node, src.valueOf n = .ok node ∧ src.FailsFirst ns e := by
  constructor
  · intro h
    obtain ⟨before, m, after, split, passed, failed⟩ := h
    cases before with
    | nil =>
      cases split
      exact .inl failed
    | cons _ before =>
      cases split
      obtain ⟨node, hnode⟩ := passed n List.mem_cons_self
      exact .inr ⟨node, hnode, before, m, after, rfl,
        fun k hk => passed k (List.mem_cons_of_mem n hk), failed⟩
  · intro h
    rcases h with failed | ⟨node, hnode, before, m, after, rfl, passed, failed⟩
    · exact ⟨[], n, ns, rfl, fun _ h => absurd h List.not_mem_nil, failed⟩
    · exact ⟨n :: before, m, after, rfl, List.forall_mem_cons.2 ⟨⟨node, hnode⟩, passed⟩, failed⟩

theorem probe_eq_error {names : List String} {e : StoreError} :
    src.probe names = .error e ↔ src.FailsFirst names e := by
  induction names with
  | nil => simp [probe, FailsFirst]
  | cons n ns ih => rw [probe, bind_eq_error, failsFirst_cons, ih]

/-- If the lookup of some name fails, there is a first one. -/
theorem exists_failsFirst {names : List String} :
    (∃ e, src.FailsFirst names e) ↔ ∃ n ∈ names, ∃ e, src.valueOf n = .error e := by
  constructor
  · intro h
    obtain ⟨e, before, n, after, rfl, -, failed⟩ := h
    exact ⟨n, List.mem_append_right before List.mem_cons_self, e, failed⟩
  · intro h
    obtain ⟨n, hn, e, failed⟩ := h
    cases hp : src.probe names with
    | error e' => exact ⟨e', probe_eq_error.1 hp⟩
    | ok _ =>
      obtain ⟨node, hnode⟩ := probe_eq_ok.1 hp n hn
      rw [failed] at hnode
      cases hnode

end Source

/-- The run succeeds if the lookups of the names do, and otherwise it fails as they do. -/
def Probes {ε α : Type} (src : Source) (wrap : StoreError → ε) (names : List String)
    (run : Except ε α) : Prop :=
  (src.probe names = .ok () ∧ ∃ a, run = .ok a) ∨
    ∃ cause, src.probe names = .error cause ∧ run = .error (wrap cause)

namespace Probes

variable {ε α β : Type} {src : Source} {wrap : StoreError → ε} {ms ns : List String}
  {run : Except ε α}

theorem ok (a : α) : Probes src wrap [] (.ok a) :=
  .inl ⟨rfl, a, rfl⟩

theorem bind {next : α → Except ε β} (h : Probes src wrap ms run)
    (k : ∀ a, Probes src wrap ns (next a)) : Probes src wrap (ms ++ ns) (run >>= next) := by
  unfold Probes
  rw [Source.probe_append]
  rcases h with ⟨hms, a, rfl⟩ | ⟨cause, hms, rfl⟩
  · rw [hms]
    exact k a
  · rw [hms]
    exact .inr ⟨cause, rfl, rfl⟩

theorem map (h : Probes src wrap ms run) (f : α → β) :
    Probes src wrap ms (run >>= fun a => .ok (f a)) := by
  have whole := h.bind fun a => ok (f a)
  rwa [List.append_nil] at whole

theorem mapError {δ : Type} (h : Probes src wrap ms run) (outer : ε → δ) :
    Probes src (fun e => outer (wrap e)) ms (run.mapError outer) := by
  rcases h with ⟨hms, a, rfl⟩ | ⟨cause, hms, rfl⟩
  · exact .inl ⟨hms, a, rfl⟩
  · exact .inr ⟨cause, hms, rfl⟩

theorem exists_eq_ok (h : Probes src wrap ms run) :
    (∃ a, run = .ok a) ↔ ∀ n ∈ ms, ∃ node, src.valueOf n = .ok node := by
  rw [← Source.probe_eq_ok]
  rcases h with ⟨hms, a, rfl⟩ | ⟨cause, hms, rfl⟩
  · simp [hms]
  · simp [hms]

theorem eq_error (h : Probes src wrap ms run) (e : ε) :
    run = .error e ↔ ∃ cause, e = wrap cause ∧ src.FailsFirst ms cause := by
  simp only [← Source.probe_eq_error]
  rcases h with ⟨hms, a, rfl⟩ | ⟨cause, hms, rfl⟩
  · simp [hms]
  · simp [hms, eq_comm]

end Probes

section Compilation

variable (src : Source)

namespace Source

theorem probes_valueOf (n : String) : Probes src id [n] (src.valueOf n) := by
  cases hn : src.valueOf n with
  | ok node => exact .inl ⟨bind_eq_ok.2 ⟨node, hn, rfl⟩, node, rfl⟩
  | error e => exact .inr ⟨e, bind_eq_error.2 (.inl hn), rfl⟩

theorem probes_addNamed (nodes : NodeList) (names : List String) :
    Probes src id names (src.addNamed nodes names) := by
  induction names generalizing nodes with
  | nil => exact .ok nodes
  | cons n ns ih =>
    refine (src.probes_valueOf n).bind fun known => ?_
    cases known with
    | none => exact ih nodes
    | some id => exact ih (nodes.add id)

theorem probes_restrict (names : List String) (it : Plan) :
    Probes src .store names (src.restrict names it) := by
  have named : Probes src id names (src.named names) := by
    cases names with
    | nil => exact .ok src.seed
    | cons n ns => exact (src.probes_addNamed src.nodeList (n :: ns)).map Plan.fixed
  exact (named.mapError PathError.store).map fun sub => Plan.and [sub, it]

end Source

/-- Compilation fails as the lookups of the names do, whatever it starts from. -/
def ProbesPath (p : Path) : Prop :=
  ∀ it, Probes src PathError.store p.lookups (p.apply src it)

def ProbesStep (s : Step) : Prop :=
  ∀ it, Probes src PathError.store s.lookups (s.apply src it)

def ProbesVia (v : Via) : Prop :=
  Probes src PathError.store v.lookups (v.compile src)

theorem probes_steps {steps : List Step} (binding : Option StoreHandle)
    (hs : ∀ s ∈ steps, ProbesStep src s) : ProbesPath src ⟨steps, binding⟩ := by
  intro it
  change Probes src PathError.store (Step.lookupsAll steps) (Step.applyAll src steps it)
  induction steps generalizing it with
  | nil => exact .ok it
  | cons s ss ih =>
    have rest := ih fun t ht => hs t (List.mem_cons_of_mem s ht)
    exact (hs s List.mem_cons_self it).bind rest

theorem probes : (∀ p, ProbesPath src p) ∧ (∀ s, ProbesStep src s) ∧ ∀ v, ProbesVia src v := by
  apply Path.induction
  case mk => exact fun _ binding => probes_steps src binding
  case is => exact src.probes_restrict
  case tag => exact fun names it => .ok (it.addTags names)
  case out => exact fun _ hvia it => hvia.map (Plan.across .subject .object · it)
  case into => exact fun _ hvia it => hvia.map (Plan.across .object .subject · it)
  case plan => exact fun p it => .ok (Plan.and [p, it])
  case and => exact fun _ hp it => (hp src.seed).map fun sub => Plan.and [it, sub]
  case or => exact fun _ hp it => (hp src.seed).map fun sub => Plan.or [it, sub]
  case except => exact fun _ hp it => (hp src.seed).map fun sub => Plan.and [it, .not sub src.seed]
  case follow => exact fun _ hp => hp
  case any => exact src.probes_restrict [] src.seed
  case name => exact fun n => src.probes_restrict [n] src.seed
  case names => exact fun ns => src.probes_restrict ns src.seed
  case path => exact fun _ hp => hp src.seed

/-- Walked backwards, a path looks up the same names, so it compiles on the same sources. -/
theorem exists_apply_reverse (p : Path) (it : Plan) :
    (∃ plan, p.reverse.apply src it = .ok plan) ↔ ∃ plan, p.apply src it = .ok plan := by
  rw [((probes src).1 p.reverse it).exists_eq_ok, ((probes src).1 p it).exists_eq_ok]
  simp only [(lookups_reverse.1 p).mem_iff]

end Compilation

/-- The run fails if and only if the lookup of some name does, and then as the first of these
lookups. To find that a name is not known is no failure. -/
structure Source.FailsBy {α : Type} (src : Source) (names : List String)
    (run : Except PathError α) : Prop where
  failed : (∃ e, run = .error e) ↔ ∃ n ∈ names, ∃ e, src.valueOf n = .error e
  first : ∀ e, run = .error e ↔ ∃ cause, e = .store cause ∧ src.FailsFirst names cause

theorem Probes.failsBy {α : Type} {src : Source} {names : List String} {run : Except PathError α}
    (h : Probes src .store names run) : src.FailsBy names run where
  failed := by
    rw [← Source.exists_failsFirst]
    simp only [h.eq_error]
    constructor
    · intro failed
      obtain ⟨_, cause, -, first⟩ := failed
      exact ⟨cause, first⟩
    · intro failed
      obtain ⟨cause, first⟩ := failed
      exact ⟨_, cause, rfl, first⟩
  first := h.eq_error

namespace Path

/-- Compilation fails if and only if a lookup does, and it tells of the first one that fails, from
left to right. A path compiles just when its reversal does. To be compiled where it is bound, the
whole path needs a store, and the paths in it need none. -/
theorem compilation_failures (p : Path) :
    (∀ src it, src.FailsBy p.lookups (p.apply src it) ∧
      ((∃ plan, p.reverse.apply src it = .ok plan) ↔ ∃ plan, p.apply src it = .ok plan)) ∧
    (∀ src, src.FailsBy p.lookups (p.buildOn src) ∧
      ((∃ plan, p.reverse.buildOn src = .ok plan) ↔ ∃ plan, p.buildOn src = .ok plan)) ∧
    ∀ sources, p.build sources = .error .unbound ↔ p.binding = none := by
  have fails (src : Source) (it : Plan) : src.FailsBy p.lookups (p.apply src it) :=
    ((probes src).1 p it).failsBy
  refine ⟨fun src it => ⟨fails src it, exists_apply_reverse src p it⟩,
    fun src => ⟨fails src src.seed, exists_apply_reverse src p src.seed⟩, fun sources => ?_⟩
  unfold build
  cases hb : p.binding with
  | none => simp
  | some store =>
    have bound : p.buildOn (sources store) ≠ .error .unbound := by
      intro h
      obtain ⟨cause, e, -⟩ := ((fails _ _).first _).1 h
      cases e
    simp [bound]

/-- The name `a` is not known, and the lookup of any other name fails. -/
example :
    let src : Source := { Source.unreachable "" with
      valueOf := fun n => if n = "a" then .ok none else .error (.unavailable n) }
    (⟨[.is ["a"], .and ⟨[.into (.name "b")], none⟩, .is ["c"]], none⟩ : Path).apply src .all =
      .error (.store (.unavailable "b")) := by
  decide +kernel

end Path

end Traversal
