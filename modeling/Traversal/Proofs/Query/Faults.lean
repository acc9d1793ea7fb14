import Traversal.Overlay
import Traversal.Query
import Traversal.Proofs.Store.Reachable

namespace Traversal

/-- The faulty run ends as the sound run does, or with an injected failure. -/
def Degrades {ε α : Type} (injected : ε → Prop) (faulty sound : Except ε α) : Prop :=
  faulty = sound ∨ ∃ e, injected e ∧ faulty = .error e

namespace Degrades

variable {ε α : Type} {injected : ε → Prop} {faulty sound : Except ε α}

theorem refl (run : Except ε α) : Degrades injected run run :=
  .inl rfl

theorem bind {β : Type} {next next' : α → Except ε β} (h : Degrades injected faulty sound)
    (k : ∀ a, Degrades injected (next a) (next' a)) :
    Degrades injected (faulty >>= next) (sound >>= next') := by
  rcases h with rfl | ⟨e, he, rfl⟩
  · cases faulty with
    | error e => exact refl _
    | ok a => exact k a
  · exact .inr ⟨e, he, rfl⟩

theorem mapError {δ : Type} {wrapped : δ → Prop} {wrap : ε → δ}
    (h : Degrades (fun e => wrapped (wrap e)) faulty sound) :
    Degrades wrapped (faulty.mapError wrap) (sound.mapError wrap) := by
  rcases h with rfl | ⟨e, he, rfl⟩
  · exact refl _
  · exact .inr ⟨wrap e, he, rfl⟩

theorem ok (h : Degrades injected faulty sound) {a : α} (ha : faulty = .ok a) : sound = .ok a := by
  rcases h with rfl | ⟨e, -, rfl⟩
  · exact ha
  · cases ha

theorem error (h : Degrades injected faulty sound) {e : ε} (he : faulty = .error e) :
    injected e ∨ sound = .error e := by
  rcases h with rfl | ⟨e', he', rfl⟩
  · exact .inr he
  · cases he
    exact .inl he'

end Degrades

/-- How a query shows the failure of a call: the cause is unchanged, and calls of one kind are made
at one stage only. -/
inductive QueryError.Injected (fault : Call → Option StoreError) : QueryError → Prop
  | valueOf {name : String} {e : StoreError} (h : fault (.valueOf name) = some e) :
    Injected fault (.build (.store e))
  | allNodes {e : StoreError} (h : fault .allNodes = some e) : Injected fault (.evaluate e)
  | quad {id : QuadId} {e : StoreError} (h : fault (.quad id) = some e) :
    Injected fault (.evaluate e)
  | quadsWith {role : Role} {node : NodeId} {e : StoreError}
    (h : fault (.quadsWith role node) = some e) : Injected fault (.evaluate e)
  | nameOf {id : NodeId} {e : StoreError} (h : fault (.nameOf id) = some e) :
    Injected fault (.names e)

section Stages

variable (src : Source) (fault : Call → Option StoreError)

theorem degrades_call {α : Type} {injected : StoreError → Prop} {call : Call}
    (answer : Except StoreError α) (h : ∀ e, fault call = some e → injected e) :
    Degrades injected (match fault call with
      | some e => .error e
      | none => answer) answer := by
  cases hf : fault call with
  | none => exact .refl answer
  | some e => exact .inr ⟨e, h e hf, rfl⟩

namespace Source

theorem degrades_addNamed (nodes : NodeList) (names : List String) :
    Degrades (fun e => QueryError.Injected fault (.build (.store e)))
      ((src.failing fault).addNamed nodes names) (src.addNamed nodes names) := by
  induction names generalizing nodes with
  | nil => exact .refl _
  | cons name names ih =>
    refine .bind (degrades_call fault (src.valueOf name) fun _ => .valueOf) fun known => ?_
    cases known with
    | none => exact ih nodes
    | some id => exact ih (nodes.add id)

theorem degrades_restrict (names : List String) (it : Plan) :
    Degrades (fun e => QueryError.Injected fault (.build e))
      ((src.failing fault).restrict names it) (src.restrict names it) := by
  have named : Degrades (fun e => QueryError.Injected fault (.build (.store e)))
      ((src.failing fault).named names) (src.named names) := by
    unfold named
    split
    · exact .refl _
    · exact .bind (degrades_addNamed src fault src.nodeList names) fun _ => .refl _
  exact .bind (.mapError named) fun _ => .refl _

theorem degrades_quadsOf (role : Role) (nodes : List NodeId) :
    Degrades (fun e => QueryError.Injected fault (.evaluate e))
      ((src.failing fault).quadsOf role nodes) (src.quadsOf role nodes) := by
  induction nodes with
  | nil => exact .refl _
  | cons node nodes ih =>
    refine .bind (degrades_call fault (src.quadsWith role node) fun _ => .quadsWith) fun _ => ?_
    exact .bind ih fun _ => .refl _

theorem degrades_nodesOf (role : Role) (ids : List QuadId) :
    Degrades (fun e => QueryError.Injected fault (.evaluate e))
      ((src.failing fault).nodesOf role ids) (src.nodesOf role ids) := by
  induction ids with
  | nil => exact .refl _
  | cons id ids ih =>
    refine .bind (degrades_call fault (src.quad id) fun _ => .quad) fun found => ?_
    cases found with
    | none => exact .refl _
    | some q => exact .bind ih fun _ => .refl _

theorem degrades_namesOf (ids : List NodeId) :
    Degrades (fun e => QueryError.Injected fault (.names e))
      ((src.failing fault).namesOf ids) (src.namesOf ids) := by
  induction ids with
  | nil => exact .refl _
  | cons id ids ih =>
    refine .bind (degrades_call fault (src.nameOf id) fun _ => .nameOf) fun _ => ?_
    exact .bind ih fun _ => .refl _

end Source

def DegradesPath (p : Path) : Prop :=
  ∀ it, Degrades (fun e => QueryError.Injected fault (.build e))
    (p.apply (src.failing fault) it) (p.apply src it)

def DegradesStep (s : Step) : Prop :=
  ∀ it, Degrades (fun e => QueryError.Injected fault (.build e))
    (s.apply (src.failing fault) it) (s.apply src it)

def DegradesVia (v : Via) : Prop :=
  Degrades (fun e => QueryError.Injected fault (.build e))
    (v.compile (src.failing fault)) (v.compile src)

theorem degrades_steps {steps : List Step} (binding : Option StoreHandle)
    (h : ∀ s ∈ steps, DegradesStep src fault s) : DegradesPath src fault ⟨steps, binding⟩ := by
  intro it
  change Degrades _ (Step.applyAll (src.failing fault) steps it) (Step.applyAll src steps it)
  induction steps generalizing it with
  | nil => exact .refl _
  | cons s ss ih =>
    refine .bind (h s List.mem_cons_self it) fun next => ?_
    exact ih (fun t ht => h t (List.mem_cons_of_mem s ht)) next

theorem degrades_compile : (∀ p, DegradesPath src fault p) ∧ (∀ s, DegradesStep src fault s) ∧
    ∀ v, DegradesVia src fault v := by
  apply Path.induction
  case mk => exact fun _ binding => degrades_steps src fault binding
  case is => exact src.degrades_restrict fault
  case tag => exact fun _ _ => .refl _
  case out => exact fun _ hvia _ => .bind hvia fun _ => .refl _
  case into => exact fun _ hvia _ => .bind hvia fun _ => .refl _
  case plan => exact fun _ _ => .refl _
  case and => exact fun _ hp _ => .bind (hp src.seed) fun _ => .refl _
  case or => exact fun _ hp _ => .bind (hp src.seed) fun _ => .refl _
  case except => exact fun _ hp _ => .bind (hp src.seed) fun _ => .refl _
  case follow => exact fun _ hp => hp
  case any => exact src.degrades_restrict fault [] src.seed
  case name => exact fun n => src.degrades_restrict fault [n] src.seed
  case names => exact fun ns => src.degrades_restrict fault ns src.seed
  case path => exact fun _ hp => hp src.seed

namespace Plan

def DegradesPlan (p : Plan) : Prop :=
  Degrades (fun e => QueryError.Injected fault (.evaluate e))
    (p.evaluate (src.failing fault)) (p.evaluate src)

theorem degrades_meet {ps : List Plan} (h : ∀ p ∈ ps, DegradesPlan src fault p) (acc : IdSet) :
    Degrades (fun e => QueryError.Injected fault (.evaluate e))
      (meet (src.failing fault) acc ps) (meet src acc ps) := by
  induction ps generalizing acc with
  | nil => exact .refl _
  | cons p ps ih =>
    rw [meet, meet]
    split
    · -- Both runs stop here, and the calls of the other operands are not made.
      exact .refl _
    · refine .bind (h p List.mem_cons_self) fun next => ?_
      exact ih (fun q hq => h q (List.mem_cons_of_mem p hq)) (acc ∩ next)

theorem degrades_join {ps : List Plan} (h : ∀ p ∈ ps, DegradesPlan src fault p) :
    Degrades (fun e => QueryError.Injected fault (.evaluate e))
      (join (src.failing fault) ps) (join src ps) := by
  induction ps with
  | nil => exact .refl _
  | cons p ps ih =>
    refine .bind (h p List.mem_cons_self) fun _ => ?_
    exact .bind (ih fun q hq => h q (List.mem_cons_of_mem p hq)) fun _ => .refl _

theorem degrades_evaluate (p : Plan) : DegradesPlan src fault p := by
  induction p with
  | all tags => exact degrades_call fault src.allNodes fun _ => .allNodes
  | fixed nodes tags => exact .refl _
  | and subs tags ih =>
    cases subs with
    | nil => exact .refl _
    | cons p ps =>
      refine .bind (ih p List.mem_cons_self) fun first => ?_
      exact degrades_meet src fault (fun q hq => ih q (List.mem_cons_of_mem p hq)) first
  | or subs tags ih => exact degrades_join src fault ih
  | not inner whole tags hinner hwhole =>
    exact .bind hwhole fun _ => .bind hinner fun _ => .refl _
  | linksTo role sub tags ih =>
    exact .bind ih fun nodes => src.degrades_quadsOf fault role nodes.toList
  | hasA role sub tags ih =>
    exact .bind ih fun quads => src.degrades_nodesOf fault role quads.toList

end Plan

namespace Path

theorem degrades_queryOn (p : Path) : Degrades (QueryError.Injected fault)
    (p.queryOn (src.failing fault)) (p.queryOn src) := by
  refine .bind (.mapError ((degrades_compile src fault).1 p src.seed)) fun plan => ?_
  refine .bind (.mapError (plan.degrades_evaluate src fault)) fun ids => ?_
  exact .bind (.mapError (src.degrades_namesOf fault ids.toList)) fun _ => .refl _

/-- A store some of whose calls fail never gives a wrong answer: a query answers on it what it
answers without the faults, or it fails as it fails without them, or with an injected failure. -/
theorem queryOn_failing (p : Path) :
    (∀ a, p.queryOn (src.failing fault) = .ok a → p.queryOn src = .ok a) ∧
    ∀ e, p.queryOn (src.failing fault) = .error e →
      e.Injected fault ∨ p.queryOn src = .error e :=
  ⟨fun _ ha => (degrades_queryOn src fault p).ok ha,
    fun _ he => (degrades_queryOn src fault p).error he⟩

end Path

end Stages

/-- The only edge of `alice` is quad 0: without quad 1 the query goes through, without quad 0 it
fails as the store does. -/
theorem Path.queryOn_failing_friends :
    let p : Path := ⟨[.is ["alice"], .out .any], none⟩
    let lost (id : QuadId) := Overlay.fault { faults := [⟨.quad (some id), .unavailable "disk"⟩] }
    let e := QueryError.evaluate (.unavailable "disk")
    (∃ a, p.queryOn (Store.friends.source.failing (lost 1)) = .ok a ∧
      p.queryOn Store.friends.source = .ok a ∧ a.names = ["bob"]) ∧
    p.queryOn (Store.friends.source.failing (lost 0)) = .error e ∧
      (e.Injected (lost 0) ∨ p.queryOn Store.friends.source = .error e) := by
  intro p lost e
  have answered : (p.queryOn (Store.friends.source.failing (lost 1))).map (·.names) =
      .ok ["bob"] := by decide +kernel
  have failed : p.queryOn (Store.friends.source.failing (lost 0)) = .error e := by
    with_unfolding_all rfl
  rcases ha : p.queryOn (Store.friends.source.failing (lost 1)) with e' | a
  · rw [ha] at answered
    cases answered
  · rw [ha] at answered
    exact ⟨⟨a, rfl, (queryOn_failing _ (lost 1) p).1 a ha, Except.ok.inj answered⟩, failed,
      (queryOn_failing _ (lost 0) p).2 e failed⟩

end Traversal
