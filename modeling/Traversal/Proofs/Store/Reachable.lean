import Traversal.Proofs.Store.Valid
import Traversal.Store.Load

namespace Traversal.Store

/-- The action leads from each state to one that is related to it. -/
def Leads {ε α : Type} (R : Store → Store → Prop) (act : Action ε α) : Prop :=
  ∀ s, R s (act s).2

section Leads

variable {ε α : Type} {R : Store → Store → Prop}

theorem Leads.pure (refl : ∀ s, R s s) (a : α) : Leads R (Pure.pure a : Action ε α) :=
  refl

theorem Leads.throw (refl : ∀ s, R s s) (e : ε) : Leads R (throw e : Action ε α) :=
  refl

theorem Leads.bind {β : Type} (trans : ∀ s t u, R s t → R t u → R s u) {act : Action ε α}
    {next : α → Action ε β} (hact : Leads R act) (hnext : ∀ a, Leads R (next a)) :
    Leads R (act >>= next) := by
  intro s
  have first := hact s
  rcases hr : act s with ⟨e | a, t⟩
  · rw [hr] at first
    rwa [bind_of_error hr]
  · rw [hr] at first
    rw [bind_of_ok hr]
    exact trans _ _ _ first (hnext a t)

theorem Leads.adapt {δ : Type} {act : Action ε α} (hact : Leads R act) (f : ε → δ) :
    Leads R (ExceptT.adapt f act) :=
  hact

end Leads

inductive Change where
  | add (st : Statement)
  | addAll (sts : List Statement)
  /-- A text is loaded; if that fails, what was stored before stays. -/
  | load (o : LoadOptions) (bytes : List UInt8)

def Change.run : Change → Store → Store
  | .add st, s => (Store.add st s).2
  | .addAll sts, s => (Store.addAll sts s).2
  | .load o bytes, s => (Store.load o bytes s).2

def after (s : Store) (changes : List Change) : Store :=
  changes.foldl (fun s c => c.run s) s

/-- The states of a store that was empty at first. -/
def Reachable (s : Store) : Prop :=
  ∃ changes, s = ({} : Store).after changes

section Runs

variable {R : Store → Store → Prop} (refl : ∀ s, R s s) (trans : ∀ s t u, R s t → R t u → R s u)
  (hadd : ∀ st, Leads R (add st))

include refl trans hadd

theorem leads_addAll (sts : List Statement) : Leads R (addAll sts) := by
  induction sts with
  | nil => exact .pure refl ()
  | cons st sts ih => exact .bind trans (hadd st) fun _ => ih

theorem leads_loadLine (o : LoadOptions) (number : Nat) (line : List UInt8) :
    Leads R (loadLine o number line) := by
  unfold loadLine
  split
  · exact .throw refl _
  · split
    · exact .throw refl _
    · exact .pure refl false
    · exact .bind trans ((hadd _).adapt _) fun _ => .pure refl true

theorem leads_loadLines (o : LoadOptions) (number : Nat) (lines : List (List UInt8)) :
    Leads R (loadLines o number lines) := by
  induction lines generalizing number with
  | nil => exact .pure refl 0
  | cons line rest ih =>
    refine .bind trans (leads_loadLine refl trans hadd o number line) fun _ => ?_
    exact .bind trans (ih (number + 1)) fun _ => .pure refl _

theorem run_related (c : Change) (s : Store) : R s (c.run s) := by
  cases c with
  | add st => exact hadd st s
  | addAll sts => exact leads_addAll refl trans hadd sts s
  | load o bytes => exact leads_loadLines refl trans hadd o 1 (lines bytes) s

/-- What one statement keeps, every run keeps. -/
theorem after_related (changes : List Change) (s : Store) : R s (s.after changes) := by
  induction changes generalizing s with
  | nil => exact refl s
  | cons c changes ih => exact trans _ _ _ (run_related refl trans hadd c s) (ih (c.run s))

end Runs

/-- A store in order stays in order and keeps what it stores. -/
def Keeps (s t : Store) : Prop :=
  s.Valid → t.Valid ∧ Kept s t

theorem Keeps.refl (s : Store) : Keeps s s :=
  fun hs => ⟨hs, .refl s⟩

theorem Keeps.trans (s t u : Store) (hst : Keeps s t) (htu : Keeps t u) : Keeps s u := by
  intro hs
  obtain ⟨ht, k⟩ := hst hs
  obtain ⟨hu, l⟩ := htu ht
  exact ⟨hu, k.trans l⟩

theorem keeps_add (st : Statement) : Leads Keeps (add st) :=
  fun _ hs => hs.add st

theorem Valid.after {s : Store} (h : s.Valid) (changes : List Change) :
    (s.after changes).Valid ∧ Kept s (s.after changes) :=
  after_related Keeps.refl Keeps.trans keeps_add changes s h

theorem Reachable.valid {s : Store} (h : s.Reachable) : s.Valid := by
  obtain ⟨changes, rfl⟩ := h
  exact (Valid.empty.after changes).1

/-- A small store: `bob` is the object of one statement and the subject of another. -/
def friends : Store :=
  ({} : Store).after [.add ⟨"alice", "follows", "bob", none⟩,
    .add ⟨"bob", "follows", "carol", some "work"⟩]

theorem reachable_friends : friends.Reachable :=
  ⟨_, rfl⟩

end Traversal.Store
