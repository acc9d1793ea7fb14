import Traversal.Path.Compile
import Traversal.Path.Reverse

namespace Traversal

/-- The parts of a sequence of steps are walked backwards in the opposite order. -/
theorem Step.reversals_append (ss ts : List Step) :
    Step.reversals (ss ++ ts) = Step.reversals ts ++ Step.reversals ss := by
  simp [Step.reversals_eq]

theorem Step.reversals_reversals {ss : List Step} (h : ∀ s ∈ ss, s.reversal.reversal = s) :
    Step.reversals (Step.reversals ss) = ss := by
  induction ss with
  | nil => rfl
  | cons s ss ih =>
    have first : Step.reversals [s.reversal] = [s] := congrArg ([·]) (h s List.mem_cons_self)
    have rest := ih fun t ht => h t (List.mem_cons_of_mem s ht)
    rw [Step.reversals, Step.reversals_append, first, rest]
    rfl

/-- Only followed paths are reversed in turn, so the induction goes through no other path. -/
theorem Path.reverse_reverse : (∀ p : Path, p.reverse.reverse = p) ∧
    (∀ s : Step, s.reversal.reversal = s) ∧ ∀ _ : Via, True := by
  apply Path.induction
  case mk => exact fun _ binding hs => congrArg (Path.mk · binding) (Step.reversals_reversals hs)
  case follow => exact fun _ hp => congrArg Step.follow hp
  all_goals
    intros
    trivial

/-- The last step is the first one on the way back. -/
theorem Path.apply_reverse_push (src : Source) (p : Path) (s : Step) (it : Plan) :
    (p.push s).reverse.apply src it = (do
      let mid ← s.reversal.apply src it
      p.reverse.apply src mid) := by
  obtain ⟨steps, binding⟩ := p
  change Step.applyAll src (Step.reversals (steps ++ [s])) it = _
  rw [Step.reversals_append]
  rfl

/-- Reversal undoes itself, the binding included, and a path that follows another is walked
backwards by walking the followed path backwards first, whether or not this succeeds. -/
theorem Path.reverse_laws : (∀ p : Path, p.reverse.reverse = p) ∧
    (∀ s : Step, s.reversal.reversal = s) ∧
    ∀ (src : Source) (a b : Path) (it : Plan), (a.push (.follow b)).reverse.apply src it = (do
      let mid ← b.reverse.apply src it
      a.reverse.apply src mid) :=
  ⟨reverse_reverse.1, reverse_reverse.2.1,
    fun src a b it => apply_reverse_push src a (.follow b) it⟩

end Traversal
