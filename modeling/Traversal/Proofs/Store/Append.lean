import Traversal.Proofs.Store.Demand
import Traversal.Proofs.Store.Reachable

namespace Traversal

/-- The same failure `n` lines further down. -/
def LoadError.later (n : Nat) : LoadError → LoadError
  | reading number cause => .reading (number + n) cause
  | malformed number cause => .malformed (number + n) cause
  | store number cause => .store (number + n) cause

namespace Store

/-- The text is empty or ends with a newline. -/
abbrev WholeLines (text : List UInt8) : Prop :=
  Text.Whole (· == newline) text

theorem segments_of_not_mem {line : List UInt8} (h : newline ∉ line) :
    Text.segments (· == newline) line = [line] :=
  Text.segments_eq_self (Text.solid_of_not_mem h)

theorem lines_append_newline (a b : List UInt8) :
    lines (a ++ newline :: b) = Text.segments (· == newline) a ++ lines b :=
  Text.terminated_append_cons a b (beq_self_eq_true newline)

theorem lines_cons {line : List UInt8} (h : newline ∉ line) (text : List UInt8) :
    lines (line ++ newline :: text) = line :: lines text := by
  rw [lines_append_newline, segments_of_not_mem h, List.singleton_append]

theorem lines_append {a : List UInt8} (whole : WholeLines a) (b : List UInt8) :
    lines (a ++ b) = lines a ++ lines b :=
  whole.terminated_append b

theorem length_lines_of_not_mem {text : List UInt8} (h : newline ∉ text) :
    (lines text).length ≤ 1 := by
  rw [lines, Text.terminated, segments_of_not_mem h]
  split
  · exact Nat.zero_le 1
  · exact Nat.le_refl 1

/-- The first lines of a text, with their newlines, are a text of their own. -/
theorem exists_wholeLines {text : List UInt8} {front rest : List (List UInt8)}
    (h : lines text = front ++ rest) (more : rest ≠ []) :
    ∃ a b, text = a ++ b ∧ WholeLines a ∧ lines a = front ∧ lines b = rest := by
  induction front generalizing text with
  | nil => exact ⟨[], text, rfl, .nil, rfl, h⟩
  | cons line front ih =>
    have broken : newline ∈ text := by
      by_contra solid
      have short := length_lines_of_not_mem solid
      have long : 0 < rest.length := List.length_pos_of_ne_nil more
      rw [h, List.length_append, List.length_cons] at short
      omega
    obtain ⟨c, d, rfl, solid⟩ := List.eq_append_cons_of_mem broken
    obtain ⟨rfl, hd⟩ := List.cons.inj ((lines_cons solid d).symm.trans h)
    obtain ⟨a, b, rfl, whole, ha, hb⟩ := ih hd
    refine ⟨c ++ newline :: a, b, by simp, whole.append_cons c (beq_self_eq_true newline), ?_, hb⟩
    rw [lines_cons solid, ha]

/-- Lines are loaded in two parts. -/
theorem loadLines_append (o : LoadOptions) (number : Nat) (front rest : List (List UInt8)) :
    loadLines o number (front ++ rest) = do
      let n ← loadLines o number front
      let m ← loadLines o (number + front.length) rest
      return n + m := by
  induction front generalizing number with
  | nil =>
    simp only [List.nil_append, List.length_nil, Nat.add_zero, loadLines, pure_bind, Nat.zero_add,
      bind_pure]
  | cons line front ih =>
    have place : number + 1 + front.length = number + (line :: front).length := by
      rw [List.length_cons]
      omega
    have count : ∀ (accepted : Bool) (n m : Nat),
        (if accepted then n + m + 1 else n + m) = (if accepted then n + 1 else n) + m := by
      intro accepted n m
      split <;> omega
    simp only [List.cons_append, loadLines, ih, place, bind_assoc, pure_bind, count]

theorem loadLine_later (o : LoadOptions) (number n : Nat) (line : List UInt8) :
    loadLine o (number + n) line = (loadLine o number line).adapt (.later n) := by
  unfold loadLine
  split
  · rfl
  · split
    · rfl
    · rfl
    · rw [adapt_bind, adapt_adapt]
      rfl

/-- Line numbers are all that tells from where lines are counted. -/
theorem loadLines_later (o : LoadOptions) (number n : Nat) (lines : List (List UInt8)) :
    loadLines o (number + n) lines = (loadLines o number lines).adapt (.later n) := by
  induction lines generalizing number with
  | nil => rfl
  | cons line rest ih =>
    have next : number + n + 1 = number + 1 + n := by omega
    simp only [loadLines, adapt_bind, loadLine_later, next, ih]
    rfl

theorem load_wholeLines (o : LoadOptions) {a : List UInt8} (whole : WholeLines a)
    (b : List UInt8) : load o (a ++ b) = do
      let n ← load o a
      let m ← (load o b).adapt (LoadError.later (lines a).length)
      return n + m := by
  rw [load, lines_append whole, loadLines_append, loadLines_later]
  rfl

/-- A load goes through the lines of a text one after the other. If it comes to the end of some
whole lines, the rest is loaded into the store that they leave, and its lines are counted from there;
if not, the rest does not matter. Unless an id was refused, a load that fails leaves what the lines
before the failure leave, which can be loaded. -/
theorem load_append (o : LoadOptions) (s : Store) :
    (∀ a b n t, WholeLines a → load o a s = (.ok n, t) →
      (∀ m u, load o b t = (.ok m, u) → load o (a ++ b) s = (.ok (n + m), u)) ∧
      ∀ e u, load o b t = (.error e, u) →
        load o (a ++ b) s = (.error (e.later (lines a).length), u)) ∧
    (∀ a b e t, WholeLines a → load o a s = (.error e, t) → load o (a ++ b) s = (.error e, t)) ∧
    ∀ text e t, load o text s = (.error e, t) → (∀ number cause, e ≠ .store number cause) →
      ∃ a line b n, text = a ++ b ∧ WholeLines a ∧ (lines b).head? = some line ∧
        e.line = (lines a).length + 1 ∧ load o a s = (.ok n, t) ∧
        loadLine o e.line line t = (.error e, t) := by
  refine ⟨?_, ?_, ?_⟩
  · intro a b n t whole first
    rw [load_wholeLines o whole, bind_of_ok first]
    constructor
    · intro m u second
      rw [bind_of_ok (adapt_of_ok second _)]
      rfl
    · intro e u second
      rw [bind_of_error (adapt_of_error second _)]
  · intro a b e t whole first
    rw [load_wholeLines o whole, bind_of_error first]
  · intro text e t failed room
    obtain ⟨front, line, rest, n, u, split, passed, refused⟩ := loadLines_error failed
    obtain ⟨a, b, rfl, whole, ha, hb⟩ := exists_wholeLines split (List.cons_ne_nil line rest)
    have number : e.line = (lines a).length + 1 := by
      rw [line_of_loadLine_error refused, ha, Nat.add_comm]
    obtain ⟨cause, rfl⟩ | ⟨rfl, -, -⟩ := loadLine_error refused
    · exact absurd rfl (room _ cause)
    · refine ⟨a, line, b, n, rfl, whole, ?_, number, ?_, ?_⟩
      · rw [hb]
        rfl
      · rw [load, ha]
        exact passed
      · rw [line_of_loadLine_error refused]
        exact refused

/-- The second text fails at its second line, which is the fourth of both: a comment counts. -/
theorem load_append_friends :
    let a := Text.utf8 "# more\ndave follows alice\r\n"
    let b := Text.utf8 "erin follows dave .\nerin\n"
    WholeLines a ∧ WholeLines b ∧ ∃ t u, load {} a {} = (.ok 1, t) ∧
      load {} b t = (.error (.malformed 2 (.fieldCount 1)), u) ∧
      load {} (a ++ b) {} = (.error (.malformed 4 (.fieldCount 1)), u) ∧ u.size = 2 ∧
      (∀ c, load {} (b ++ c) t = (.error (.malformed 2 (.fieldCount 1)), u)) ∧
      ∃ front rest n, a ++ b = front ++ rest ∧ WholeLines front ∧ (lines front).length = 3 ∧
        load {} front {} = (.ok n, u) := by
  intro a b
  have whole : WholeLines a := by decide +kernel
  have wholeNext : WholeLines b := by decide +kernel
  have before : (lines a).length = 2 := by decide +kernel
  have first : (load {} a {}).1 = .ok 1 := by decide +kernel
  rcases ha : load {} a {} with ⟨r, t⟩
  obtain rfl : r = .ok 1 := by rwa [ha] at first
  have second : (load {} b (load {} a {}).2).1 = .error (.malformed 2 (.fieldCount 1)) := by
    decide +kernel
  have stored : (load {} b (load {} a {}).2).2.size = 2 := by decide +kernel
  rw [ha] at second stored
  rcases hb : load {} b t with ⟨r, u⟩
  obtain rfl : r = .error (.malformed 2 (.fieldCount 1)) := by rwa [hb] at second
  rw [hb] at stored
  have both := ((load_append {} {}).1 a b 1 t whole ha).2 _ u hb
  rw [before] at both
  have more : ∀ c, load {} (b ++ c) t = (.error (.malformed 2 (.fieldCount 1)), u) :=
    fun c => (load_append {} t).2.1 b c _ u wholeNext hb
  obtain ⟨front, -, rest, n, split, wholeFront, -, number, passed, -⟩ :=
    (load_append {} {}).2.2 (a ++ b) _ u both fun _ _ e => by cases e
  have length : (lines front).length = 3 := Nat.succ.inj number.symm
  exact ⟨whole, wholeNext, t, u, rfl, hb, both, stored, more, front, rest, n, split, wholeFront,
    length, passed⟩

end Store

end Traversal
