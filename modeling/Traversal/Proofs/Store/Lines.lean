import Traversal.Store.Load
import Traversal.Proofs.Store.Names
import Traversal.Proofs.Text.Blank

namespace Traversal

namespace Text

/-- The text in UTF-8. -/
def utf8 (t : String) : List UInt8 :=
  t.toUTF8.data.toList

theorem utf8_ofList (cs : List Char) :
    utf8 (String.ofList cs) = cs.flatMap String.utf8EncodeChar :=
  List.toList_data_toByteArray

end Text

namespace Store

/-- No byte of another character is a newline. -/
theorem newline_not_mem_utf8EncodeChar {c : Char} (hc : c ≠ '\n') :
    newline ∉ String.utf8EncodeChar c := by
  intro h
  have different : c.val.toNat ≠ 10 := by
    intro e
    exact hc (Char.ext (UInt32.toNat_inj.1 e))
  have byte : ∀ n, newline = UInt8.ofNat n ↔ n % 256 = 10 := by
    intro n
    rw [← UInt8.toNat_inj, UInt8.toNat_ofNat']
    exact eq_comm
  -- The bytes of a longer encoding are all at least 128.
  rw [String.utf8EncodeChar] at h
  split at h
  on_goal 2 => split at h
  on_goal 3 => split at h
  all_goals
    simp only [List.mem_cons, List.not_mem_nil, or_false, byte] at h
    omega

theorem decodeLine_utf8 (cs : List Char) :
    decodeLine (cs.flatMap String.utf8EncodeChar) = some cs := by
  have valid : (cs.flatMap String.utf8EncodeChar).toByteArray.IsValidUTF8 := .intro cs rfl
  rw [decodeLine, String.fromUTF8?, dif_pos valid]
  exact congrArg some String.toList_ofList

/-- The lines of a text in UTF-8 are the lines of its characters. -/
theorem segments_utf8 (cs : List Char) :
    Text.segments (· == newline) (cs.flatMap String.utf8EncodeChar) =
      (Text.segments (· == '\n') cs).map (·.flatMap String.utf8EncodeChar) := by
  induction cs with
  | nil => rfl
  | cons c cs ih =>
    obtain ⟨t, ts, hl⟩ := Text.exists_segments (· == '\n') cs
    rw [hl, List.map_cons] at ih
    by_cases hc : c = '\n'
    · subst hc
      have code : String.utf8EncodeChar '\n' = [newline] := by decide
      rw [List.flatMap_cons, code]
      simp [Text.segments, hl, ih]
    · have solid := Text.solid_of_not_mem (newline_not_mem_utf8EncodeChar hc)
      rw [List.flatMap_cons, Text.segments_append_of_solid solid ih]
      simp [Text.segments, hl, hc]

/-- A text of terminated lines is taken apart into these lines. -/
theorem lines_utf8 {ls : List (List Char)} (hl : ∀ l ∈ ls, '\n' ∉ l) :
    lines (Text.utf8 (String.ofList (ls.flatMap fun l => l ++ ['\n']))) =
      ls.map (·.flatMap String.utf8EncodeChar) := by
  have solid : ∀ l ∈ ls, ∀ c ∈ l, (c == '\n') = false :=
    fun l hmem => Text.solid_of_not_mem (hl l hmem)
  have split := Text.segments_flatMap (p := (· == '\n')) (beq_self_eq_true '\n') solid
  rw [lines, Text.terminated, Text.utf8_ofList, segments_utf8, split, List.map_append]
  simp

end Store

namespace LoadOptions

variable {o : LoadOptions}

/-- A line that is neither blank nor a comment is read in the format. -/
theorem content_visible {l r : List Char} {c : Char} (h : Text.trim l = c :: r) (visible : c ≠ '#') :
    o.content l =
      match o.format.statement (Text.trim l) with
      | .ok st => .ok (.statement { st with label := st.label <|> o.defaultLabel })
      | .error e => if o.skipMalformed then .ok .skipped else .error e := by
  rw [content]
  split
  · rename_i e
    rw [h] at e
    cases e
  · rename_i e
    rw [h] at e
    cases e
    exact absurd rfl visible
  · rfl

/-- A line without white space at its ends that is no comment is read in the format. -/
theorem content_of_statement {line cs : List Char} {c d : Char}
    (ends : line = c :: cs ++ [d]) (hc : Text.isBlank c = false) (hd : Text.isBlank d = false)
    (visible : c ≠ '#') {st : Statement} (h : o.format.statement line = .ok st) :
    o.content line = .ok (.statement { st with label := st.label <|> o.defaultLabel }) := by
  subst ends
  have trimmed := Text.trim_eq_self hc hd cs
  rw [content_visible trimmed visible, trimmed, h]

end LoadOptions

namespace Store

section Loading

variable {o : LoadOptions} {line : List UInt8} {st : Statement} {s t : Store}

/-- The line asks for the statement. -/
def Holds (o : LoadOptions) (line : List UInt8) (st : Statement) : Prop :=
  ∃ cs, decodeLine line = some cs ∧ o.content cs = .ok (.statement st)

theorem loadLine_of_ok (h : Holds o line st) {id : QuadId} (hr : add st s = (.ok id, t))
    (number : Nat) : loadLine o number line s = (.ok true, t) := by
  obtain ⟨cs, hcs, hst⟩ := h
  simp only [loadLine, hcs, hst]
  rw [bind_of_ok (adapt_of_ok hr _)]
  rfl

theorem loadLine_of_error (h : Holds o line st) {e : StoreError} (hr : add st s = (.error e, t))
    (number : Nat) : loadLine o number line s = (.error (.store number e), t) := by
  obtain ⟨cs, hcs, hst⟩ := h
  simp only [loadLine, hcs, hst]
  rw [bind_of_error (adapt_of_error hr _)]

/-- Lines with a statement each are loaded as these statements are added. -/
theorem loadLines_of_holds {lines : List (List UInt8)} {sts : List Statement}
    (h : List.Forall₂ (Holds o) lines sts) (number : Nat) (hr : addAll sts s = (.ok (), t)) :
    loadLines o number lines s = (.ok sts.length, t) := by
  induction h generalizing s number with
  | nil =>
    cases hr
    rfl
  | @cons line st lines sts hline _ ih =>
    rcases e : add st s with ⟨_ | id, u⟩
    · rw [addAll, bind_of_error e] at hr
      cases hr
    · rw [addAll, bind_of_ok e] at hr
      rw [loadLines, bind_of_ok (loadLine_of_ok hline e number), bind_of_ok (ih (number + 1) hr)]
      rfl

end Loading

end Store

end Traversal
