import Traversal.Proofs.Store.Members
import Traversal.Proofs.Store.Replay

namespace Traversal

namespace Statement

open Json
open Json.Value (memberNodes)

/-- The names as members. A label that is absent is null, or left out. -/
def toJson (bare : Bool) (st : Statement) : Json.Value :=
  .object ([("subject", .string st.subject), ("predicate", .string st.predicate),
    ("object", .string st.object)] ++
      if bare && st.label.isNone then [] else [("label", .ofOption .string st.label)])

/-- The statement as a JSON object on a line. -/
def jsonLine (bare : Bool) (st : Statement) : List Char :=
  (st.toJson bare).chars

theorem told_toJson (bare : Bool) (st : Statement) {ms : List (String × Value)}
    (h : st.toJson bare = .object ms) : Told (memberNodes ms) st := by
  obtain rfl := Value.object.inj h
  split
  case isTrue left =>
    obtain ⟨-, unlabelled⟩ : bare = true ∧ st.label = none := by simpa using left
    exact {
      subject := tells_memberNodes rfl (readText_string _ _)
      predicate := tells_memberNodes rfl (readText_string _ _)
      object := tells_memberNodes rfl (readText_string _ _)
      label := .inl ⟨valuesOf_memberNodes _ _, unlabelled⟩ }
  case isFalse =>
    exact {
      subject := tells_memberNodes rfl (readText_string _ _)
      predicate := tells_memberNodes rfl (readText_string _ _)
      object := tells_memberNodes rfl (readText_string _ _)
      label := .inr (tells_memberNodes rfl (readOption_ofOption _ _)) }

theorem ofJson_jsonLine (bare : Bool) (st : Statement) : ofJson (st.jsonLine bare) = .ok st := by
  have text : IsText (.object (memberNodes _) true) (st.jsonLine bare) := (st.toJson bare).isText
  exact (ofJson_eq_ok text).2 ⟨spelled_memberNodes _, st.told_toJson bare rfl⟩

theorem content_jsonLine {o : LoadOptions} (format : o.format = .jsonLines)
    (unlabelled : o.defaultLabel = none) (bare : Bool) (st : Statement) :
    o.content (st.jsonLine bare) = .ok (.statement st) := by
  have read : o.format.statement (st.jsonLine bare) = .ok st := by
    rw [format]
    exact ofJson_jsonLine bare st
  have ends : st.jsonLine bare = '\x7b' :: _ ++ ['\x7d'] := rfl
  rw [LoadOptions.content_of_statement ends (by decide) (by decide) (by decide) read, unlabelled]
  simp

end Statement

namespace Store

/-- A store is loaded again from its statements as JSON objects, whatever its names are. An absent
label may be left out on one line and be null on another. -/
theorem load_dump_jsonLines {s : Store} (h : s.Grown) {o : LoadOptions}
    (format : o.format = .jsonLines) (unlabelled : o.defaultLabel = none)
    (bare : Statement → Bool) :
    load o (Text.utf8 (s.dump fun st => st.jsonLine (bare st))) {} = (.ok s.size, s) :=
  h.load_dump (fun st _ => Json.Value.newline_not_mem_chars (st.toJson (bare st)))
    fun st _ => Statement.content_jsonLine format unlabelled (bare st) st

/-- An empty name, a quote, a backslash, a newline, a control character, one beyond the basic plane
and a name that starts a comment elsewhere. -/
theorem load_dump_jsonLines_names : ∃ s, s.Grown ∧
    s.dump (fun st => st.jsonLine (st.subject == "")) =
      "\x7b\"subject\":\"\",\"predicate\":\"# \\\"\",\"object\":\"\\\\\\n\"\x7d\n" ++
        "\x7b\"subject\":\"\\u0001\",\"predicate\":\"# \\\"\",\"object\":\"𝄞\",\"label\":null\x7d\n" ∧
      load { format := .jsonLines }
          (Text.utf8 (s.dump fun st => st.jsonLine (st.subject == ""))) {} = (.ok 2, s) := by
  have stored : addAll [⟨"", "# \"", "\\\n", none⟩, ⟨"\x01", "# \"", "𝄞", none⟩] {} = (.ok (), _) :=
    rfl
  have grown := Grown.empty.of_addAll stored
  refine ⟨_, grown, ?_, load_dump_jsonLines grown rfl rfl _⟩
  decide +kernel

end Store

end Traversal
