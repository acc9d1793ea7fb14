import Traversal.Proofs.Json.Records
import Traversal.Statement.Read

namespace Traversal.Statement

open Json
open Json.Value (memberNodes member_of_value element_of_value)
open Json.Record (Apart readMembers)
open Relation (EqvGen)

theorem fields_apart : Apart fields := by
  constructor <;> simp [fields]

/-- The names of the members that are read. -/
def memberNames : List String :=
  ["subject", "predicate", "object", "label"]

/-- What the members tell of a statement. -/
structure Told (ms : List Member) (st : Statement) : Prop where
  subject : Tells ms "subject" (Node.readText "a string") st.subject
  predicate : Tells ms "predicate" (Node.readText "a string") st.predicate
  object : Tells ms "object" (Node.readText "a string") st.object
  label : TellsOr ms "label" (Node.readOption (Node.readText "a string")) none st.label

variable {ms ms' : List Member} {st : Statement} {line line' : List Char}

theorem finish_eq_ok {d : Draft} : d.finish = .ok st ↔ d.subject = some st.subject ∧
    d.predicate = some st.predicate ∧ d.object = some st.object ∧ d.label.getD none = st.label := by
  obtain ⟨s, p, o, l⟩ := d
  obtain ⟨s', p', o', l'⟩ := st
  cases s <;> cases p <;> cases o <;> simp [Draft.finish]

theorem finish_readMembers {d : Draft} (h : readMembers fields ms {} = .ok d) :
    d.finish = .ok st ↔ Told ms st := by
  have subject := fields_apart.eq_some_iff "subject" rfl rfl h st.subject
  have predicate := fields_apart.eq_some_iff "predicate" rfl rfl h st.predicate
  have object := fields_apart.eq_some_iff "object" rfl rfl h st.object
  have label := fields_apart.getD_eq_iff "label" rfl rfl h none st.label
  rw [finish_eq_ok]
  exact ⟨fun ⟨s, p, o, l⟩ => ⟨subject.1 s, predicate.1 p, object.1 o, label.1 l⟩,
    fun told => ⟨subject.2 told.subject, predicate.2 told.predicate, object.2 told.object,
      label.2 told.label⟩⟩

/-- An object is read as the statement that its members tell. -/
theorem ofJson_eq_ok (text : IsText (.object ms true) line) :
    ofJson line = .ok st ↔ Spelled ms ∧ Told ms st := by
  rw [ofJson, mapError_eq_ok]
  refine Record.decode_eq_ok fields_apart text (fun d read => finish_readMembers read) ?_
  intro told
  simp only [record, fields, List.forall_mem_cons]
  exact ⟨.of_tells rfl told.subject, .of_tells rfl told.predicate, .of_tells rfl told.object,
    .of_tellsOr rfl told.label, List.forall_mem_nil _⟩

theorem told_iff_of_edits (edits : EqvGen (Edit memberNames) ms ms') :
    Told ms st ↔ Told ms' st := by
  have forward : ∀ {ms ms'}, EqvGen (Edit memberNames) ms ms' → Told ms st → Told ms' st :=
    fun edits told => {
      subject := (tells_iff_of_edits edits (by decide) _ _).1 told.subject
      predicate := (tells_iff_of_edits edits (by decide) _ _).1 told.predicate
      object := (tells_iff_of_edits edits (by decide) _ _).1 told.object
      label := (tellsOr_iff_of_edits edits (by decide) _ _ _).1 told.label }
  exact ⟨forward edits, forward (.symm _ _ edits)⟩

theorem exists_told_iff (single : ∀ name ∈ memberNames, (valuesOf name ms).length ≤ 1) :
    (∃ st, Told ms st) ↔
      (∀ name ∈ ["subject", "predicate", "object"],
        ∃ n ∈ valuesOf name ms, ∃ s, n.text? = some s) ∧
      ∀ n ∈ valuesOf "label" ms, n = .null ∨ ∃ l, n.text? = some l := by
  have text : ∀ name ∈ memberNames, (∃ s, Tells ms name (Node.readText "a string") s) ↔
      ∃ n ∈ valuesOf name ms, ∃ s, n.text? = some s := by
    intro name hn
    rw [exists_tells_iff (single name hn)]
    simp only [Node.readText_eq_ok]
  have label : (∃ l, TellsOr ms "label" (Node.readOption (Node.readText "a string")) none l) ↔
      ∀ n ∈ valuesOf "label" ms, n = .null ∨ ∃ l, n.text? = some l := by
    rw [exists_tellsOr_iff (single "label" (by decide))]
    simp [Node.readOption_readText_eq_ok, exists_or]
  rw [← label, List.forall_mem_cons, List.forall_mem_cons, List.forall_mem_singleton,
    ← text "subject" (by decide), ← text "predicate" (by decide), ← text "object" (by decide)]
  constructor
  · rintro ⟨st, s, p, o, l⟩
    exact ⟨⟨⟨_, s⟩, ⟨_, p⟩, ⟨_, o⟩⟩, ⟨_, l⟩⟩
  · rintro ⟨⟨⟨s, hs⟩, ⟨p, hp⟩, ⟨o, ho⟩⟩, ⟨l, hl⟩⟩
    exact ⟨⟨s, p, o, l⟩, hs, hp, ho, hl⟩

/-- The order of the members of an object and the members of other names do not matter. With no
name given twice, the object is accepted if its keys spell names, and subject, predicate and object
are there as texts; a label may be left out or be null. -/
theorem ofJson_members (text : IsText (.object ms true) line)
    (single : ∀ name ∈ memberNames, (valuesOf name ms).length ≤ 1) :
    (∀ line' ms', IsText (.object ms' true) line' → EqvGen (Edit memberNames) ms ms' →
      ∀ st, ofJson line' = .ok st ↔ ofJson line = .ok st) ∧
    ((∃ st, ofJson line = .ok st) ↔ Spelled ms ∧
      (∀ name ∈ ["subject", "predicate", "object"], ∃ n ∈ valuesOf name ms, ∃ s, n.text? = some s) ∧
      ∀ n ∈ valuesOf "label" ms, n = .null ∨ ∃ l, n.text? = some l) ∧
    ∀ st, ofJson line = .ok st → Told ms st := by
  refine ⟨?_, ?_, fun st h => ((ofJson_eq_ok text).1 h).2⟩
  · intro line' ms' text' edits st
    rw [ofJson_eq_ok text, ofJson_eq_ok text', spelled_iff_of_edits edits, told_iff_of_edits edits]
  · simp only [ofJson_eq_ok text, exists_and_left, exists_told_iff single]

/-- A member that nests a known name is left out and the others change places. One key is spelled
with an escape. -/
theorem ofJson_members_moved : ∃ line line' ms ms',
    line = ("\x7b\"x\":\x7b\"subject\":null\x7d,\"s\\u0075bject\":\"a\"," ++
        "\"predicate\":\"p\",\"object\":\"b\"\x7d").toList ∧
      line' = "\x7b\"object\":\"b\",\"s\\u0075bject\":\"a\", \"predicate\":\"p\"\x7d".toList ∧
      IsText (.object ms true) line ∧ IsText (.object ms' true) line' ∧
      EqvGen (Edit memberNames) ms ms' ∧
      (∀ name ∈ memberNames, (valuesOf name ms).length ≤ 1) ∧
      ofJson line' = .ok { subject := "a", predicate := "p", object := "b" } := by
  have subject : ∀ rest, Derives (.member (.char 's' :: .unit 0x75 :: pieces "bject",
      .string (pieces "a"))) ("\"s\\u0075bject\":\"a\"".toList ++ rest) rest := fun rest =>
    .member (.nil _)
      (.plain (by decide) (by decide) (by decide) (.unit rfl (text_escaped "bject".toList _)))
      (.nil _) (element_of_value (Value.derives (.string "a") rest))
  have text : IsText (.object _ true)
      ("\x7b\"x\":\x7b\"subject\":null\x7d,\"s\\u0075bject\":\"a\"," ++
        "\"predicate\":\"p\",\"object\":\"b\"\x7d").toList :=
    .element (.nil _) (.object
      (.moreMembers (member_of_value "x" (Value.derives (.object [("subject", .null)]) _))
      (.moreMembers (subject _)
      (.moreMembers (member_of_value "predicate" (Value.derives (.string "p") _))
      (.lastMember (member_of_value "object" (Value.derives (.string "b") _))))))) (.nil _)
  have text' : IsText (.object _ true)
      "\x7b\"object\":\"b\",\"s\\u0075bject\":\"a\", \"predicate\":\"p\"\x7d".toList :=
    .element (.nil _) (.object
      (.moreMembers (member_of_value "object" (Value.derives (.string "b") _))
      (.moreMembers (subject _)
      (.lastMember (.member (.cons rfl (.nil _)) (text_escaped "predicate".toList _) (.nil _)
        (element_of_value (Value.derives (.string "p") _))))))) (.nil _)
  refine ⟨_, _, _, _, rfl, rfl, text, text', ?edits, ?single,
    ((ofJson_members text ?single).1 _ _ text' ?edits _).2 ?_⟩
  case edits =>
    exact .trans _ _ _ (.symm _ _ (.rel _ _ (.insert [] _ (text?_pieces "x") (by decide))))
      (.rel _ _ (.permute (@List.perm_append_comm _ [_, _] _)))
  case single => decide +kernel
  rw [ofJson, text.decode]
  rfl

/-- Half of a pair is no part of a name, so a member with such a key is not passed over. -/
theorem ofJson_half_pair : ∃ line ms,
    line = ("\x7b\"subject\":\"a\",\"predicate\":\"p\",\"object\":\"b\"," ++
        "\"\\ud800\":null\x7d").toList ∧
      IsText (.object ms true) line ∧ (∀ name ∈ memberNames, (valuesOf name ms).length ≤ 1) ∧
      (∀ name ∈ ["subject", "predicate", "object"],
        ∃ n ∈ valuesOf name ms, ∃ s, n.text? = some s) ∧
      valuesOf "label" ms = [] ∧ ofJson line = .error (.record .malformed) := by
  have text : IsText (.object ((memberNodes [("subject", .string "a"), ("predicate", .string "p"),
      ("object", .string "b")]) ++ [([.unit 0xD800], .null)]) true)
      ("\x7b\"subject\":\"a\",\"predicate\":\"p\",\"object\":\"b\"," ++
        "\"\\ud800\":null\x7d").toList :=
    .element (.nil _) (.object
      (.moreMembers (member_of_value "subject" (Value.derives (.string "a") _))
      (.moreMembers (member_of_value "predicate" (Value.derives (.string "p") _))
      (.moreMembers (member_of_value "object" (Value.derives (.string "b") _))
      (.lastMember (.member (.nil _) (.unit rfl (.close _)) (.nil _)
        (element_of_value (.null _)))))))) (.nil _)
  refine ⟨_, _, rfl, text, by decide +kernel, ?_, by decide +kernel, ?_⟩
  · simp [valuesOf_append, valuesOf_memberNodes, Value.node, Node.text?, text?_pieces]
  · rw [ofJson, text.decode]
    rfl

end Traversal.Statement
