import Traversal.Proofs.Directory
import Traversal.Proofs.Json.Records
import Traversal.Proofs.Store.Lines
import Traversal.Store.File

namespace Traversal

open Json
open Json.Value (memberNodes)
open Json.Record (Apart readMembers)
open Relation (EqvGen)

namespace QuadFormat

theorem read_name (f : QuadFormat) : read (Value.string f.name).node = .ok f := by
  rw [read, Value.node, Node.readVariant, textOf_pieces]
  cases f <;> rfl

theorem name_inj {f g : QuadFormat} (h : f.name = g.name) : f = g := by
  have read := f.read_name
  rw [h, g.read_name] at read
  exact (Except.ok.inj read).symm

end QuadFormat

namespace LoadOptions

theorem fields_apart : Apart fields := by
  constructor <;> simp [fields]

/-- The names of the members that are read. -/
def memberNames : List String :=
  ["quads_path", "format", "skip_malformed", "default_label"]

/-- What the members tell of the options. -/
structure Told (ms : List Member) (o : LoadOptions) : Prop where
  quadsPath :
    TellsOr ms "quads_path" (Node.readOption (Node.readText "path string")) none o.quadsPath
  format : TellsOr ms "format" QuadFormat.read .tsv o.format
  skipMalformed : TellsOr ms "skip_malformed" Node.readBool false o.skipMalformed
  defaultLabel :
    TellsOr ms "default_label" (Node.readOption (Node.readText "a string")) none o.defaultLabel

variable {ms ms' : List Member} {o : LoadOptions}

theorem finish_eq {d : Draft} : d.finish = o ↔ d.quadsPath.getD none = o.quadsPath ∧
    d.format.getD .tsv = o.format ∧ d.skipMalformed.getD false = o.skipMalformed ∧
    d.defaultLabel.getD none = o.defaultLabel := by
  obtain ⟨p, f, s, l⟩ := o
  simp [Draft.finish]

theorem finish_readMembers {d : Draft} (h : readMembers fields ms {} = .ok d) :
    d.finish = o ↔ Told ms o := by
  have path := fields_apart.getD_eq_iff "quads_path" rfl rfl h none o.quadsPath
  have format := fields_apart.getD_eq_iff "format" rfl rfl h QuadFormat.tsv o.format
  have skip := fields_apart.getD_eq_iff "skip_malformed" rfl rfl h false o.skipMalformed
  have label := fields_apart.getD_eq_iff "default_label" rfl rfl h none o.defaultLabel
  rw [finish_eq]
  exact ⟨fun ⟨p, f, s, l⟩ => ⟨path.1 p, format.1 f, skip.1 s, label.1 l⟩,
    fun told => ⟨path.2 told.quadsPath, format.2 told.format, skip.2 told.skipMalformed,
      label.2 told.defaultLabel⟩⟩

/-- An object is read as the options that its members tell. -/
theorem ofJson_eq_ok {cs : List Char} (text : IsText (.object ms true) cs) :
    ofJson cs = .ok o ↔ Spelled ms ∧ Told ms o := by
  refine Record.decode_eq_ok (r := record) fields_apart text ?_ ?_
  · intro d read
    change Except.ok d.finish = Except.ok o ↔ _
    rw [Except.ok.injEq, finish_readMembers read]
  · intro told
    simp only [record, fields, List.forall_mem_cons]
    exact ⟨.of_tellsOr rfl told.quadsPath, .of_tellsOr rfl told.format,
      .of_tellsOr rfl told.skipMalformed, .of_tellsOr rfl told.defaultLabel, List.forall_mem_nil _⟩

theorem Told.of_edits (told : Told ms o) (edits : EqvGen (Edit memberNames) ms ms') :
    Told ms' o where
  quadsPath := (tellsOr_iff_of_edits edits (by decide) _ _ _).1 told.quadsPath
  format := (tellsOr_iff_of_edits edits (by decide) _ _ _).1 told.format
  skipMalformed := (tellsOr_iff_of_edits edits (by decide) _ _ _).1 told.skipMalformed
  defaultLabel := (tellsOr_iff_of_edits edits (by decide) _ _ _).1 told.defaultLabel

/-- The members of the options as they are written. -/
def members (o : LoadOptions) : List (String × Value) := [
  ("quads_path", .ofOption .string o.quadsPath),
  ("format", .string o.format.name),
  ("skip_malformed", .bool o.skipMalformed),
  ("default_label", .ofOption .string o.defaultLabel)]

theorem toJson_eq (o : LoadOptions) : o.toJson = .object o.members := rfl

/-- Members that have their default values may be left out. -/
theorem told_members {omitted : List String}
    (h : ∀ m ∈ o.members, m.1 ∈ omitted → m ∈ ({} : LoadOptions).members) :
    Told (memberNodes (o.members.filter fun m => m.1 ∉ omitted)) o := by
  have absent : ∀ s : Option String, Value.ofOption .string s = Value.ofOption .string none →
      s = none := by
    rintro (_ | s) e
    · rfl
    · cases e
  simp only [members, List.forall_mem_cons] at h
  obtain ⟨path, format, skip, label, -⟩ := h
  exact {
    quadsPath := tellsOr_memberNodes rfl (readOption_ofOption _ _) omitted fun hn =>
      absent _ (by simpa using path hn)
    format := tellsOr_memberNodes rfl o.format.read_name omitted fun hn =>
      QuadFormat.name_inj (by simpa using format hn)
    skipMalformed := tellsOr_memberNodes rfl (readBool_bool _) omitted fun hn => by
      simpa using skip hn
    defaultLabel := tellsOr_memberNodes rfl (readOption_ofOption _ _) omitted fun hn =>
      absent _ (by simpa using label hn) }

section Files

variable {dir dir' : Directory} {path text : String}

theorem ofFile_of_write (written : dir.write path (Text.utf8 text) = .ok dir') :
    ofFile dir' path = (ofJson text.toList).mapError (.parsing path) := by
  have decoded : Store.decodeLine (Text.utf8 text) = some text.toList := by
    rw [← String.ofList_toList (s := text), Text.utf8_ofList, Store.decodeLine_utf8]
    simp
  simp only [ofFile, Directory.read_write written, decoded]

theorem ofFile_of_members (written : dir.write path (Text.utf8 text) = .ok dir')
    (omitted : List String)
    (default : ∀ m ∈ o.members, m.1 ∈ omitted → m ∈ ({} : LoadOptions).members)
    (edits : EqvGen (Edit memberNames) (memberNodes (o.members.filter fun m => m.1 ∉ omitted)) ms)
    (json : IsText (.object ms true) text.toList) : ofFile dir' path = .ok o := by
  rw [ofFile_of_write written, mapError_eq_ok, ofJson_eq_ok json]
  exact ⟨(spelled_iff_of_edits edits).1 (spelled_memberNodes _),
    (told_members default).of_edits edits⟩

/-- Options that are written to a file are read from it again, also if members that have their
default values are left out, and the others are put into another order, with members of other names
among them. -/
theorem ofFile_written (o : LoadOptions) (written : dir.write path (Text.utf8 text) = .ok dir') :
    (text = o.toJson.text → ofFile dir' path = .ok o) ∧
    ∀ (omitted : List String) (ms : List Member),
      (∀ m ∈ o.members, m.1 ∈ omitted → m ∈ ({} : LoadOptions).members) →
      EqvGen (Edit memberNames) (memberNodes (o.members.filter fun m => m.1 ∉ omitted)) ms →
      IsText (.object ms true) text.toList → ofFile dir' path = .ok o := by
  constructor
  · rintro rfl
    have json : IsText (.object (memberNodes o.members) true) o.toJson.text.toList := by
      rw [Value.text, String.toList_ofList, toJson_eq]
      exact (Value.object o.members).isText
    exact ofFile_of_members written [] (by simp) (by simpa using EqvGen.refl _) json
  · exact fun omitted ms default edits json => ofFile_of_members written omitted default edits json

/-- Two members are left out, the others change places, and one that nests a known name comes
first. -/
theorem ofFile_written_omitted : ∃ text dir' ms,
    text = "\x7b\"x\":\x7b\"format\":null\x7d, \"default_label\" :\"\\\"\"," ++
        "\"format\":\"json_lines\"\x7d" ∧
      Directory.write {} "store.json" (Text.utf8 text) = .ok dir' ∧
      EqvGen (Edit memberNames) (memberNodes [("format", .string "json_lines"),
        ("default_label", .string "\"")]) ms ∧
      IsText (.object ms true) text.toList ∧
      ofFile dir' "store.json" = .ok { format := .jsonLines, defaultLabel := some "\"" } := by
  have edits : EqvGen (Edit memberNames)
      (memberNodes [("format", .string "json_lines"), ("default_label", .string "\"")])
      (memberNodes [("x", .object [("format", .null)]), ("default_label", .string "\""),
        ("format", .string "json_lines")]) :=
    .trans _ _ _ (.rel _ _ (.permute (.swap _ _ _)))
      (.rel _ _ (.insert [] _ (text?_pieces "x") (by decide)))
  refine ⟨_, _, _, rfl, rfl, edits, ?json,
    (@ofFile_written {} _ "store.json" _ { format := .jsonLines, defaultLabel := some "\"" } rfl).2
      ["quads_path", "skip_malformed"] _ (by simp [members]) edits ?json⟩
  exact .element (.nil _) (.object
    (.moreMembers (Value.member_of_value "x" (Value.derives (.object [("format", .null)]) _))
    (.moreMembers (.member (.cons rfl (.nil _)) (text_escaped "default_label".toList _)
      (.cons rfl (.nil _)) (Value.element_of_value (Value.derives (.string "\"") _)))
    (.lastMember (Value.member_of_value "format" (Value.derives (.string "json_lines") _))))))
    (.nil _)

/-- Half of a pair is no part of a name, so a member with such a key is not passed over. -/
theorem ofFile_half_pair : ∃ text dir',
    text = "\x7b\"\\ud800\":null\x7d" ∧
      Directory.write {} "store.json" (Text.utf8 text) = .ok dir' ∧
      (∀ m ∈ members {}, m.1 ∈ memberNames → m ∈ ({} : LoadOptions).members) ∧
      IsText (.object (([.unit 0xD800], .null) ::
        memberNodes ((members {}).filter fun m => m.1 ∉ memberNames)) true) text.toList ∧
      ofFile dir' "store.json" = .error (.parsing "store.json" .malformed) := by
  have json : IsText (.object [([.unit 0xD800], .null)] true) "\x7b\"\\ud800\":null\x7d".toList :=
    .element (.nil _) (.object (.lastMember (.member (.nil _) (.unit rfl (.close _)) (.nil _)
      (Value.element_of_value (.null _))))) (.nil _)
  refine ⟨_, _, rfl, rfl, fun m hm _ => hm, json, ?_⟩
  rw [@ofFile_of_write {} _ "store.json" _ rfl, ofJson, json.decode]
  rfl

end Files

end LoadOptions

end Traversal
