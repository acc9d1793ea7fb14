import Traversal.Proofs.Store.Replay

namespace Traversal

namespace Text

/-- Words with white space behind each of them are found again. -/
theorem words_flatMap {ws : List (List Char)} (h : ∀ w ∈ ws, w ≠ [] ∧ ∀ c ∈ w, isBlank c = false)
    {b : Char} (hb : isBlank b = true) (cs : List Char) :
    words ((ws.flatMap fun w => w ++ [b]) ++ cs) = ws ++ words cs := by
  induction ws with
  | nil => rfl
  | cons w ws ih =>
    have rest := ih fun v hv => h v (List.mem_cons_of_mem w hv)
    obtain ⟨full, solid⟩ := h w List.mem_cons_self
    rw [List.flatMap_cons, List.append_assoc, List.append_assoc, List.singleton_append,
      words_append_cons _ _ hb, words_eq_self solid full, rest]
    rfl

end Text

namespace Statement

/-- The names, each with a tab behind it, and a full stop. -/
def tsvLine (st : Statement) : List Char :=
  (st.names.flatMap fun n => n.toList ++ ['\t']) ++ ['.']

theorem dropStop_concat (fields : List (List Char)) : dropStop (fields ++ [['.']]) = fields := by
  simp [dropStop]

/-- Only the last full stop is taken away, whatever the names are. -/
theorem ofWords_tsvLine {st : Statement}
    (h : ∀ n ∈ st.names, n ≠ "" ∧ ∀ c ∈ n.toList, Text.isBlank c = false) :
    ofWords st.tsvLine = .ok st := by
  have solid : ∀ w ∈ st.names.map String.toList, w ≠ [] ∧ ∀ c ∈ w, Text.isBlank c = false := by
    intro w hw
    obtain ⟨n, hn, rfl⟩ := List.mem_map.1 hw
    exact ⟨by simpa using (h n hn).1, (h n hn).2⟩
  have split : Text.words st.tsvLine = st.names.map String.toList ++ [['.']] := by
    have found := Text.words_flatMap solid (b := '\t') (by decide) ['.']
    have stop : Text.words ['.'] = [['.']] :=
      Text.words_eq_self (List.forall_mem_singleton.2 (by decide)) (by decide)
    rwa [List.flatMap_map, stop] at found
  rw [ofWords, split, dropStop_concat]
  obtain ⟨s, p, o, _ | l⟩ := st <;> simp [names, String.ofList_toList]

theorem newline_not_mem_tsvLine {st : Statement}
    (h : ∀ n ∈ st.names, ∀ c ∈ n.toList, Text.isBlank c = false) : '\n' ∉ st.tsvLine := by
  intro hmem
  simp only [tsvLine, List.mem_append, List.mem_flatMap, List.mem_singleton] at hmem
  rcases hmem with ⟨n, hn, hc | hc⟩ | hc
  · have solid := h n hn _ hc
    exact absurd solid (by decide)
  · exact absurd hc (by decide)
  · exact absurd hc (by decide)

theorem content_tsvLine {st : Statement}
    (h : ∀ n ∈ st.names, n ≠ "" ∧ ∀ c ∈ n.toList, Text.isBlank c = false)
    (shown : st.subject.toList.head? ≠ some '#') :
    ({} : LoadOptions).content st.tsvLine = .ok (.statement st) := by
  obtain ⟨full, solid⟩ := h st.subject (by simp [names])
  obtain ⟨c, cs, hs⟩ : ∃ c cs, st.subject.toList = c :: cs :=
    List.exists_cons_of_ne_nil (by simpa using full)
  have hc : Text.isBlank c = false := solid c (hs ▸ List.mem_cons_self)
  have visible : c ≠ '#' := by
    rintro rfl
    exact shown (congrArg List.head? hs)
  let more := ([st.predicate, st.object] ++ st.label.toList).flatMap fun n => n.toList ++ ['\t']
  have line : st.tsvLine = c :: (cs ++ '\t' :: more) ++ ['.'] := by
    simp [tsvLine, names, hs, more]
  have found := LoadOptions.content_of_statement (o := {}) line hc (by decide) visible
    (ofWords_tsvLine h)
  simpa using found

end Statement

namespace Store

/-- A store whose names are words, none of them the subject of a comment, is loaded again from its
statements, one to a line. Nothing is lost: the ids of names and quads are the same. -/
theorem load_dump_tsv {s : Store} (h : s.Grown)
    (words : ∀ n ∈ s.names.list, n ≠ "" ∧ ∀ c ∈ n.toList, Text.isBlank c = false)
    (shown : ∀ st ∈ s.statements, st.subject.toList.head? ≠ some '#') :
    load {} (Text.utf8 (s.dump Statement.tsvLine)) {} = (.ok s.size, s) := by
  have valid := h.replay.1
  have spelled : ∀ st ∈ s.statements, ∀ n ∈ st.names,
      n ≠ "" ∧ ∀ c ∈ n.toList, Text.isBlank c = false := by
    intro st hst n hn
    obtain ⟨id, hid⟩ := (valid.mem_statements st).1 hst
    exact words n (mem_list_of_statement? hid hn)
  apply h.load_dump
  · exact fun st hst => Statement.newline_not_mem_tsvLine fun n hn => (spelled st hst n hn).2
  · exact fun st hst => Statement.content_tsvLine (spelled st hst) (shown st hst)

/-- A full stop is an object here, and a label. -/
theorem load_dump_tsv_stops : ∃ s, s.Grown ∧
    s.dump Statement.tsvLine = "a\tis\t.\t.\na\tis\t.\t.\t.\n" ∧
      load {} (Text.utf8 (s.dump Statement.tsvLine)) {} = (.ok 2, s) := by
  have stored : addAll [⟨"a", "is", ".", none⟩, ⟨"a", "is", ".", some "."⟩] {} = (.ok (), _) := rfl
  have grown := Grown.empty.of_addAll stored
  refine ⟨_, grown, by decide +kernel, load_dump_tsv grown (fun n hn => ?_) ?_⟩
  · have solid : (["a", "is", "."].all fun n => n != "" && n.toList.all (!Text.isBlank ·)) = true := by
      decide +kernel
    simpa using List.all_eq_true.1 solid n hn
  · decide +kernel

end Store

end Traversal
