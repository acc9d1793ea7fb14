import Traversal.Proofs.Store.Replay
import Traversal.Proofs.Store.Requests

namespace Traversal

/-- The line is neither blank nor a comment and holds no statement. -/
def QuadFormat.malformed (f : QuadFormat) (line : List Char) : Bool :=
  let cs := Text.trim line
  cs != [] && cs.head? != some '#' && !(f.statement cs).isOk

namespace LoadOptions

variable {o : LoadOptions} {line : List Char}

theorem content_of_malformed (h : o.format.malformed line = true) :
    ∃ e, ∀ skip, ({ o with skipMalformed := skip } : LoadOptions).content line =
      if skip then .ok .skipped else .error e := by
  simp only [QuadFormat.malformed, Bool.and_eq_true, bne_iff_ne, ne_eq, Bool.not_eq_true'] at h
  obtain ⟨⟨full, visible⟩, rejected⟩ := h
  obtain ⟨c, r, trimmed⟩ := List.exists_cons_of_ne_nil full
  have sign : c ≠ '#' := by
    rintro rfl
    rw [trimmed] at visible
    exact visible rfl
  cases hs : o.format.statement (Text.trim line) with
  | ok st =>
    rw [hs] at rejected
    cases rejected
  | error e =>
    refine ⟨e, fun skip => ?_⟩
    rw [content_visible trimmed sign]
    simp only [hs]

theorem content_of_wellFormed (h : o.format.malformed line = false) :
    ∃ c, ∀ skip, ({ o with skipMalformed := skip } : LoadOptions).content line = .ok c := by
  cases trimmed : Text.trim line with
  | nil =>
    refine ⟨.skipped, fun skip => ?_⟩
    rw [content, trimmed]
  | cons c r =>
    by_cases sign : c = '#'
    · refine ⟨.skipped, fun skip => ?_⟩
      rw [content, trimmed, sign]
      rfl
    · cases hs : o.format.statement (Text.trim line) with
      | ok st =>
        refine ⟨.statement { st with label := st.label <|> o.defaultLabel }, fun skip => ?_⟩
        rw [content_visible trimmed sign]
        simp only [hs]
      | error e =>
        have rejected : o.format.malformed line = true := by
          rw [trimmed] at hs
          simp [QuadFormat.malformed, trimmed, sign, hs, Except.isOk, Except.toBool]
        rw [rejected] at h
        cases h

end LoadOptions

namespace Store

/-- The line can be decoded and is malformed. -/
def malformedLine (f : QuadFormat) (line : List UInt8) : Bool :=
  (decodeLine line).any f.malformed

section Line

variable {o : LoadOptions} {line : List UInt8}

theorem demand_of_malformed (h : malformedLine o.format line = true) (skip : Bool) :
    demand { o with skipMalformed := skip } line = if skip then some .skipped else none := by
  cases hcs : decodeLine line with
  | none =>
    rw [malformedLine, hcs] at h
    cases h
  | some cs =>
    rw [malformedLine, hcs] at h
    obtain ⟨e, he⟩ := LoadOptions.content_of_malformed h
    rw [demand, hcs, Option.bind_eq_bind, Option.bind_some, he skip]
    cases skip with
    | true => rfl
    | false => rfl

theorem demand_of_wellFormed (decodes : (decodeLine line).isSome)
    (h : malformedLine o.format line = false) :
    ∃ c, ∀ skip, demand { o with skipMalformed := skip } line = some c := by
  obtain ⟨cs, hcs⟩ := Option.isSome_iff_exists.1 decodes
  have good : o.format.malformed cs = false := by
    rwa [malformedLine, hcs] at h
  obtain ⟨c, hc⟩ := LoadOptions.content_of_wellFormed good
  exact ⟨c, fun skip => demand_eq_some.2 ⟨cs, hcs, hc skip⟩⟩

/-- A line is malformed if it ends a load that passes over nothing. -/
theorem demand_eq_none_iff (decodes : (decodeLine line).isSome) :
    demand { o with skipMalformed := false } line = none ↔ malformedLine o.format line = true := by
  cases h : malformedLine o.format line with
  | true => simp [demand_of_malformed h false]
  | false =>
    obtain ⟨c, hc⟩ := demand_of_wellFormed decodes h
    simp [hc false]

/-- To pass over malformed lines is to leave them out. -/
theorem request_skipping (decodes : (decodeLine line).isSome) :
    request { o with skipMalformed := true } line =
      if !malformedLine o.format line then request { o with skipMalformed := false } line
      else none := by
  cases h : malformedLine o.format line with
  | true => simp [request, demand_of_malformed h true]
  | false =>
    obtain ⟨c, hc⟩ := demand_of_wellFormed decodes h
    simp [request, hc]

end Line

/-- Lines can be taken out of a text. -/
theorem exists_lines_filter (p : List UInt8 → Bool) (text : List UInt8) :
    ∃ kept, lines kept = (lines text).filter p := by
  refine ⟨((lines text).filter p).flatMap fun line => line ++ [newline], ?_⟩
  have solid : ∀ line ∈ (lines text).filter p, ∀ b ∈ line, (b == newline) = false :=
    fun line hl => Text.solid_of_mem_terminated (List.mem_of_mem_filter hl)
  exact Text.terminated_flatMap (p := (· == newline)) (beq_self_eq_true newline) solid

/-- A load comes to its end if no line ends it and no id is refused. -/
theorem exists_load {o : LoadOptions} {text : List UInt8} {s : Store}
    (fits : (Change.load o text).Fits s) (goes : ∀ line ∈ lines text, demand o line ≠ none) :
    ∃ n t, load o text s = (.ok n, t) := by
  rcases hr : load o text s with ⟨e | n, t⟩
  · obtain ⟨front, line, rest, n, u, split, -, failed⟩ := loadLines_error hr
    rcases loadLine_error failed with ⟨cause, rfl⟩ | ⟨-, stops, -⟩
    · exact absurd (congrArg Prod.fst hr) (fits _ cause)
    · exact absurd stops (goes line (by simp [split]))
  · exact ⟨n, t, rfl⟩

section Load

variable {o : LoadOptions} {text : List UInt8} {s t : Store}
  (decodes : ∀ line ∈ lines text, (decodeLine line).isSome)

include decodes

theorem exists_load_skipping (fits : (Change.load { o with skipMalformed := true } text).Fits s) :
    ∃ n t, load { o with skipMalformed := true } text s = (.ok n, t) := by
  apply exists_load fits
  intro line hl
  cases h : malformedLine o.format line with
  | true => simp [demand_of_malformed h true]
  | false =>
    obtain ⟨c, hc⟩ := demand_of_wellFormed (decodes line hl) h
    simp [hc true]

theorem load_of_skipping {n : Nat} (hr : load { o with skipMalformed := true } text s = (.ok n, t))
    {kept : List UInt8} (removed : lines kept = (lines text).filter (!malformedLine o.format ·)) :
    load { o with skipMalformed := false } kept s = (.ok n, t) := by
  have same : (lines text).filterMap (request { o with skipMalformed := true }) =
      (lines kept).filterMap (request { o with skipMalformed := false }) := by
    rw [removed, List.filterMap_filter]
    exact List.filterMap_congr fun line hl => request_skipping (decodes line hl)
  exact load_ok_congr same hr

/-- A load that passes over nothing comes to its end if there is nothing to pass over. -/
theorem exists_load_iff (fits : (Change.load { o with skipMalformed := false } text).Fits s) :
    (∃ n t, load { o with skipMalformed := false } text s = (.ok n, t)) ↔
      ∀ line ∈ lines text, malformedLine o.format line = false := by
  constructor
  · intro h line hl
    obtain ⟨n, t, hr⟩ := h
    have goes := demand_of_loadLines_ok hr line hl
    rwa [ne_eq, demand_eq_none_iff (decodes line hl), Bool.not_eq_true] at goes
  · intro h
    apply exists_load fits
    intro line hl
    rw [ne_eq, demand_eq_none_iff (decodes line hl), h line hl]
    exact Bool.false_ne_true

/-- If not, it fails at the first malformed line. -/
theorem findIdx?_of_load_error {e : LoadError}
    (fits : (Change.load { o with skipMalformed := false } text).Fits s)
    (hr : load { o with skipMalformed := false } text s = (.error e, t)) :
    ∃ k cause, (lines text).findIdx? (malformedLine o.format) = some k ∧
      e = .malformed (k + 1) cause := by
  obtain ⟨front, line, rest, n, u, split, passed, failed⟩ := loadLines_error hr
  rw [split] at decodes ⊢
  have good : ∀ l ∈ front, malformedLine o.format l = false := by
    intro l hl
    have goes := demand_of_loadLines_ok passed l hl
    have decoded := decodes l (List.mem_append_left _ hl)
    rwa [ne_eq, demand_eq_none_iff decoded, Bool.not_eq_true] at goes
  have decoded := decodes line (List.mem_append_right _ List.mem_cons_self)
  rcases loadLine_error failed with ⟨cause, rfl⟩ | ⟨-, stops, kind⟩
  · exact absurd (congrArg Prod.fst hr) (fits _ cause)
  · have bad : malformedLine o.format line = true := (demand_eq_none_iff decoded).1 stops
    rcases kind with ⟨unread, -⟩ | ⟨cause, rfl⟩
    · rw [unread] at decoded
      cases decoded
    · refine ⟨front.length, cause, ?_, by rw [Nat.add_comm]⟩
      rw [List.findIdx?_append, List.findIdx?_eq_none_iff.2 good, List.findIdx?_cons, bad]
      simp

end Load

/-- A text whose lines are in UTF-8 is loaded, its malformed lines passed over, as it would be
without these lines. A load that passes over nothing fails at the first of them. -/
theorem load_skipMalformed (o : LoadOptions) (s : Store) {text : List UInt8}
    (decodes : ∀ line ∈ lines text, (decodeLine line).isSome) :
    ((Change.load { o with skipMalformed := true } text).Fits s →
      ∃ n t, load { o with skipMalformed := true } text s = (.ok n, t) ∧
        (∃ kept, lines kept = (lines text).filter (!malformedLine o.format ·)) ∧
        ∀ kept, lines kept = (lines text).filter (!malformedLine o.format ·) →
          load { o with skipMalformed := false } kept s = (.ok n, t)) ∧
    ((Change.load { o with skipMalformed := false } text).Fits s →
      ((∃ n t, load { o with skipMalformed := false } text s = (.ok n, t)) ↔
        ∀ line ∈ lines text, malformedLine o.format line = false) ∧
      ∀ k, (lines text).findIdx? (malformedLine o.format) = some k →
        ∃ cause t, load { o with skipMalformed := false } text s =
          (.error (.malformed (k + 1) cause), t)) := by
  constructor
  · intro fits
    obtain ⟨n, t, hr⟩ := exists_load_skipping decodes fits
    exact ⟨n, t, hr, exists_lines_filter _ text, fun kept => load_of_skipping decodes hr⟩
  · intro fits
    have whole := exists_load_iff decodes fits
    refine ⟨whole, ?_⟩
    intro k first
    rcases hr : load { o with skipMalformed := false } text s with ⟨e | n, t⟩
    · obtain ⟨j, cause, found, rfl⟩ := findIdx?_of_load_error decodes fits hr
      rw [first] at found
      cases found
      exact ⟨cause, t, rfl⟩
    · have good := List.findIdx?_eq_none_iff.2 (whole.1 ⟨n, t, hr⟩)
      rw [first] at good
      cases good

/-- A line with two names stands between good ones. -/
theorem load_skipMalformed_friends :
    let text := Text.utf8 "dave follows alice\nerin follows\n# more\nerin follows dave\n"
    let kept := Text.utf8 "dave follows alice\n# more\nerin follows dave"
    (∀ line ∈ lines text, (decodeLine line).isSome) ∧
      (Change.load { skipMalformed := true } text).Fits {} ∧ (Change.load {} text).Fits {} ∧
      lines kept = (lines text).filter (!malformedLine .tsv ·) ∧
      (lines text).findIdx? (malformedLine .tsv) = some 1 ∧
      (∃ t, load { skipMalformed := true } text {} = (.ok 2, t) ∧ load {} kept {} = (.ok 2, t)) ∧
      ∃ cause t, load {} text {} = (.error (.malformed 2 cause), t) := by
  intro text kept
  have decodes : ∀ line ∈ lines text, (decodeLine line).isSome := by
    have all : (lines text).all (fun line => (decodeLine line).isSome) = true := by decide +kernel
    exact List.all_eq_true.1 all
  have count : (load { skipMalformed := true } text {}).1 = .ok 2 := by decide +kernel
  have skipping : (Change.load { skipMalformed := true } text).Fits {} := by
    intro number e he
    rw [count] at he
    cases he
  have failure : (load {} text {}).1 = .error (.malformed 2 (.fieldCount 2)) := by decide +kernel
  have strict : (Change.load {} text).Fits {} := by
    intro number e he
    rw [failure] at he
    cases he
  have removed : lines kept = (lines text).filter (!malformedLine .tsv ·) := by decide +kernel
  have first : (lines text).findIdx? (malformedLine .tsv) = some 1 := by decide +kernel
  obtain ⟨passes, stops⟩ := load_skipMalformed {} {} decodes
  obtain ⟨n, t, loaded, -, without⟩ := passes skipping
  obtain rfl : n = 2 := by
    rw [loaded] at count
    cases count
    rfl
  exact ⟨decodes, skipping, strict, removed, first, ⟨t, loaded, without kept removed⟩,
    (stops strict).2 1 first⟩

end Store

end Traversal
