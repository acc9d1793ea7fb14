import Mathlib.Logic.Relation
import Traversal.Proofs.Store.Requests
import Traversal.Proofs.Store.Tsv

namespace Traversal

namespace LoadOptions

variable {o : LoadOptions} {l m : List Char}

/-- White space at the ends of a line does not matter. -/
theorem content_eq_of_trim (h : Text.trim l = Text.trim m) : o.content l = o.content m := by
  rw [content, content, h]

/-- Where names are words, a line is read by its words. -/
theorem content_eq_of_words (format : o.format = .tsv)
    (first : (Text.words l).head? = (Text.words m).head?)
    (same : Statement.dropStop (Text.words l) = Statement.dropStop (Text.words m)) :
    o.content l = o.content m := by
  have heads : (Text.trim l).head? = (Text.trim m).head? := by
    rw [Text.head?_trim, Text.head?_trim, first]
  have read : o.format.statement (Text.trim l) = o.format.statement (Text.trim m) := by
    rw [format]
    change Statement.ofWords _ = Statement.ofWords _
    rw [Statement.ofWords, Statement.ofWords, Text.words_trim, Text.words_trim, same]
  cases hl : Text.trim l with
  | nil =>
    rw [hl] at heads
    rw [content, content, hl, List.head?_eq_none_iff.1 heads.symm]
  | cons c x =>
    rw [hl] at heads
    obtain ⟨y, hm⟩ := List.head?_eq_some_iff.1 heads.symm
    by_cases sign : c = '#'
    · subst sign
      rw [content, content, hl, hm]
      rfl
    · rw [content_visible hl sign, content_visible hm sign, read]

theorem content_blank {ws : List Char} (hw : ∀ c ∈ ws, Text.isBlank c = true) :
    o.content ws = .ok .skipped := by
  have gone : Text.trim ws = [] := Text.trim_append_blank hw []
  rw [content, gone]

theorem content_comment {ws : List Char} (hw : ∀ c ∈ ws, Text.isBlank c = true) (r : List Char) :
    o.content (ws ++ '#' :: r) = .ok .skipped := by
  have start : (Text.trim ('#' :: r)).head? = some '#' := by
    rw [Text.head?_trim]
    exact Text.head?_words_cons (by decide) r
  obtain ⟨x, hx⟩ := List.head?_eq_some_iff.1 start
  rw [content, Text.trim_blank_append hw, hx]
  rfl

end LoadOptions

namespace Store

/-- The text is empty or ends with a newline. -/
abbrev StartsLine (before : List Char) : Prop :=
  Text.Whole (· == '\n') before

/-- The text is empty or begins with a newline. -/
def EndsLine (after : List Char) : Prop :=
  after = [] ∨ after.head? = some '\n'

/-- White space within a line. -/
def Blanks (ws : List Char) : Prop :=
  ∀ c ∈ ws, Text.isBlank c = true ∧ c ≠ '\n'

theorem blanks_singleton {c : Char} (blank : Text.isBlank c = true) (line : c ≠ '\n') :
    Blanks [c] := by
  intro d hd
  rw [List.mem_singleton.1 hd]
  exact ⟨blank, line⟩

/-- A change of the layout of a text. -/
inductive Relaid (f : QuadFormat) : List Char → List Char → Prop
  | blankLine {a ws b : List Char} (start : StartsLine a) (blanks : Blanks ws) :
    Relaid f (a ++ b) (a ++ ws ++ '\n' :: b)
  | comment {a ws r b : List Char} (start : StartsLine a) (blanks : Blanks ws) (line : '\n' ∉ r) :
    Relaid f (a ++ b) (a ++ ws ++ '#' :: r ++ '\n' :: b)
  | indent {a ws b : List Char} (start : StartsLine a) (blanks : Blanks ws) :
    Relaid f (a ++ b) (a ++ ws ++ b)
  | trail {a ws b : List Char} (stop : EndsLine b) (blanks : Blanks ws) :
    Relaid f (a ++ b) (a ++ ws ++ b)
  | carriageReturn {a b : List Char} : Relaid f (a ++ '\n' :: b) (a ++ '\r' :: '\n' :: b)
  | finalNewline {a : List Char} : Relaid f a (a ++ ['\n'])
  /-- Names may be set apart by any white space. -/
  | respace {a ws vs b : List Char} (format : f = .tsv) (ws_blanks : Blanks ws)
    (vs_blanks : Blanks vs) (ws_full : ws ≠ []) (vs_full : vs ≠ []) :
    Relaid f (a ++ ws ++ b) (a ++ vs ++ b)
  /-- A full stop may stand behind the names. -/
  | fullStop {a l ws b : List Char} (format : f = .tsv) (start : StartsLine a) (stop : EndsLine b)
    (line : '\n' ∉ l) (count : (Text.words l).length = 3 ∨ (Text.words l).length = 4)
    (last : (Text.words l).getLast? ≠ some ['.']) (blanks : Blanks ws) (full : ws ≠ []) :
    Relaid f (a ++ l ++ b) (a ++ l ++ ws ++ '.' :: b)

/-- What a line of characters contributes to a load. -/
def ask (o : LoadOptions) (line : List Char) : Option (Option Statement) :=
  request o (line.flatMap String.utf8EncodeChar)

section Ask

variable {o : LoadOptions} {l m : List Char}

theorem ask_congr (h : o.content l = o.content m) : ask o l = ask o m := by
  simp only [ask, request, demand, decodeLine_utf8, Option.bind_eq_bind, Option.bind_some, h]

theorem ask_of_skipped (h : o.content l = .ok .skipped) : ask o l = none := by
  simp only [ask, request, demand, decodeLine_utf8, Option.bind_eq_bind, Option.bind_some, h]
  rfl

/-- What the stretches between newlines contribute. -/
def asks (o : LoadOptions) (text : List Char) : List (Option Statement) :=
  (Text.segments (· == '\n') text).filterMap (ask o)

/-- These are all that a load sees: an empty stretch contributes nothing. -/
theorem requests_utf8 (o : LoadOptions) (text : String) :
    (lines (Text.utf8 text)).filterMap (request o) = asks o text.toList := by
  have split : Text.segments (· == newline) (Text.utf8 text) =
      (Text.segments (· == '\n') text.toList).map (·.flatMap String.utf8EncodeChar) := by
    rw [← segments_utf8, ← Text.utf8_ofList, String.ofList_toList]
  have all : asks o text.toList =
      (Text.segments (· == newline) (Text.utf8 text)).filterMap (request o) := by
    rw [split, List.filterMap_map]
    rfl
  rw [all, lines, Text.terminated]
  split
  · rename_i last
    obtain ⟨front, hf⟩ := List.getLast?_eq_some_iff.1 last
    have empty : request o [] = none := ask_of_skipped (l := []) rfl
    rw [hf, List.dropLast_concat, List.filterMap_append, List.filterMap_cons_none empty]
    exact (List.append_nil _).symm
  · rfl

theorem asks_append (o : LoadOptions) {a : List Char} (start : StartsLine a) (l : List Char) :
    asks o (a ++ l) = (Text.terminated (· == '\n') a).filterMap (ask o) ++ asks o l := by
  rw [asks, start.segments_append, List.filterMap_append]
  rfl

theorem asks_append_newline (o : LoadOptions) (a b : List Char) :
    asks o (a ++ '\n' :: b) = asks o a ++ asks o b := by
  have split := Text.segments_append_cons (p := (· == '\n')) a b (beq_self_eq_true '\n')
  rw [asks, split, List.filterMap_append]
  rfl

theorem eq_nil_of_endsLine {b y : List Char} {post : List (List Char)} (stop : EndsLine b)
    (h : Text.segments (· == '\n') b = y :: post) : y = [] := by
  rcases stop with rfl | first
  · cases h
    rfl
  · obtain ⟨c, rfl⟩ := List.head?_eq_some_iff.1 first
    cases h
    rfl

/-- A line that asks for nothing may be put between lines. -/
theorem asks_insert {a l : List Char} (start : StartsLine a) (line : '\n' ∉ l)
    (skipped : o.content l = .ok .skipped) (b : List Char) :
    asks o (a ++ (l ++ '\n' :: b)) = asks o (a ++ b) := by
  have nothing : asks o l = [] := by
    rw [asks, Text.segments_eq_self (Text.solid_of_not_mem line),
      List.filterMap_cons_none (ask_of_skipped skipped)]
    rfl
  rw [asks_append o start, asks_append o start, asks_append_newline, nothing, List.nil_append]

/-- A line may be written in another way that asks for the same. -/
theorem asks_replace {a l m b : List Char} (hl : '\n' ∉ l) (hm : '\n' ∉ m)
    (same : ∀ x y, (StartsLine a → x = []) → (EndsLine b → y = []) →
      o.content (x ++ (l ++ y)) = o.content (x ++ (m ++ y))) :
    asks o (a ++ (l ++ b)) = asks o (a ++ (m ++ b)) := by
  -- The line goes on into `b` with `y`, and it may have begun in `a`, with `x`.
  obtain ⟨y, post, hb⟩ := Text.exists_segments (· == '\n') b
  have ends : EndsLine b → y = [] := fun stop => eq_nil_of_endsLine stop hb
  have hlb := Text.segments_append_of_solid (Text.solid_of_not_mem hl) hb
  have hmb := Text.segments_append_of_solid (Text.solid_of_not_mem hm) hb
  by_cases start : StartsLine a
  · have line := ask_congr (same [] y (fun _ => rfl) ends)
    simp only [List.nil_append] at line
    rw [asks_append o start, asks_append o start, asks, asks, hlb, hmb, List.filterMap_cons,
      List.filterMap_cons, line]
  · obtain ⟨pre, x, hx⟩ := Text.exists_segments_append (· == '\n') a
    have line := ask_congr (same x y (fun h => absurd h start) ends)
    rw [asks, asks, hx _ _ _ hlb, hx _ _ _ hmb, List.filterMap_append, List.filterMap_append,
      List.filterMap_cons, List.filterMap_cons, line]

theorem Blanks.isBlank {ws : List Char} (blanks : Blanks ws) : ∀ c ∈ ws, Text.isBlank c = true :=
  fun c hc => (blanks c hc).1

theorem Blanks.line {ws : List Char} (blanks : Blanks ws) : '\n' ∉ ws :=
  fun h => (blanks '\n' h).2 rfl

theorem asks_trail {a ws b : List Char} (stop : EndsLine b) (blanks : Blanks ws) :
    asks o (a ++ b) = asks o (a ++ (ws ++ b)) := by
  refine asks_replace (l := []) List.not_mem_nil blanks.line fun x y _ ends => ?_
  simp only [ends stop, List.append_nil]
  exact (LoadOptions.content_eq_of_trim (Text.trim_append_blank blanks.isBlank x)).symm

/-- No change of layout changes what the lines ask for. -/
theorem asks_relaid {a b : List Char} (h : Relaid o.format a b) : asks o a = asks o b := by
  cases h with
  | blankLine start blanks =>
    rw [List.append_assoc]
    exact (asks_insert start blanks.line (LoadOptions.content_blank blanks.isBlank) _).symm
  | @comment a ws r b start blanks line =>
    have one : '\n' ∉ ws ++ '#' :: r := by
      simp [blanks.line, line]
    have skipped := LoadOptions.content_comment (o := o) blanks.isBlank r
    have inserted := (asks_insert start one skipped b).symm
    simpa using inserted
  | @indent a ws b start blanks =>
    rw [List.append_assoc]
    refine asks_replace (l := []) List.not_mem_nil blanks.line fun x y starts _ => ?_
    rw [starts start]
    exact (LoadOptions.content_eq_of_trim (Text.trim_blank_append blanks.isBlank y)).symm
  | trail stop blanks =>
    rw [List.append_assoc]
    exact asks_trail stop blanks
  | carriageReturn => exact asks_trail (.inr rfl) (blanks_singleton (by decide) (by decide))
  | finalNewline =>
    rw [asks_append_newline]
    have nothing : asks o [] = [] := by
      rw [asks, Text.segments, List.filterMap_cons_none (ask_of_skipped rfl)]
      rfl
    rw [nothing, List.append_nil]
  | @respace a ws vs b format ws_blanks vs_blanks ws_full vs_full =>
    rw [List.append_assoc, List.append_assoc]
    refine asks_replace ws_blanks.line vs_blanks.line fun x y _ _ => ?_
    have same : Text.words (x ++ (ws ++ y)) = Text.words (x ++ (vs ++ y)) := by
      rw [Text.words_append_blank_append ws_blanks.isBlank ws_full,
        Text.words_append_blank_append vs_blanks.isBlank vs_full]
    exact LoadOptions.content_eq_of_words format (congrArg List.head? same)
      (congrArg Statement.dropStop same)
  | @fullStop a l ws b format start stop line count last blanks full =>
    have one : '\n' ∉ l ++ (ws ++ ['.']) := by
      simp [blanks.line, line]
    have replaced : asks o (a ++ (l ++ b)) = asks o (a ++ ((l ++ (ws ++ ['.'])) ++ b)) := by
      refine asks_replace line one fun x y starts ends => ?_
      rw [starts start, ends stop, List.append_nil, List.append_nil, List.nil_append,
        List.nil_append]
      have stopped : Text.words (l ++ (ws ++ ['.'])) = Text.words l ++ [['.']] := by
        rw [Text.words_append_blank_append blanks.isBlank full]
        rfl
      have some_word : Text.words l ≠ [] := by
        intro e
        rw [e] at count
        rcases count with count | count <;> cases count
      apply LoadOptions.content_eq_of_words format
      · rw [stopped, List.head?_append_of_ne_nil _ some_word]
      · rw [stopped, Statement.dropStop_concat, Statement.dropStop, if_neg (by simpa using last)]
    simpa using replaced

end Ask

/-- A text may be laid out in any way: the store, the count and whether the load comes to its end
are the same. -/
theorem load_relaid (o : LoadOptions) {a b : String}
    (h : Relation.EqvGen (Relaid o.format) a.toList b.toList) (s : Store) :
    (load o (Text.utf8 a) s).2 = (load o (Text.utf8 b) s).2 ∧
      (load o (Text.utf8 a) s).1.toOption = (load o (Text.utf8 b) s).1.toOption := by
  have same : ∀ {x y : List Char}, Relation.EqvGen (Relaid o.format) x y → asks o x = asks o y := by
    intro x y h
    induction h with
    | rel x y h => exact asks_relaid h
    | refl x => rfl
    | symm x y _ ih => exact ih.symm
    | trans x y z _ _ ih ih' => exact ih.trans ih'
  apply load_congr
  rw [requests_utf8, requests_utf8, same h]

/-- An em space, a full stop, a carriage return and a comment change nothing. -/
theorem load_relaid_friends :
    let plain := "dave follows alice"
    let spaced := "# more\ndave\u2003follows alice .\r\n"
    Relation.EqvGen (Relaid .tsv) plain.toList spaced.toList ∧
      (load {} (Text.utf8 plain) {}).1 = .ok 1 ∧
      (load {} (Text.utf8 spaced) {}).1.toOption = some 1 ∧
      (load {} (Text.utf8 spaced) {}).2 = (load {} (Text.utf8 plain) {}).2 := by
  intro plain spaced
  have space : Blanks [' '] := blanks_singleton (by decide) (by decide)
  have em : Blanks ['\u2003'] := blanks_singleton (by decide) (by decide)
  have unindented : Blanks [] := List.forall_mem_nil _
  have spread : Relaid .tsv "dave follows alice".toList "dave\u2003follows alice".toList :=
    .respace (a := "dave".toList) (b := "follows alice".toList) rfl space em
      (List.cons_ne_nil _ _) (List.cons_ne_nil _ _)
  have stopped : Relaid .tsv "dave\u2003follows alice".toList "dave\u2003follows alice .".toList :=
    .fullStop (a := []) (l := "dave\u2003follows alice".toList) (b := []) rfl .nil (.inl rfl)
      (by decide) (.inl (by decide +kernel)) (by decide +kernel) space (List.cons_ne_nil _ _)
  have ended : Relaid .tsv "dave\u2003follows alice .".toList "dave\u2003follows alice .\n".toList :=
    .finalNewline
  have returned : Relaid .tsv "dave\u2003follows alice .\n".toList
      "dave\u2003follows alice .\r\n".toList :=
    .carriageReturn (a := "dave\u2003follows alice .".toList) (b := [])
  have below : spaced.toList =
      '#' :: " more".toList ++ '\n' :: "dave\u2003follows alice .\r\n".toList := by
    decide +kernel
  have commented : Relaid .tsv "dave\u2003follows alice .\r\n".toList spaced.toList := by
    rw [below]
    exact .comment (a := []) .nil unindented (by decide)
  have steps : Relation.EqvGen (Relaid .tsv) plain.toList spaced.toList := by
    refine .trans _ _ _ (.rel _ _ spread) (.trans _ _ _ (.rel _ _ stopped) ?_)
    exact .trans _ _ _ (.rel _ _ ended) (.trans _ _ _ (.rel _ _ returned) (.rel _ _ commented))
  have count : (load {} (Text.utf8 plain) {}).1 = .ok 1 := by decide +kernel
  obtain ⟨store, result⟩ := load_relaid {} steps {}
  rw [count] at result
  exact ⟨steps, count, result.symm, store.symm⟩

end Store

end Traversal
