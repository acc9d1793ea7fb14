import Traversal.Plan.Describe
import Traversal.Proofs.Text.Segments

namespace Traversal.Plan

section Parts

variable {r s : List Char}

/-- The digits of a number end where another character stands. -/
theorem writeId_inj {i j : NodeId} (hr : ∀ c ∈ r.head?, c.isDigit = false)
    (hs : ∀ c ∈ s.head?, c.isDigit = false) (e : writeId i r = writeId j s) : i = j ∧ r = s := by
  have digits : ∀ n, ∀ c ∈ Nat.toDigits 10 n, c.isDigit = true :=
    fun _ _ hc => Nat.isDigit_of_mem_toDigits (by decide) (by decide) hc
  obtain ⟨same, rest⟩ := Text.stretch_inj (digits _) (digits _) hr hs e
  have value := congrArg (Nat.ofDigitChars 10 · 0) same
  simp only [Nat.ofDigitChars_ten_toDigits] at value
  exact ⟨UInt32.toNat_inj.1 value, rest⟩

theorem writeId_ne (i : NodeId) {c : Char} (hc : c.isDigit = false) : writeId i r ≠ c :: s := by
  obtain ⟨d, ds, digits⟩ := List.exists_cons_of_ne_nil (Nat.toDigits_ne_nil (n := i.toNat) (b := 10))
  have hd : d.isDigit = true :=
    Nat.isDigit_of_mem_toDigits (by decide) (by decide) (digits ▸ List.mem_cons_self)
  rw [writeId, digits]
  rintro ⟨⟩
  rw [hc] at hd
  cases hd

theorem writeIds_cons_ne (i : NodeId) (is : List NodeId) {c : Char} (hc : c.isDigit = false) :
    writeIds (i :: is) r ≠ c :: s := by
  cases is with
  | nil => exact writeId_ne i hc
  | cons j js => exact writeId_ne i hc

theorem writeIds_inj {is js : List NodeId}
    (e : writeIds is (')' :: r) = writeIds js (')' :: s)) : is = js ∧ r = s := by
  have stops : ∀ c cs, Char.isDigit c = false → ∀ d ∈ (c :: cs).head?, d.isDigit = false := by
    rintro c cs hc d ⟨⟩
    exact hc
  induction is generalizing js with
  | nil =>
    cases js with
    | nil => exact ⟨rfl, List.tail_eq_of_cons_eq e⟩
    | cons j js => exact absurd e.symm (writeIds_cons_ne j js rfl)
  | cons i is ih =>
    cases js with
    | nil => exact absurd e (writeIds_cons_ne i is rfl)
    | cons j js =>
      -- Behind the first number, a comma announces another one.
      cases is with
      | nil =>
        cases js with
        | nil =>
          obtain ⟨rfl, rest⟩ := writeId_inj (stops ')' r rfl) (stops ')' s rfl) e
          exact ⟨rfl, List.tail_eq_of_cons_eq rest⟩
        | cons _ _ =>
          obtain ⟨-, rest⟩ := writeId_inj (stops ')' r rfl) (stops ',' _ rfl) e
          cases rest
      | cons _ _ =>
        cases js with
        | nil =>
          obtain ⟨-, rest⟩ := writeId_inj (stops ',' _ rfl) (stops ')' s rfl) e
          cases rest
        | cons _ _ =>
          obtain ⟨rfl, rest⟩ := writeId_inj (stops ',' _ rfl) (stops ',' _ rfl) e
          obtain ⟨tail, last⟩ := ih (@List.append_cancel_left _ [',', ' '] _ _ rest)
          exact ⟨by rw [tail], last⟩

theorem writeRole_inj {role role' : Role} (e : writeRole role r = writeRole role' s) :
    role = role' ∧ r = s := by
  cases role <;> cases role' <;> cases e <;> exact ⟨rfl, rfl⟩

/-- The text does not go on with tags. -/
def Stops (rest : List Char) : Prop :=
  rest.head? ≠ some '#'

theorem stops_cons {c : Char} (hc : c ≠ '#') (cs : List Char) : Stops (c :: cs) := by
  rintro ⟨⟩
  exact hc rfl

/-- The tags can be told apart in a text. -/
def Separable (tags : TagSet) : Prop :=
  ∀ t ∈ tags, ',' ∉ t.toList ∧ ']' ∉ t.toList

instance (tags : TagSet) : Decidable (Separable tags) :=
  decidable_of_iff (∀ t ∈ tags.toList, ',' ∉ t.toList ∧ ']' ∉ t.toList) <| by
    simp only [Std.ExtTreeSet.mem_toList, Separable]

theorem separable_union {s t : TagSet} : Separable (s ∪ t) ↔ Separable s ∧ Separable t := by
  simp only [Separable, Std.ExtTreeSet.mem_union_iff]
  constructor
  · exact fun h => ⟨fun x hx => h x (.inl hx), fun x hx => h x (.inr hx)⟩
  · rintro ⟨hs, ht⟩ x (hx | hx)
    · exact hs x hx
    · exact ht x hx

/-- Tags are separated by commas, and the bracket ends them. -/
theorem bracketed_inj {tags tags' : TagSet} (ht : Separable tags) (ht' : Separable tags')
    (some : tags ≠ ∅) (some' : tags' ≠ ∅)
    (e : [','].intercalate (tags.toList.map String.toList) ++ ']' :: r =
      [','].intercalate (tags'.toList.map String.toList) ++ ']' :: s) : tags = tags' ∧ r = s := by
  have plain : ∀ {tags : TagSet}, Separable tags → ∀ cs ∈ tags.toList.map String.toList,
      ',' ∉ cs ∧ ']' ∉ cs := by
    intro tags h cs hcs
    obtain ⟨t, hmem, rfl⟩ := List.mem_map.1 hcs
    exact h t (Std.ExtTreeSet.mem_toList.1 hmem)
  have inside : ∀ {tags : TagSet}, Separable tags →
      ∀ c ∈ [','].intercalate (tags.toList.map String.toList), (c != ']') = true := by
    intro tags h c hc
    rw [bne_iff_ne]
    rintro rfl
    exact Text.not_mem_intercalate (by decide) (fun cs hcs => (plain h cs hcs).2) hc
  have listed : ∀ {tags : TagSet}, tags ≠ ∅ → tags.toList.map String.toList ≠ [] := by
    intro tags h
    rwa [ne_eq, List.map_eq_nil_iff, Std.ExtTreeSet.toList_eq_nil_iff]
  obtain ⟨same, rest⟩ := Text.stretch_inj (inside ht) (inside ht') (by simp) (by simp) e
  have split := congrArg (List.splitOn ',') same
  rw [List.splitOn_intercalate ',' (fun cs hcs => (plain ht cs hcs).1) (listed some),
    List.splitOn_intercalate ',' (fun cs hcs => (plain ht' cs hcs).1) (listed some')] at split
  have names : tags.toList = tags'.toList :=
    List.map_injective_iff.2 (fun _ _ => String.toList_inj.1) split
  exact ⟨Std.ExtTreeSet.toList_inj.1 names, List.tail_eq_of_cons_eq rest⟩

theorem writeTags_inj {tags tags' : TagSet} (ht : Separable tags) (ht' : Separable tags')
    (hr : Stops r) (hs : Stops s) (e : writeTags tags r = writeTags tags' s) :
    tags = tags' ∧ r = s := by
  simp only [writeTags, Std.ExtTreeSet.isEmpty_iff] at e
  by_cases none : tags = ∅ <;> by_cases none' : tags' = ∅
  · rw [if_pos none, if_pos none'] at e
    exact ⟨none.trans none'.symm, e⟩
  · rw [if_pos none, if_neg none'] at e
    subst e
    exact absurd rfl hr
  · rw [if_neg none, if_pos none'] at e
    subst e
    exact absurd rfl hs
  · rw [if_neg none, if_neg none'] at e
    exact bracketed_inj ht ht' none none' (@List.append_cancel_left _ ['#', '['] _ _ e)

end Parts

/-- Every tag of the plan can be told apart in a text. -/
def Plain (p : Plan) : Prop :=
  Separable p.collectTags

instance (p : Plan) : Decidable p.Plain :=
  inferInstanceAs (Decidable (Separable p.collectTags))

theorem separable_collectTagsOf {ps : List Plan} :
    Separable (collectTagsOf ps) ↔ ∀ p ∈ ps, p.Plain := by
  simp only [Plain, Separable, mem_collectTagsOf]
  constructor
  · exact fun h p hp t ht => h t ⟨p, hp, ht⟩
  · rintro h t ⟨p, hp, ht⟩
    exact h p hp t ht

/-- Two letters tell the operations apart. -/
def initials : Plan → List Char
  | .all _ => ['a', 'l']
  | .fixed _ _ => ['f', 'i']
  | .and _ _ => ['a', 'n']
  | .or _ _ => ['o', 'r']
  | .not _ _ _ => ['n', 'o']
  | .linksTo _ _ _ => ['l', 'i']
  | .hasA _ _ _ => ['h', 'a']

theorem take_write (p : Plan) (r : List Char) : (p.write r).take 2 = p.initials := by
  cases p <;> rfl

theorem initials_eq {p q : Plan} {r s : List Char} (e : p.write r = q.write s) :
    p.initials = q.initials := by
  rw [← take_write p r, e, take_write]

/-- The plan is told from every other and from the text that follows. -/
def Told (p : Plan) : Prop :=
  ∀ q r s, q.Plain → Stops r → Stops s → p.write r = q.write s → p = q ∧ r = s

section Operands

variable {r s : List Char} {tags tags' : TagSet}

/-- A plan starts with a letter, so that a list that is closed at once has no plan in it. -/
theorem write_ne (p : Plan) {c : Char} (hc : c.isLower = false) : p.write r ≠ c :: s := by
  have letters : ∀ d ∈ p.initials.head?, d.isLower = true := by
    cases p <;> rintro d ⟨⟩ <;> rfl
  intro e
  have start : p.initials = c :: s.take 1 := by rw [← take_write p r, e, List.take_succ_cons]
  have lower := letters c (by rw [start]; rfl)
  rw [hc] at lower
  cases lower

theorem stops_writeMore (ps : List Plan) : Stops (writeMore ps (')' :: r)) := by
  cases ps with
  | nil => exact stops_cons (by decide) r
  | cons p ps => exact stops_cons (by decide) _

theorem writeMore_inj {ps qs : List Plan} (told : ∀ p ∈ ps, p.Told) (plain : ∀ q ∈ qs, q.Plain)
    (e : writeMore ps (')' :: r) = writeMore qs (')' :: s)) : ps = qs ∧ r = s := by
  induction ps generalizing qs with
  | nil =>
    cases qs with
    | nil => exact ⟨rfl, List.tail_eq_of_cons_eq e⟩
    | cons q qs => cases e
  | cons p ps ih =>
    cases qs with
    | nil => cases e
    | cons q qs =>
      rw [List.forall_mem_cons] at told plain
      obtain ⟨rfl, more⟩ := told.1 q _ _ plain.1 (stops_writeMore ps) (stops_writeMore qs)
        (@List.append_cancel_left _ [',', ' '] _ _ e)
      obtain ⟨rfl, rest⟩ := ih told.2 plain.2 more
      exact ⟨rfl, rest⟩

theorem writeSubs_inj {ps qs : List Plan} (told : ∀ p ∈ ps, p.Told) (plain : ∀ q ∈ qs, q.Plain)
    (e : writeSubs ps (')' :: r) = writeSubs qs (')' :: s)) : ps = qs ∧ r = s := by
  cases ps with
  | nil =>
    cases qs with
    | nil => exact ⟨rfl, List.tail_eq_of_cons_eq e⟩
    | cons q qs => exact absurd e.symm (write_ne q rfl)
  | cons p ps =>
    cases qs with
    | nil => exact absurd e (write_ne p rfl)
    | cons q qs => exact writeMore_inj told plain (congrArg ([',', ' '] ++ ·) e)

/-- What an intersection and a union have behind their names. -/
theorem operands_inj {ps qs : List Plan} (told : ∀ p ∈ ps, p.Plain → p.Told)
    (hp : Separable (tags ∪ collectTagsOf ps)) (hq : Separable (tags' ∪ collectTagsOf qs))
    (hr : Stops r) (hs : Stops s)
    (e : writeSubs ps (')' :: writeTags tags r) = writeSubs qs (')' :: writeTags tags' s)) :
    ps = qs ∧ tags = tags' ∧ r = s := by
  rw [separable_union, separable_collectTagsOf] at hp hq
  obtain ⟨rfl, after⟩ := writeSubs_inj (fun p h => told p h (hp.2 p h)) hq.2 e
  exact ⟨rfl, writeTags_inj hp.1 hq.1 hr hs after⟩

/-- What the steps between nodes and quads have behind their names. -/
theorem operand_inj {p q : Plan} {role role' : Role} (told : p.Plain → p.Told)
    (hp : Separable (tags ∪ p.collectTags)) (hq : Separable (tags' ∪ q.collectTags))
    (hr : Stops r) (hs : Stops s)
    (e : writeRole role ('(' :: p.write (')' :: writeTags tags r)) =
      writeRole role' ('(' :: q.write (')' :: writeTags tags' s))) :
    role = role' ∧ p = q ∧ tags = tags' ∧ r = s := by
  rw [separable_union] at hp hq
  obtain ⟨rfl, inside⟩ := writeRole_inj e
  obtain ⟨rfl, after⟩ := told hp.2 q _ _ hq.2 (stops_cons (by decide) _) (stops_cons (by decide) _)
    (List.tail_eq_of_cons_eq inside)
  exact ⟨rfl, rfl, writeTags_inj hp.1 hq.1 hr hs (List.tail_eq_of_cons_eq after)⟩

end Operands

/-- The name of the operation is told from the others, and what is behind it part by part. -/
theorem told {p : Plan} (hp : p.Plain) : p.Told := by
  induction p with
  | all tags =>
    intro q r s hq hr hs e
    have start := initials_eq e
    cases q with
    | all tags' =>
      obtain ⟨rfl, rest⟩ := writeTags_inj hp hq hr hs (List.append_cancel_left e)
      exact ⟨rfl, rest⟩
    | _ => cases start
  | fixed nodes tags =>
    intro q r s hq hr hs e
    have start := initials_eq e
    cases q with
    | fixed nodes' tags' =>
      obtain ⟨ids, after⟩ := writeIds_inj (List.append_cancel_left e)
      obtain rfl : nodes = nodes' := by
        cases nodes
        cases nodes'
        cases ids
        rfl
      obtain ⟨rfl, rest⟩ := writeTags_inj hp hq hr hs after
      exact ⟨rfl, rest⟩
    | _ => cases start
  | and subs tags ih =>
    intro q r s hq hr hs e
    have start := initials_eq e
    cases q with
    | and subs' tags' =>
      obtain ⟨rfl, rfl, rest⟩ := operands_inj ih hp hq hr hs (List.append_cancel_left e)
      exact ⟨rfl, rest⟩
    | _ => cases start
  | or subs tags ih =>
    intro q r s hq hr hs e
    have start := initials_eq e
    cases q with
    | or subs' tags' =>
      obtain ⟨rfl, rfl, rest⟩ := operands_inj ih hp hq hr hs (List.append_cancel_left e)
      exact ⟨rfl, rest⟩
    | _ => cases start
  | not inner whole tags hinner hwhole =>
    intro q r s hq hr hs e
    have start := initials_eq e
    cases q with
    | not inner' whole' tags' =>
      have parts := separable_union.1 hp
      have parts' := separable_union.1 hq
      have operands := separable_union.1 parts.2
      have operands' := separable_union.1 parts'.2
      obtain ⟨rfl, between⟩ := hinner operands.1 inner' _ _ operands'.1
        (stops_cons (by decide) _) (stops_cons (by decide) _) (List.append_cancel_left e)
      obtain ⟨rfl, after⟩ := hwhole operands.2 whole' _ _ operands'.2
        (stops_cons (by decide) _) (stops_cons (by decide) _)
        (@List.append_cancel_left _ [',', ' '] _ _ between)
      obtain ⟨rfl, rest⟩ :=
        writeTags_inj parts.1 parts'.1 hr hs (List.tail_eq_of_cons_eq after)
      exact ⟨rfl, rest⟩
    | _ => cases start
  | linksTo role sub tags ih =>
    intro q r s hq hr hs e
    have start := initials_eq e
    cases q with
    | linksTo role' sub' tags' =>
      obtain ⟨rfl, rfl, rfl, rest⟩ := operand_inj ih hp hq hr hs (List.append_cancel_left e)
      exact ⟨rfl, rest⟩
    | _ => cases start
  | hasA role sub tags ih =>
    intro q r s hq hr hs e
    have start := initials_eq e
    cases q with
    | hasA role' sub' tags' =>
      obtain ⟨rfl, rfl, rfl, rest⟩ := operand_inj ih hp hq hr hs (List.append_cancel_left e)
      exact ⟨rfl, rest⟩
    | _ => cases start

/-- Plans whose tags hold neither a comma nor a closing bracket have the same text only if they are
equal: the same tree with the same operands, values, roles and tags in the same places. -/
theorem describe_inj {p q : Plan} (hp : p.Plain) (hq : q.Plain) :
    p.describe = q.describe ↔ p = q := by
  constructor
  · intro e
    exact (told hp q [] [] hq (by simp [Stops]) (by simp [Stops]) (String.ofList_injective e)).1
  · rintro rfl
    rfl

/-- An empty tag stands on a union, or on its last operand. -/
theorem describe_inj_empty :
    let p : Plan := .and [.all, .or [.fixed (.ofList [1, 20]), .or []] {""}, .linksTo .label .all]
    let q : Plan := .and [.all, .or [.fixed (.ofList [1, 20]), .or [] {""}], .linksTo .label .all]
    p.Plain ∧ q.Plain ∧
      p.describe = "and(all, or(fixed(1, 20), or())#[], links_to[label](all))" ∧
      q.describe = "and(all, or(fixed(1, 20), or()#[]), links_to[label](all))" ∧
      p.describe ≠ q.describe := by
  intro p q
  have hp : p.Plain := by decide +kernel
  have hq : q.Plain := by decide +kernel
  have different : p ≠ q := by decide +kernel
  refine ⟨hp, hq, by decide +kernel, by decide +kernel, ?_⟩
  rwa [ne_eq, describe_inj hp hq]

-- A comma in a tag is not told from one between two tags.
example : (Plan.all {"t,u"}).describe = (Plan.all {"t", "u"}).describe := by decide +kernel

end Traversal.Plan
