import Traversal.Proofs.Json.Reading

namespace Traversal.Json

namespace Value

/-- A property of all values that goes from the parts of a container to the container. -/
theorem induction {P : Value → Prop} (null : P null) (bool : ∀ b, P (bool b))
    (number : ∀ n, P (number n)) (string : ∀ s, P (string s))
    (array : ∀ vs, (∀ v ∈ vs, P v) → P (array vs))
    (object : ∀ ms, (∀ m ∈ ms, P m.2) → P (object ms)) (v : Value) : P v := by
  refine Value.rec (motive_1 := P) (motive_2 := fun vs => ∀ v ∈ vs, P v)
    (motive_3 := fun ms => ∀ m ∈ ms, P m.2) (motive_4 := fun m => P m.2)
    null bool number string array object ?_ ?_ ?_ ?_ ?_ v
  · simp
  · simp +contextual
  · simp
  · simp +contextual
  · exact fun _ _ h => h

mutual

/-- The value as it is read. -/
def node : Value → Node
  | null => .null
  | bool b => .bool b
  | number n => .number ⟨false, Nat.toDigits 10 n, [], none⟩
  | string s => .string (pieces s)
  | array items => .array (itemNodes items) true
  | object members => .object (memberNodes members) true

def itemNodes : List Value → List Node
  | [] => []
  | v :: vs => v.node :: itemNodes vs

def memberNodes : List (String × Value) → List (List Piece × Node)
  | [] => []
  | (key, v) :: ms => (pieces key, v.node) :: memberNodes ms

end

section Texts

variable {rest : List Char}

theorem element_of_value {n : Node} {cs : List Char} (h : Derives (.value n) cs rest) :
    Derives (.element n) cs rest :=
  .element (.nil _) h (.nil _)

theorem member_of_value (key : String) {n : Node} {cs : List Char}
    (h : Derives (.value n) cs rest) :
    Derives (.member (pieces key, n)) (stringChars key ++ ':' :: cs) rest := by
  rw [stringChars_append]
  exact .member (.nil _) (text_escaped key.toList _) (.nil _) (element_of_value h)

theorem elements_of_values {v : Value} {vs : List Value}
    (h : ∀ w ∈ v :: vs, ∀ rest, Derives (.value w.node) (w.chars ++ rest) rest) :
    Derives (.elements (itemNodes (v :: vs)))
      ([','].intercalate (itemChars (v :: vs)) ++ rest) rest := by
  induction vs generalizing v with
  | nil =>
    have last := h v List.mem_cons_self rest
    simp only [itemChars, itemNodes, List.intercalate_singleton]
    exact .lastElement (element_of_value last)
  | cons w vs ih =>
    have first := h v List.mem_cons_self (',' :: ([','].intercalate (itemChars (w :: vs)) ++ rest))
    simp only [itemChars, itemNodes, List.intercalate_cons_cons, List.append_assoc,
      List.singleton_append] at first ⊢
    exact .moreElements (element_of_value first) (ih fun w hw => h w (List.mem_cons_of_mem v hw))

theorem members_of_values {m : String × Value} {ms : List (String × Value)}
    (h : ∀ m' ∈ m :: ms, ∀ rest, Derives (.value m'.2.node) (m'.2.chars ++ rest) rest) :
    Derives (.members (memberNodes (m :: ms)))
      ([','].intercalate (memberChars (m :: ms)) ++ rest) rest := by
  obtain ⟨key, v⟩ := m
  induction ms generalizing key v with
  | nil =>
    have last := h (key, v) List.mem_cons_self rest
    simp only [memberChars, memberNodes, List.intercalate_singleton, List.append_assoc,
      List.cons_append]
    exact .lastMember (member_of_value key last)
  | cons m ms ih =>
    obtain ⟨key', w⟩ := m
    have first := h (key, v) List.mem_cons_self
      (',' :: ([','].intercalate (memberChars ((key', w) :: ms)) ++ rest))
    simp only [memberChars, memberNodes, List.intercalate_cons_cons, List.append_assoc,
      List.cons_append, List.nil_append] at first ⊢
    exact .moreMembers (member_of_value key first)
      (ih key' w fun m hm => h m (List.mem_cons_of_mem _ hm))

/-- A value is written as the grammar has it. -/
theorem derives (v : Value) (rest : List Char) :
    Derives (.value v.node) (v.chars ++ rest) rest := by
  induction v using Value.induction generalizing rest with
  | null => exact .null rest
  | bool b =>
    cases b with
    | false => exact .boolFalse rest
    | true => exact .boolTrue rest
  | number n => exact .number (text_toDigits n rest)
  | string s =>
    rw [chars, stringChars_append]
    exact .string (text_escaped s.toList rest)
  | array vs ih =>
    rw [chars, List.append_assoc]
    cases vs with
    | nil => exact .emptyArray (.nil _)
    | cons v vs => exact .array (elements_of_values ih)
  | object ms ih =>
    rw [chars, List.append_assoc]
    cases ms with
    | nil => exact .emptyObject (.nil _)
    | cons m ms => exact .object (members_of_values ih)

theorem isText (v : Value) : IsText v.node v.chars := by
  have written := element_of_value (v.derives [])
  rwa [List.append_nil] at written

end Texts

section OneLine

theorem itemChars_eq_map (vs : List Value) : itemChars vs = vs.map chars := by
  induction vs with
  | nil => rfl
  | cons v vs ih => rw [itemChars, ih, List.map_cons]

theorem memberChars_eq_map (ms : List (String × Value)) :
    memberChars ms = ms.map fun m => stringChars m.1 ++ ':' :: m.2.chars := by
  induction ms with
  | nil => rfl
  | cons m ms ih => rw [memberChars, ih, List.map_cons]

/-- A value is written on one line. -/
theorem newline_not_mem_chars (v : Value) : '\n' ∉ v.chars := by
  induction v using Value.induction with
  | null => decide
  | bool b => cases b <;> decide
  | number n =>
    intro h
    cases Nat.isDigit_of_mem_toDigits (b := 10) (by decide) (by decide) h
  | string s => exact newline_not_mem_stringChars s
  | array vs ih =>
    have items : '\n' ∉ [','].intercalate (itemChars vs) := by
      apply Text.not_mem_intercalate (by decide)
      simpa [itemChars_eq_map] using ih
    simpa [chars] using items
  | object ms ih =>
    have members : '\n' ∉ [','].intercalate (memberChars ms) := by
      apply Text.not_mem_intercalate (by decide)
      rw [memberChars_eq_map]
      intro cs hcs
      obtain ⟨m, hm, rfl⟩ := List.mem_map.1 hcs
      simpa [newline_not_mem_stringChars] using ih m hm
    simpa [chars] using members

end OneLine

end Value

end Traversal.Json
