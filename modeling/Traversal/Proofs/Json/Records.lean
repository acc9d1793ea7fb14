import Traversal.Proofs.Json.Members

namespace Traversal.Json

section Whole

variable {cs rest : List Char}

/-- Nothing in a text of the form breaks off. -/
def Form.Whole : Form → Prop
  | .value n | .element n => n.isWhole = true
  | .elements ns => ∀ n ∈ ns, n.isWhole = true
  | .member m => m.2.isWhole = true
  | .members ms => ∀ m ∈ ms, m.2.isWhole = true

theorem Derives.whole {f : Form} (h : Derives f cs rest) : f.Whole := by
  induction h with
  | element _ _ _ ih | member _ _ _ _ ih => exact ih
  | lastElement _ ih | lastMember _ ih => exact List.forall_mem_singleton.2 ih
  | moreElements _ _ ih ihs | moreMembers _ _ ih ihs => exact List.forall_mem_cons.2 ⟨ih, ihs⟩
  | _ => rfl

theorem IsText.whole_members {ms : List Member} (h : IsText (.object ms true) cs) :
    ∀ m ∈ ms, m.2.isWhole = true := by
  cases h with
  | element _ value _ =>
    cases value with
    | emptyObject => exact List.forall_mem_nil _
    | object members => exact members.whole

end Whole

namespace Record

variable {δ : Type} {fields : List (Field δ)} {name key : String} {n : Node} {m : Member}
  {ms : List Member} {d d' : δ}

/-- What a member makes of what has been read. -/
inductive Step (fields : List (Field δ)) (name : String) (n : Node) (d : δ) : δ → Prop where
  | read {f : Field δ} {d' : δ} : fields.find? (·.name == name) = some f → f.isSet d = false →
    f.read n d = .ok d' → Step fields name n d d'
  | skip : fields.find? (·.name == name) = none → n.isWhole = true → Step fields name n d d

/-- One member is read, and then the rest. -/
theorem readMembers_cons_eq_ok :
    readMembers fields (m :: ms) d = .ok d' ↔ ∃ name d₁, m.name? = some name ∧
      Step fields name m.2 d d₁ ∧ readMembers fields ms d₁ = .ok d' := by
  obtain ⟨ps, n⟩ := m
  rw [readMembers, bind_eq_ok]
  simp only [Node.textOf_eq_ok]
  constructor
  · rintro ⟨name, spelled, h⟩
    cases found : fields.find? (·.name == name) with
    | none =>
      simp only [found, Node.skip] at h
      split at h
      · rename_i whole
        exact ⟨name, d, spelled, .skip found whole, h⟩
      · cases h
    | some f =>
      simp only [found] at h
      split at h
      · cases h
      · rename_i unset
        obtain ⟨d₁, read, rest⟩ := bind_eq_ok.1 h
        exact ⟨name, d₁, spelled, .read found (eq_false_of_ne_true unset) read, rest⟩
  · rintro ⟨name, d₁, spelled, step, rest⟩
    refine ⟨name, spelled, ?_⟩
    cases step with
    | skip unknown whole =>
      simp only [unknown, Node.skip, whole]
      exact rest
    | read found unset read =>
      simp only [found, unset]
      exact bind_eq_ok.2 ⟨d₁, read, rest⟩

theorem spelled_of_readMembers (h : readMembers fields ms d = .ok d') : Spelled ms := by
  induction ms generalizing d with
  | nil => exact List.forall_mem_nil _
  | cons m ms ih =>
    obtain ⟨name, d₁, spelled, -, rest⟩ := readMembers_cons_eq_ok.1 h
    exact List.forall_mem_cons.2 ⟨by simp [spelled], ih rest⟩

theorem read_eq_ok {f : Field δ} :
    f.read n d = .ok d' ↔ ∃ a, f.value n = .ok a ∧ f.put a d = d' := by
  rw [Field.read, ← map_eq_pure_bind, map_eq_ok]

/-- Fields find in their parts what they put there, and leave the parts of fields of other names as
they are. -/
structure Apart (fields : List (Field δ)) : Prop where
  part_put : ∀ f ∈ fields, ∀ a d, f.part (f.put a d) = some a
  others : ∀ f ∈ fields, ∀ g ∈ fields, g.name ≠ f.name → ∀ a d, f.part (g.put a d) = f.part d

namespace Apart

variable {f : Field δ}

theorem of_step (apart : Apart fields) (found : fields.find? (·.name == name) = some f)
    (h : Step fields key n d d') :
    (key = name ∧ f.part d = none ∧ ∃ a, f.value n = .ok a ∧ f.part d' = some a) ∨
      (key ≠ name ∧ f.part d' = f.part d) := by
  have hf : f ∈ fields := List.mem_of_find?_eq_some found
  by_cases same : key = name
  · subst same
    cases h with
    | skip unknown _ =>
      rw [found] at unknown
      cases unknown
    | read found' unset read =>
      obtain rfl : f = _ := Option.some.inj (found.symm.trans found')
      obtain ⟨a, ha, rfl⟩ := read_eq_ok.1 read
      have free : f.part d = none := Option.not_isSome_iff_eq_none.1 (ne_true_of_eq_false unset)
      exact .inl ⟨rfl, free, a, ha, apart.part_put f hf a d⟩
  · refine .inr ⟨same, ?_⟩
    cases h with
    | skip => rfl
    | @read g _ found' _ read =>
      obtain rfl : f.name = name := by simpa using List.find?_some found
      obtain rfl : g.name = key := by simpa using List.find?_some found'
      obtain ⟨a, -, rfl⟩ := read_eq_ok.1 read
      exact apart.others f hf g (List.mem_of_find?_eq_some found') same a d

/-- A part holds what the only member of its name has, if there is one. -/
theorem of_readMembers (apart : Apart fields) (found : fields.find? (·.name == name) = some f)
    (h : readMembers fields ms d = .ok d') :
    (valuesOf name ms = [] ∧ f.part d' = f.part d) ∨
      (f.part d = none ∧ ∃ a, Tells ms name f.value a ∧ f.part d' = some a) := by
  induction ms generalizing d with
  | nil =>
    cases h
    exact .inl ⟨rfl, rfl⟩
  | cons m ms ih =>
    obtain ⟨key, d₁, spelled, step, rest⟩ := readMembers_cons_eq_ok.1 h
    rcases apart.of_step found step with ⟨rfl, free, a, ha, held⟩ | ⟨different, kept⟩
    · rcases ih rest with ⟨none, kept⟩ | ⟨free', -⟩
      · exact .inr ⟨free, a, (tells_cons_self spelled).2 ⟨none, ha⟩, kept.trans held⟩
      · -- A second member of the name would find the part taken.
        rw [held] at free'
        cases free'
    · simp only [valuesOf_cons_of_ne spelled different, tells_cons_of_ne spelled different, ← kept]
      exact ih rest

/-- What has to be there. -/
theorem eq_some_iff (apart : Apart fields) (name : String)
    (found : fields.find? (·.name == name) = some f) (free : f.part d = none)
    (h : readMembers fields ms d = .ok d') (a : f.Content) :
    f.part d' = some a ↔ Tells ms name f.value a := by
  rcases apart.of_readMembers found h with ⟨none, kept⟩ | ⟨-, b, tells, held⟩
  · rw [kept, free]
    exact ⟨nofun, fun tells => absurd none tells.ne_nil⟩
  · rw [held, Option.some_inj]
    exact ⟨fun e => e ▸ tells, tells.unique⟩

/-- What may be left out. -/
theorem getD_eq_iff (apart : Apart fields) (name : String)
    (found : fields.find? (·.name == name) = some f) (free : f.part d = none)
    (h : readMembers fields ms d = .ok d') (default a : f.Content) :
    (f.part d').getD default = a ↔ TellsOr ms name f.value default a := by
  rw [TellsOr, ← apart.eq_some_iff name found free h]
  rcases apart.of_readMembers found h with ⟨none, kept⟩ | ⟨-, b, tells, held⟩
  · simp [kept, free, none, eq_comm]
  · simp [held, tells.ne_nil]

end Apart

/-- The members of a name can be read: there is none, or one whose value the field takes. -/
def Fits (ms : List Member) (d : δ) (f : Field δ) (name : String) : Prop :=
  valuesOf name ms = [] ∨ f.part d = none ∧ ∃ a, Tells ms name f.value a

section Fits

variable {f : Field δ}

theorem Fits.of_tells (free : f.part d = none) {a : f.Content} (h : Tells ms name f.value a) :
    Fits ms d f name :=
  .inr ⟨free, a, h⟩

theorem Fits.of_tellsOr (free : f.part d = none) {default a : f.Content}
    (h : TellsOr ms name f.value default a) : Fits ms d f name :=
  h.imp And.left fun tells => ⟨free, a, tells⟩

theorem Fits.of_step (apart : Apart fields) (found : fields.find? (·.name == name) = some f)
    (fits : Fits (m :: ms) d f name) (spelled : m.name? = some key)
    (step : Step fields key m.2 d d') : Fits ms d' f name := by
  rcases apart.of_step found step with ⟨rfl, -⟩ | ⟨different, kept⟩
  · rcases fits with none | ⟨-, a, tells⟩
    · rw [valuesOf_cons_self spelled] at none
      cases none
    · exact .inl ((tells_cons_self spelled).1 tells).1
  · simpa only [Fits, valuesOf_cons_of_ne spelled different, tells_cons_of_ne spelled different,
      ← kept] using fits

theorem Fits.exists_read (fits : Fits (m :: ms) d f name) (spelled : m.name? = some name) :
    f.isSet d = false ∧ ∃ d', f.read m.2 d = .ok d' := by
  rcases fits with none | ⟨free, a, tells⟩
  · rw [valuesOf_cons_self spelled] at none
    cases none
  · have ha := ((tells_cons_self spelled).1 tells).2
    exact ⟨by rw [Field.isSet, free]; rfl, f.put a d, read_eq_ok.2 ⟨a, ha, rfl⟩⟩

end Fits

/-- Members are read if their keys spell names, those of the fields fit, and the others do not break
off. -/
theorem exists_readMembers (apart : Apart fields) (spelled : Spelled ms)
    (whole : ∀ m ∈ ms, m.2.isWhole = true)
    (fits : ∀ name f, fields.find? (·.name == name) = some f → Fits ms d f name) :
    ∃ d', readMembers fields ms d = .ok d' := by
  induction ms generalizing d with
  | nil => exact ⟨d, rfl⟩
  | cons m ms ih =>
    obtain ⟨first, spelled⟩ := List.forall_mem_cons.1 spelled
    obtain ⟨wholeFirst, whole⟩ := List.forall_mem_cons.1 whole
    obtain ⟨key, hkey⟩ := Option.isSome_iff_exists.1 first
    -- The member fits its field, or it has none and is passed over.
    obtain ⟨d₁, step⟩ : ∃ d₁, Step fields key m.2 d d₁ := by
      cases found : fields.find? (·.name == key) with
      | none => exact ⟨d, .skip found wholeFirst⟩
      | some f =>
        obtain ⟨unset, d₁, read⟩ := (fits key f found).exists_read hkey
        exact ⟨d₁, .read found unset read⟩
    obtain ⟨d', rest⟩ := ih spelled whole fun name f found =>
      (fits name f found).of_step apart found hkey step
    exact ⟨d', readMembers_cons_eq_ok.2 ⟨key, d₁, hkey, step, rest⟩⟩

/-- An object is decoded as what its members tell. -/
theorem decode_eq_ok {ρ : Type} {r : Record δ ρ} {cs : List Char} {a : ρ} {told : Prop}
    (apart : Apart r.fields) (text : IsText (.object ms true) cs)
    (finish : ∀ d, readMembers r.fields ms r.empty = .ok d → (r.finish d = .ok a ↔ told))
    (fits : told → ∀ f ∈ r.fields, Fits ms r.empty f f.name) :
    decode r.read cs = .ok a ↔ Spelled ms ∧ told := by
  rw [text.decode]
  change readMembers r.fields ms r.empty >>= r.finish = .ok a ↔ _
  rw [bind_eq_ok]
  constructor
  · rintro ⟨d, read, finished⟩
    exact ⟨spelled_of_readMembers read, (finish d read).1 finished⟩
  · rintro ⟨spelled, h⟩
    obtain ⟨d, read⟩ := exists_readMembers apart spelled text.whole_members fun name f found => by
      obtain rfl : f.name = name := by simpa using List.find?_some found
      exact fits h f (List.mem_of_find?_eq_some found)
    exact ⟨d, read, (finish d read).2 h⟩

end Record

end Traversal.Json
