import Traversal.Ids

namespace Traversal

/-- Nodes in the order in which they were first added, each once. -/
structure NodeList where
  ids : List NodeId
  nodup : ids.Nodup
deriving DecidableEq

namespace NodeList

instance : EmptyCollection NodeList := ⟨⟨[], List.nodup_nil⟩⟩

def add (l : NodeList) (id : NodeId) : NodeList :=
  if h : id ∈ l.ids then l
  else
    { ids := l.ids ++ [id]
      nodup := List.nodup_append.2
        ⟨l.nodup, by simp, fun _ ha _ hb e => h (by simp_all)⟩ }

def addAll (l : NodeList) (ids : List NodeId) : NodeList :=
  ids.foldl add l

def ofList (ids : List NodeId) : NodeList :=
  addAll ∅ ids

def toIdSet (l : NodeList) : IdSet :=
  Std.ExtTreeSet.ofList l.ids

theorem ids_add (l : NodeList) (id : NodeId) :
    (l.add id).ids = if id ∈ l.ids then l.ids else l.ids ++ [id] := by
  unfold add
  split <;> simp [*]

theorem mem_ids_add {l : NodeList} {id i : NodeId} :
    i ∈ (l.add id).ids ↔ i ∈ l.ids ∨ i = id := by
  rw [ids_add]
  split
  · rename_i h
    exact ⟨Or.inl, fun h' => h'.elim (fun hi => hi) (fun e => e ▸ h)⟩
  · simp

theorem mem_ids_addAll {l : NodeList} {ids : List NodeId} {i : NodeId} :
    i ∈ (l.addAll ids).ids ↔ i ∈ l.ids ∨ i ∈ ids := by
  induction ids generalizing l with
  | nil => simp [addAll]
  | cons id ids ih =>
    have h : i ∈ ((l.add id).addAll ids).ids ↔ _ := ih
    simp only [addAll, List.foldl_cons] at h ⊢
    rw [h, mem_ids_add, List.mem_cons, or_assoc]

theorem mem_toIdSet {l : NodeList} {i : NodeId} : i ∈ l.toIdSet ↔ i ∈ l.ids := by
  simp [toIdSet, Std.ExtTreeSet.mem_ofList]

end NodeList

end Traversal
