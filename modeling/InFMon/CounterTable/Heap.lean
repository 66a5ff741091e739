import InFMon.CounterTable.Geometry
import InFMon.Foundations.CountedLoop
import InFMon.Foundations.UniqueOwner

/-! # The heap of counter tables

Counter tables live on the heap and are passed around as pointers. An `infmon_counter_table_t *` is
an `Option ℕ`: `none` for `NULL`, else the number of the allocation. The heap keeps a log of the
`infmon_counter_table_destroy` calls, so that a leak or a second `free` of one table can be seen in
it. -/

namespace InFMon

open CountedLoop

/-- The counter tables created so far, and those destroyed again. -/
structure Heap where
  next : ℕ
  table : ℕ → CounterTable
  destroyed : List ℕ

namespace Heap

/-- A heap without tables. What lies at unused addresses is never read. -/
def empty : Heap where
  next := 0
  table := fun _ =>
    { slots := fun _ => Slot.zero
      numSlots := 0
      slotMask := 0
      keyArena := fun _ => 0
      keyArenaCapacity := 0
      keyArenaUsed := 0
      seqlocks := fun _ => 0
      numGroups := 0
      generation := 0
      epochNs := 0
      insertFailed := 0
      tableFull := 0
      occupiedCount := 0 }
  destroyed := []

/-- A table that was created and not yet destroyed. -/
def Live (heap : Heap) (id : ℕ) : Prop := id < heap.next ∧ id ∉ heap.destroyed

/-- Put a new table on the heap. -/
def alloc (heap : Heap) (t : CounterTable) : Heap :=
  { heap with next := heap.next + 1, table := Function.update heap.table heap.next t }

/-- `infmon_counter_table_create`, as a pointer. -/
def create (heap : Heap) (maxKeys maxKeyWidth : ℕ) (alloc : Alloc) : Option ℕ × Heap :=
  match counterTableCreate maxKeys maxKeyWidth alloc with
  | none => (none, heap)
  | some t => (some heap.next, heap.alloc t)

/-- `infmon_counter_table_destroy`. -/
def destroy (heap : Heap) : Option ℕ → Heap
  | none => heap
  | some id => { heap with destroyed := id :: heap.destroyed }

/-- Write to a table in place. -/
def modify (heap : Heap) (id : ℕ) (f : CounterTable → CounterTable) : Heap :=
  { heap with table := Function.update heap.table id (f (heap.table id)) }

variable {heap : Heap}

/-- Destroying a table leaves the next number. -/
@[simp] theorem destroy_next (ptr : Option ℕ) : (heap.destroy ptr).next = heap.next := by
  cases ptr <;> rfl

/-- Destroying a table leaves the contents of all tables. -/
@[simp] theorem destroy_table (ptr : Option ℕ) : (heap.destroy ptr).table = heap.table := by
  cases ptr <;> rfl

/-- Changing a table leaves the next number. -/
@[simp] theorem modify_next (id : ℕ) (f : CounterTable → CounterTable) :
    (heap.modify id f).next = heap.next := rfl

/-- Changing a table destroys none. -/
@[simp] theorem modify_destroyed (id : ℕ) (f : CounterTable → CounterTable) :
    (heap.modify id f).destroyed = heap.destroyed := rfl

/-- When no table is created the heap stays as it is. -/
theorem create_none {maxKeys width : ℕ} {alloc : Alloc}
    (h : (heap.create maxKeys width alloc).1 = none) :
    (heap.create maxKeys width alloc).2 = heap := by
  unfold create at h ⊢
  cases hcreate : counterTableCreate maxKeys width alloc with
  | none => rfl
  | some t =>
    rw [hcreate] at h
    cases h

/-- A table that is created is put on the heap under the next number. -/
theorem create_some {maxKeys width : ℕ} {alloc : Alloc} {id : ℕ}
    (h : (heap.create maxKeys width alloc).1 = some id) :
    id = heap.next ∧ ∃ t, counterTableCreate maxKeys width alloc = some t ∧
      (heap.create maxKeys width alloc).2 = heap.alloc t := by
  unfold create at h ⊢
  cases hcreate : counterTableCreate maxKeys width alloc with
  | none =>
    rw [hcreate] at h
    cases h
  | some t =>
    rw [hcreate] at h
    cases h
    exact ⟨rfl, t, rfl, rfl⟩

/-- Destroying the tables that a row of pointers refers to. -/
theorem forUpTo_destroy (row : ℕ → Option ℕ) (n : ℕ) (heap : Heap) :
    forUpTo n (fun v heap => heap.destroy (row v)) heap =
      { heap with destroyed := (pointees row n).reverse ++ heap.destroyed } := by
  induction n with
  | zero => rfl
  | succ n ih =>
    rw [forUpTo_succ, ih, pointees_succ]
    cases row n <;> simp [destroy]

/-! ### Undone work -/

/-- Whatever was created on the way from `heap` to `heap'` has been destroyed again, and nothing else
has happened. -/
structure Undone (heap heap' : Heap) : Prop where
  next_le : heap.next ≤ heap'.next
  table_eq : ∀ id < heap.next, heap'.table id = heap.table id
  destroyed : ∃ l, heap'.destroyed = l ++ heap.destroyed ∧ l.Nodup ∧
    ∀ id, id ∈ l ↔ heap.next ≤ id ∧ id < heap'.next

/-- Nothing need be undone. -/
theorem Undone.refl (heap : Heap) : heap.Undone heap where
  next_le := le_rfl
  table_eq _ _ := rfl
  destroyed := ⟨[], rfl, List.nodup_nil, fun id => by simp⟩

/-- The live tables are those of before. -/
theorem Undone.live_iff {heap' : Heap} (h : heap.Undone heap') (id : ℕ) :
    heap'.Live id ↔ heap.Live id := by
  obtain ⟨l, hl, -, hmem⟩ := h.destroyed
  have hnext := h.next_le
  rw [Live, Live, hl, List.mem_append, hmem]
  constructor
  · rintro ⟨h1, h2⟩
    rw [not_or] at h2
    exact ⟨by omega, h2.2⟩
  · rintro ⟨h1, h2⟩
    refine ⟨by omega, ?_⟩
    rintro (h3 | h3)
    · omega
    · exact h2 h3

/-! ### Owners -/

variable {P : Type*}

/-- The live tables of a heap have exactly one owner each, and no table was destroyed twice. -/
structure Owned (heap : Heap) (ref : P → Option ℕ) : Prop extends UniqueOwner ref heap.Live where
  nodup : heap.destroyed.Nodup
  created : ∀ id ∈ heap.destroyed, id < heap.next

namespace Owned

variable {heap' : Heap} {ref ref' : P → Option ℕ}

/-- An owned table is one that has been created. -/
theorem lt_next (h : heap.Owned ref) {p : P} {id : ℕ} (hp : ref p = some id) : id < heap.next :=
  (h.sound p id hp).1

/-- The same owners, after writing to tables or not at all. -/
theorem congr (h : heap.Owned ref) (href : ∀ p, ref' p = ref p) (hnext : heap'.next = heap.next)
    (hdestroyed : heap'.destroyed = heap.destroyed) : heap'.Owned ref' where
  toUniqueOwner := h.toUniqueOwner.congr href fun id => by rw [Live, Live, hnext, hdestroyed]
  nodup := hdestroyed ▸ h.nodup
  created id hid := hnext ▸ h.created id (hdestroyed ▸ hid)

/-- References change place along `f`. -/
theorem move (h : heap.Owned ref) (f : P → P) (hto : ∀ p id, ref p = some id → ref' (f p) = some id)
    (hfrom : ∀ q id, ref' q = some id → ∃ p, f p = q ∧ ref p = some id) : heap.Owned ref' where
  toUniqueOwner := h.toUniqueOwner.move f hto hfrom
  nodup := h.nodup
  created := h.created

/-- Work that was undone leaves the owners alone. -/
theorem undone (h : heap.Owned ref) (hundone : heap.Undone heap') : heap'.Owned ref := by
  obtain ⟨l, hl, hnodup, hmem⟩ := hundone.destroyed
  have hnext := hundone.next_le
  refine { toUniqueOwner := h.toUniqueOwner.congr (fun _ => rfl) hundone.live_iff, nodup := ?_,
           created := ?_ }
  · rw [hl]
    refine List.nodup_append.mpr ⟨hnodup, h.nodup, fun id hid id' hid' heq => ?_⟩
    have h1 := (hmem id).mp hid
    have h2 := h.created id' hid'
    omega
  · intro id hid
    rw [hl, List.mem_append, hmem] at hid
    rcases hid with hid | hid
    · exact hid.2
    · have := h.created id hid
      omega

/-- New tables in some of the places. -/
theorem add (h : heap.Owned ref) (added : P → ℕ → Prop)
    (href : ∀ p id, ref' p = some id ↔ ref p = some id ∨ added p id)
    (hadded : ∀ id, (∃ p, added p id) ↔ heap.next ≤ id ∧ id < heap'.next)
    (hinj : ∀ p q id, added p id → added q id → p = q) (hnext : heap.next ≤ heap'.next)
    (hdestroyed : heap'.destroyed = heap.destroyed) : heap'.Owned ref' where
  toUniqueOwner := by
    refine h.toUniqueOwner.add added href (fun id => ?_) (fun p id hp hlive => ?_) hinj
    · rw [Live, Live, hadded, hdestroyed]
      have hold := h.created id
      constructor
      · rintro ⟨h1, h2⟩
        by_cases hlt : id < heap.next
        · exact Or.inl ⟨hlt, h2⟩
        · exact Or.inr ⟨by omega, h1⟩
      · rintro (⟨h1, h2⟩ | ⟨h1, h2⟩)
        · exact ⟨by omega, h2⟩
        · exact ⟨h2, fun hin => by have := hold hin; omega⟩
    · have h1 := (hadded id).mp ⟨p, hp⟩
      have h2 := hlive.1
      omega
  nodup := hdestroyed ▸ h.nodup
  created id hid := lt_of_lt_of_le (h.created id (hdestroyed ▸ hid)) hnext

/-- Destroying the tables of a row of pointers and clearing the places the row stands for. -/
theorem drop (h : heap.Owned ref) (row : ℕ → Option ℕ) {n : ℕ} (place : ℕ → P)
    (hrow : ∀ v < n, ref (place v) = row v) (hplace : ∀ u < n, ∀ v < n, place u = place v → u = v)
    (href : ∀ p id, ref' p = some id ↔ ref p = some id ∧ ¬ ∃ v < n, place v = p)
    (hnext : heap'.next = heap.next)
    (hdestroyed : heap'.destroyed = (pointees row n).reverse ++ heap.destroyed) :
    heap'.Owned ref' := by
  have hlive : ∀ id ∈ pointees row n, heap.Live id := by
    intro id hid
    obtain ⟨v, hv, hrv⟩ := mem_pointees.mp hid
    exact h.sound (place v) id ((hrow v hv).trans hrv)
  -- what is destroyed now was live before, so nothing is destroyed twice
  refine { toUniqueOwner := ?_, nodup := ?_, created := ?_ }
  · refine h.toUniqueOwner.drop (fun p => ∃ v < n, place v = p) href fun id => ?_
    rw [Live, Live, hnext, hdestroyed, List.mem_append, List.mem_reverse, mem_pointees, not_or,
      and_left_comm, and_comm]
    refine and_congr_right fun _ => not_congr ?_
    constructor
    · rintro ⟨v, hv, hrv⟩
      exact ⟨place v, ⟨v, hv, rfl⟩, (hrow v hv).trans hrv⟩
    · rintro ⟨p, ⟨v, hv, rfl⟩, hp⟩
      exact ⟨v, hv, (hrow v hv).symm.trans hp⟩
  · rw [hdestroyed]
    refine List.nodup_append.mpr ⟨List.nodup_reverse.mpr (pointees_nodup ?_), h.nodup, ?_⟩
    · intro u hu v hv id hru hrv
      exact hplace u hu v hv
        (h.injective _ _ id ((hrow u hu).trans hru) ((hrow v hv).trans hrv))
    · intro id hid id' hid' heq
      exact (hlive id (List.mem_reverse.mp hid)).2 (heq ▸ hid')
  · intro id hid
    rw [hdestroyed, List.mem_append] at hid
    rw [hnext]
    rcases hid with hid | hid
    · exact (hlive id (List.mem_reverse.mp hid)).1
    · exact h.created id hid

end Owned

end Heap

end InFMon
