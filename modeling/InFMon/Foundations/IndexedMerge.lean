import InFMon.Foundations.KeyedMerge
import Mathlib.Logic.Function.Basic

/-! # Merging through an index

A merge that keeps its result as a growing array beside a map from the keys to indices of the array.
The result is the merge by key, as long as the map agrees with the array. -/

namespace IndexedMerge

variable {κ α : Type} (key : α → κ) (combine : α → α → α)

/-- The index of every key seen so far, and the values merged so far. -/
structure State (κ α : Type) where
  indexOf : κ → Option ℕ
  merged : List α

namespace State

/-- Before the first value. -/
def start : State κ α := ⟨fun _ => none, []⟩

/-- Combine a value into that of its key, or append it and remember its index. -/
def enter [DecidableEq κ] (s : State κ α) (e : α) : State κ α :=
  match s.indexOf (key e) with
  | some idx => { s with merged := s.merged.modify idx fun m => combine m e }
  | none =>
    { indexOf := Function.update s.indexOf (key e) (some s.merged.length)
      merged := s.merged ++ [e] }

/-- The array has the values of `m` in order, and the map the position of every key of `m`. -/
structure Represents (s : State κ α) (m : List (κ × α)) : Prop where
  nodup : (m.map Prod.fst).Nodup
  merged : s.merged = m.map Prod.snd
  indexOf : ∀ k i, s.indexOf k = some i ↔ (m.map Prod.fst)[i]? = some k

end State

/-- Merge all values from the first to the last. -/
def mergeAll [DecidableEq κ] (values : List α) : State κ α :=
  values.foldl (State.enter key combine) State.start

variable {key combine} {s : State κ α} {m : List (κ × α)}

/-! ### One value -/

/-- A value is combined at the only index of its key. -/
theorem snd_insert_of_getElem? [DecidableEq κ] (hm : (m.map Prod.fst).Nodup) {i : ℕ} {k : κ}
    (hi : (m.map Prod.fst)[i]? = some k) (a : α) :
    (KeyedMerge.insert combine k a m).map Prod.snd =
      (m.map Prod.snd).modify i fun b => combine b a := by
  induction m generalizing i with
  | nil => cases hi
  | cons e m ih =>
    rw [List.map_cons] at hm hi
    obtain ⟨hfresh, hrest⟩ := List.nodup_cons.mp hm
    rw [KeyedMerge.insert]
    cases i with
    | zero =>
      rw [if_pos (Option.some.inj hi)]
      rfl
    | succ i =>
      rw [List.getElem?_cons_succ] at hi
      -- a key that stands behind is not the first one
      have hne : e.1 ≠ k := fun h => hfresh (h ▸ List.mem_of_getElem? hi)
      rw [if_neg hne, List.map_cons, ih hrest hi]
      rfl

/-- The index of a key that the map has lies in the array. -/
theorem State.Represents.lt_length (h : s.Represents m) {k : κ} {i : ℕ}
    (hi : s.indexOf k = some i) : i < s.merged.length := by
  obtain ⟨hlt, -⟩ := List.getElem?_eq_some_iff.mp ((h.indexOf k i).mp hi)
  rwa [h.merged, List.length_map, ← List.length_map (f := Prod.fst)]

/-- A key that has no index is in no entry. -/
theorem State.Represents.indexOf_eq_none (h : s.Represents m) {k : κ} :
    s.indexOf k = none ↔ k ∉ m.map Prod.fst := by
  rw [Option.eq_none_iff_forall_ne_some]
  constructor
  · intro hnone hmem
    obtain ⟨i, hi⟩ := List.getElem?_of_mem hmem
    exact hnone i ((h.indexOf k i).mpr hi)
  · intro hmem i hi
    exact hmem (List.mem_of_getElem? ((h.indexOf k i).mp hi))

section Loop

variable [DecidableEq κ]

/-- An entry whose key has an index is combined with the one there. -/
theorem State.enter_of_some {e : α} {idx : ℕ} (h : s.indexOf (key e) = some idx) :
    s.enter key combine e = { s with merged := s.merged.modify idx fun m => combine m e } := by
  rw [State.enter, h]

/-- An entry with a new key comes behind the others. -/
theorem State.enter_of_none {e : α} (h : s.indexOf (key e) = none) :
    s.enter key combine e =
      { indexOf := Function.update s.indexOf (key e) (some s.merged.length)
        merged := s.merged ++ [e] } := by
  rw [State.enter, h]

/-- A step of the loop is a step of the merge by key. -/
theorem State.Represents.enter (h : s.Represents m) (e : α) :
    (s.enter key combine e).Represents (KeyedMerge.insert combine (key e) e m) := by
  have hnodup : ((KeyedMerge.insert combine (key e) e m).map Prod.fst).Nodup :=
    KeyedMerge.nodup_insert h.nodup (key e) e
  cases hidx : s.indexOf (key e) with
  | some idx =>
    -- the keys stay, and so do their positions
    have hpos := (h.indexOf _ _).mp hidx
    have hkeys : (KeyedMerge.insert combine (key e) e m).map Prod.fst = m.map Prod.fst := by
      rw [KeyedMerge.keys_insert, if_pos (List.mem_of_getElem? hpos)]
    rw [State.enter_of_some hidx]
    refine ⟨hnodup, ?_, fun k i => ?_⟩
    · rw [snd_insert_of_getElem? h.nodup hpos, ← h.merged]
    · rw [hkeys]
      exact h.indexOf k i
  | none =>
    have hnew := h.indexOf_eq_none.mp hidx
    have hlen : s.merged.length = (m.map Prod.fst).length := by
      rw [h.merged, List.length_map, List.length_map]
    rw [KeyedMerge.insert_of_notMem hnew] at hnodup ⊢
    rw [State.enter_of_none hidx]
    refine ⟨hnodup, ?_, fun k i => ?_⟩
    · rw [List.map_append, h.merged]
      rfl
    · -- the new key has the index behind the others
      dsimp only
      rw [List.map_append, List.map_singleton, Function.update_apply]
      rcases Nat.lt_trichotomy i (m.map Prod.fst).length with hlt | rfl | hgt
      · rw [List.getElem?_append_left hlt]
        by_cases hk : k = key e
        · rw [if_pos hk, hk, hlen]
          exact iff_of_false (fun heq => Nat.ne_of_gt hlt (Option.some.inj heq))
            fun hmem => hnew (List.mem_of_getElem? hmem)
        · rw [if_neg hk, h.indexOf]
      · rw [List.getElem?_concat_length, hlen]
        by_cases hk : k = key e
        · rw [if_pos hk, hk]
          exact iff_of_true rfl rfl
        · rw [if_neg hk, h.indexOf, List.getElem?_eq_none (Nat.le_refl _)]
          exact iff_of_false nofun fun heq => hk (Option.some.inj heq).symm
      · rw [List.getElem?_eq_none (by rw [List.length_append]; exact hgt)]
        by_cases hk : k = key e
        · rw [if_pos hk, hlen]
          exact iff_of_false (fun heq => Nat.ne_of_lt hgt (Option.some.inj heq)) nofun
        · rw [if_neg hk, h.indexOf, List.getElem?_eq_none (Nat.le_of_lt hgt)]

/-- The loop computes the merge by key. -/
theorem mergeAll_represents (values : List α) : (mergeAll key combine values).Represents
    (KeyedMerge.mergeAll combine (values.map fun e => (key e, e))) := by
  induction values using List.reverseRecOn with
  | nil =>
    refine ⟨List.nodup_nil, rfl, fun k i => ?_⟩
    exact iff_of_false nofun fun h => List.not_mem_nil (List.mem_of_getElem? h)
  | append_singleton values e ih =>
    have hloop : mergeAll key combine (values ++ [e]) =
        (mergeAll key combine values).enter key combine e := List.foldl_concat ..
    rw [hloop, List.map_append, List.map_singleton, KeyedMerge.mergeAll_concat]
    exact ih.enter e

end Loop

end IndexedMerge
