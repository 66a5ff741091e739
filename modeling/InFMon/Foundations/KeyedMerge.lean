import Mathlib.Data.List.Dedup
import Mathlib.Data.List.Induction
import Mathlib.Data.List.Perm.Basic
import Mathlib.Tactic.Common

/-! # Merging entries by key

Entries with equal keys are merged into one, with their values combined from the first to the last. The
result has every key once; in which order does not matter to the rules here. -/

namespace KeyedMerge

variable {κ α : Type} [DecidableEq κ] {combine : α → α → α}

/-- Combine a value into the entry of its key, or append an entry. -/
def insert (combine : α → α → α) (k : κ) (a : α) : List (κ × α) → List (κ × α)
  | [] => [(k, a)]
  | (k', a') :: m => if k' = k then (k', combine a' a) :: m else (k', a') :: insert combine k a m

/-- Merge all entries. -/
def mergeAll (combine : α → α → α) (entries : List (κ × α)) : List (κ × α) :=
  entries.foldl (fun m e => insert combine e.1 e.2 m) []

/-- The value of a key. -/
def find (m : List (κ × α)) (k : κ) : Option α :=
  match m with
  | [] => none
  | (k', a) :: m => if k' = k then some a else find m k

/-- The values of the entries with a key, in order. -/
def valuesOf (k : κ) (entries : List (κ × α)) : List α :=
  (entries.filter fun e => decide (e.1 = k)).map Prod.snd

/-- Values combined from the first to the last. -/
def total (combine : α → α → α) : List α → Option α
  | [] => none
  | a :: as => some (as.foldl combine a)

/-- Nothing is found in the empty list. -/
@[simp] theorem find_nil (k : κ) : find ([] : List (κ × α)) k = none := rfl

/-- The first entry is found under its own key. -/
theorem find_cons (e : κ × α) (m : List (κ × α)) (k : κ) :
    find (e :: m) k = if e.1 = k then some e.2 else find m k := rfl

/-! ### One entry -/

/-- A new key comes behind the others. -/
theorem keys_insert (k : κ) (a : α) (m : List (κ × α)) : (insert combine k a m).map Prod.fst =
    if k ∈ m.map Prod.fst then m.map Prod.fst else m.map Prod.fst ++ [k] := by
  induction m with
  | nil => rfl
  | cons e m ih =>
    rw [insert]
    by_cases he : e.1 = k
    · rw [if_pos he, List.map_cons, List.map_cons, if_pos (he ▸ List.mem_cons_self)]
    · rw [if_neg he, List.map_cons, List.map_cons, ih]
      by_cases hmem : k ∈ m.map Prod.fst
      · rw [if_pos hmem, if_pos (List.mem_cons_of_mem _ hmem)]
      · rw [if_neg hmem, if_neg fun hcons => (List.mem_cons.mp hcons).elim (fun h => he h.symm) hmem]
        rfl

/-- Keys stay distinct. -/
theorem nodup_insert {m : List (κ × α)} (h : (m.map Prod.fst).Nodup) (k : κ) (a : α) :
    ((insert combine k a m).map Prod.fst).Nodup := by
  rw [keys_insert]
  split
  · exact h
  · rename_i hk
    refine List.nodup_append.mpr ⟨h, List.nodup_singleton k, fun x hx y hy => ?_⟩
    rw [List.mem_singleton.mp hy]
    rintro rfl
    exact hk hx

/-- The keys are the new one and those that were there. -/
theorem mem_keys_insert {m : List (κ × α)} {k x : κ} {a : α} :
    x ∈ (insert combine k a m).map Prod.fst ↔ x = k ∨ x ∈ m.map Prod.fst := by
  rw [keys_insert]
  split
  · rename_i hk
    exact ⟨Or.inr, fun h => h.elim (fun heq => heq ▸ hk) id⟩
  · rw [List.mem_append, List.mem_singleton, or_comm]

/-- The value of the key is combined with the new one, and no other value changes. -/
theorem find_insert (k x : κ) (a : α) (m : List (κ × α)) : find (insert combine k a m) x =
    if x = k then some (((find m k).map fun b => combine b a).getD a) else find m x := by
  induction m with
  | nil =>
    rw [insert, find_cons, find_nil, find_nil]
    by_cases hx : x = k
    · rw [if_pos hx.symm, if_pos hx]
      rfl
    · rw [if_neg (Ne.symm hx), if_neg hx]
  | cons e m ih =>
    rw [insert, find_cons, find_cons]
    by_cases he : e.1 = k
    · -- the entry that the value is combined into
      rw [if_pos he, if_pos he, find_cons]
      by_cases hx : x = k
      · rw [if_pos (he.trans hx.symm), if_pos hx]
        rfl
      · rw [if_neg fun h => hx (h.symm.trans he), if_neg hx, if_neg fun h => hx (h.symm.trans he)]
    · rw [if_neg he, if_neg he, find_cons, ih]
      by_cases hx : x = k
      · rw [if_pos hx, if_pos hx, if_neg fun h => he (h.trans hx)]
      · rw [if_neg hx, if_neg hx]

/-! ### All entries -/

/-- One value more is combined with the total so far. -/
theorem total_concat (as : List α) (a : α) :
    total combine (as ++ [a]) = some (((total combine as).map fun b => combine b a).getD a) := by
  cases as with
  | nil => rfl
  | cons b as => exact congrArg some (List.foldl_concat ..)

/-- One entry more adds a value to its own key. -/
theorem valuesOf_concat (entries : List (κ × α)) (e : κ × α) (k : κ) :
    valuesOf k (entries ++ [e]) =
      if e.1 = k then valuesOf k entries ++ [e.2] else valuesOf k entries := by
  rw [valuesOf, List.filter_append, List.map_append]
  by_cases he : e.1 = k
  · rw [if_pos he, List.filter_singleton, decide_eq_true he]
    rfl
  · rw [if_neg he, List.filter_singleton, decide_eq_false he]
    exact List.append_nil _

/-- One entry more is inserted into what was merged. -/
theorem mergeAll_concat (entries : List (κ × α)) (e : κ × α) :
    mergeAll combine (entries ++ [e]) = insert combine e.1 e.2 (mergeAll combine entries) :=
  List.foldl_concat ..

/-- Every key is there once. -/
theorem nodup_mergeAll (entries : List (κ × α)) :
    ((mergeAll combine entries).map Prod.fst).Nodup := by
  induction entries using List.reverseRecOn with
  | nil => exact List.nodup_nil
  | append_singleton entries e ih =>
    rw [mergeAll_concat]
    exact nodup_insert ih e.1 e.2

/-- The keys are those of the entries. -/
theorem mem_keys_mergeAll {entries : List (κ × α)} {k : κ} :
    k ∈ (mergeAll combine entries).map Prod.fst ↔ k ∈ entries.map Prod.fst := by
  induction entries using List.reverseRecOn with
  | nil => exact Iff.rfl
  | append_singleton entries e ih =>
    rw [mergeAll_concat, mem_keys_insert, ih, List.map_append, List.mem_append, or_comm]
    exact or_congr_right List.mem_singleton.symm

/-- What combining keeps holds of the merged entries. -/
theorem forall_mem_insert {P : κ → α → Prop} (hcombine : ∀ k a b, P k a → P k b → P k (combine a b))
    {m : List (κ × α)} {k : κ} {a : α} (hm : ∀ e ∈ m, P e.1 e.2) (ha : P k a) :
    ∀ e ∈ insert combine k a m, P e.1 e.2 := by
  induction m with
  | nil =>
    intro e he
    rw [List.mem_singleton.mp he]
    exact ha
  | cons first m ih =>
    have hfirst := hm first List.mem_cons_self
    have hrest : ∀ e ∈ m, P e.1 e.2 := fun e he => hm e (List.mem_cons_of_mem _ he)
    rw [insert]
    split
    · rename_i hk
      intro e he
      rcases List.mem_cons.mp he with rfl | he
      · exact hcombine _ _ _ hfirst (hk ▸ ha)
      · exact hrest e he
    · intro e he
      rcases List.mem_cons.mp he with rfl | he
      · exact hfirst
      · exact ih hrest e he

/-- What is true of all entries and kept when values are combined is true of the merged ones. -/
theorem forall_mem_mergeAll {P : κ → α → Prop}
    (hcombine : ∀ k a b, P k a → P k b → P k (combine a b)) {entries : List (κ × α)}
    (h : ∀ e ∈ entries, P e.1 e.2) : ∀ e ∈ mergeAll combine entries, P e.1 e.2 := by
  induction entries using List.reverseRecOn with
  | nil => exact fun e he => absurd he List.not_mem_nil
  | append_singleton entries e ih =>
    rw [mergeAll_concat]
    exact forall_mem_insert hcombine (ih fun e he => h e (List.mem_append_left _ he))
      (h e (List.mem_append_right _ (List.mem_singleton_self e)))

/-- The value of a key combines the values of its entries. -/
theorem find_mergeAll (entries : List (κ × α)) (k : κ) :
    find (mergeAll combine entries) k = total combine (valuesOf k entries) := by
  induction entries using List.reverseRecOn with
  | nil => rfl
  | append_singleton entries e ih =>
    rw [mergeAll_concat, find_insert, valuesOf_concat]
    by_cases he : e.1 = k
    · rw [if_pos he, if_pos he.symm, total_concat, ← ih, he]
    · rw [if_neg he, if_neg fun h => he h.symm, ih]

/-- A list with every key once is the list of its keys with their values. -/
theorem map_find_keys {m : List (κ × α)} (h : (m.map Prod.fst).Nodup) {g : κ → α}
    (hg : ∀ k ∈ m.map Prod.fst, find m k = some (g k)) :
    (m.map Prod.fst).map (fun k => (k, g k)) = m := by
  induction m with
  | nil => rfl
  | cons e m ih =>
    rw [List.map_cons] at h hg
    obtain ⟨hfresh, hrest⟩ := List.nodup_cons.mp h
    have he : some e.2 = some (g e.1) := by
      rw [← hg e.1 List.mem_cons_self, find_cons, if_pos rfl]
    rw [List.map_cons, List.map_cons, ← Option.some.inj he, ih hrest fun k hk => ?_]
    rw [← hg k (List.mem_cons_of_mem _ hk), find_cons, if_neg]
    rintro rfl
    exact hfresh hk

/-- An entry of a list with every key once is the one that is found. -/
theorem find_of_mem {m : List (κ × α)} (h : (m.map Prod.fst).Nodup) {e : κ × α} (he : e ∈ m) :
    find m e.1 = some e.2 := by
  induction m with
  | nil => exact absurd he List.not_mem_nil
  | cons first m ih =>
    rw [List.map_cons] at h
    obtain ⟨hfresh, hrest⟩ := List.nodup_cons.mp h
    rw [find_cons]
    rcases List.mem_cons.mp he with rfl | he
    · rw [if_pos rfl]
    · have hne : first.1 ≠ e.1 := fun heq => hfresh (by rw [heq]; exact List.mem_map_of_mem he)
      rw [if_neg hne, ih hrest he]

/-- Up to their order the merged entries are the distinct keys with what their values combine to. -/
theorem mergeAll_perm {entries : List (κ × α)} {g : κ → α}
    (hg : ∀ k ∈ entries.map Prod.fst, total combine (valuesOf k entries) = some (g k)) :
    (mergeAll combine entries).Perm
      ((entries.map Prod.fst).dedup.map fun k => (k, g k)) := by
  have hfind : ∀ k ∈ (mergeAll combine entries).map Prod.fst,
      find (mergeAll combine entries) k = some (g k) := by
    intro k hk
    rw [find_mergeAll]
    exact hg k (mem_keys_mergeAll.mp hk)
  have hkeys : ((mergeAll combine entries).map Prod.fst).Perm (entries.map Prod.fst).dedup := by
    refine (List.perm_ext_iff_of_nodup (nodup_mergeAll entries) (List.nodup_dedup _)).mpr
      fun k => ?_
    rw [mem_keys_mergeAll, List.mem_dedup]
  have hperm := hkeys.map fun k => (k, g k)
  rwa [map_find_keys (nodup_mergeAll entries) hfind] at hperm

/-! ### The order of the keys -/

/-- The keys stand in the order in which they come first. -/
theorem keys_mergeAll [BEq κ] [LawfulBEq κ] (entries : List (κ × α)) :
    (mergeAll combine entries).map Prod.fst = (entries.map Prod.fst).eraseDups := by
  induction entries using List.reverseRecOn with
  | nil => rfl
  | append_singleton entries e ih =>
    rw [mergeAll_concat, keys_insert, List.map_append, List.map_singleton, List.eraseDups_append,
      List.cons_removeAll]
    by_cases hmem : e.1 ∈ entries.map Prod.fst
    · -- the key has come before, and keeps its place
      have hseen : (entries.map Prod.fst).contains e.1 = true := List.contains_iff_mem.mpr hmem
      rw [if_pos (mem_keys_mergeAll.mpr hmem), hseen, if_neg Bool.noConfusion, ih]
      exact (List.append_nil _).symm
    · have hnew : (entries.map Prod.fst).contains e.1 = false :=
        Bool.eq_false_iff.mpr fun h => hmem (List.contains_iff_mem.mp h)
      rw [if_neg fun h => hmem (mem_keys_mergeAll.mp h), hnew, if_pos rfl, ih]
      rfl

/-- A key that is new gets an entry behind the others. -/
theorem insert_of_notMem {m : List (κ × α)} {k : κ} (h : k ∉ m.map Prod.fst) (a : α) :
    insert combine k a m = m ++ [(k, a)] := by
  induction m with
  | nil => rfl
  | cons e m ih =>
    rw [List.map_cons, List.mem_cons, not_or] at h
    rw [insert, if_neg (Ne.symm h.1), ih h.2]
    rfl

/-- Entries with every key once stay as they are. -/
theorem mergeAll_of_nodup {m : List (κ × α)} (h : (m.map Prod.fst).Nodup) :
    mergeAll combine m = m := by
  induction m using List.reverseRecOn with
  | nil => rfl
  | append_singleton m e ih =>
    rw [List.map_append] at h
    obtain ⟨hprev, -, hfresh⟩ := List.nodup_append.mp h
    rw [mergeAll_concat, ih hprev]
    exact insert_of_notMem (fun hmem => hfresh _ hmem _ (List.mem_singleton_self e.1) rfl) e.2

end KeyedMerge
