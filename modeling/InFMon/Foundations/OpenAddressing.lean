import Mathlib.Data.Finset.Card
import Mathlib.Data.Finset.Range
import Mathlib.Logic.Function.Basic

/-! # Open addressing with linear probing

A table of `n` cells over an arbitrary key type. A key `k` is looked up along the probe sequence
that starts at `home k` and wraps around; the lookup stops at the first cell that was never used.
Deleted cells (`tomb`) are passed over by lookups and reused by insertions.

The one property everything rests on is `Intact`: no free cell lies on the probe path of a stored
key before the cell that holds it. -/

namespace OpenAddressing

/-- What a cell holds: nothing yet, a deleted key, a key still being written, or a key. -/
inductive Cell (κ : Type*) where
  | free
  | tomb
  | busy
  | full (k : κ)

/-! ### Probe sequences -/

/-- The `i`-th cell of the probe sequence that starts at `s`. -/
def probe (n s i : ℕ) : ℕ := (s + i) % n

/-- The number of steps after which the probe sequence from `s` meets `j`. -/
def distance (n s j : ℕ) : ℕ := (j + (n - s)) % n

/-- A probe is a cell. -/
theorem probe_lt {n s : ℕ} (hs : s < n) (i : ℕ) : probe n s i < n :=
  Nat.mod_lt _ (by omega)

/-- A distance is less than the number of cells. -/
theorem distance_lt {n s : ℕ} (hs : s < n) (j : ℕ) : distance n s j < n :=
  Nat.mod_lt _ (by omega)

/-- Every cell is met at its distance. -/
theorem probe_distance {n s j : ℕ} (hs : s < n) (hj : j < n) :
    probe n s (distance n s j) = j := by
  rw [probe, distance, Nat.add_mod_mod, show s + (j + (n - s)) = j + n by omega,
    Nat.add_mod_right, Nat.mod_eq_of_lt hj]

/-- The first `n` probes meet each cell at its distance only. -/
theorem distance_probe {n s i : ℕ} (hs : s < n) (hi : i < n) :
    distance n s (probe n s i) = i := by
  rw [probe, distance, Nat.mod_add_mod, show s + i + (n - s) = i + n by omega,
    Nat.add_mod_right, Nat.mod_eq_of_lt hi]

/-- The first `n` probes are a permutation of the cells. -/
theorem probe_bijOn {n s : ℕ} (hs : s < n) : Set.BijOn (probe n s) (Set.Iio n) (Set.Iio n) := by
  refine ⟨fun i _ => probe_lt hs i, fun i hi j hj heq => ?_, fun j hj => ?_⟩
  · rw [← distance_probe hs hi, heq, distance_probe hs hj]
  · exact ⟨distance n s j, distance_lt hs j, probe_distance hs hj⟩

/-! ### Stored keys and their probe paths -/

section Cells

variable {κ : Type*} (n : ℕ) (home : κ → ℕ) (cells : ℕ → Cell κ)

/-- Cell `c` is probed for key `k` before cell `j` is. -/
def OnPath (k : κ) (j c : ℕ) : Prop := ∃ i < distance n (home k) j, probe n (home k) i = c

/-- No free cell lies before a stored key on its probe path. -/
def Intact : Prop :=
  ∀ j < n, ∀ k, cells j = .full k → ∀ c, OnPath n home k j c → cells c ≠ .free

/-- No key is stored twice. -/
def Distinct : Prop :=
  ∀ i < n, ∀ j < n, ∀ k, cells i = .full k → cells j = .full k → i = j

/-- Cell `c` is in use, and not by `k`. -/
def TakenFrom (k : κ) (c : ℕ) : Prop := cells c = .busy ∨ ∃ k' ≠ k, cells c = .full k'

variable {n home cells}

/-- A taken cell is not free. -/
theorem TakenFrom.ne_free {k : κ} {c : ℕ} (h : TakenFrom cells k c) : cells c ≠ .free := by
  rcases h with h | ⟨k', -, h⟩ <;> simp [h]

/-- A taken cell does not have the key. -/
theorem TakenFrom.ne_full {k : κ} {c : ℕ} (h : TakenFrom cells k c) : cells c ≠ .full k := by
  rcases h with h | ⟨k', hk, h⟩
  · simp [h]
  · simp [h, hk]

/-- The probe path to the `d`-th probe is the first `d` probes. -/
theorem onPath_probe_iff {k : κ} {d c : ℕ} (hk : home k < n) (hd : d < n) :
    OnPath n home k (probe n (home k) d) c ↔ ∃ i < d, probe n (home k) i = c := by
  rw [OnPath, distance_probe hk hd]

/-- A cell on the path of a key is a cell. -/
theorem onPath_lt {k : κ} {j c : ℕ} (hk : home k < n) (h : OnPath n home k j c) : c < n := by
  obtain ⟨i, -, rfl⟩ := h
  exact probe_lt hk i

/-- Cells outside the table do not matter. -/
theorem Intact.congr {cells' : ℕ → Cell κ} (hhome : ∀ k, home k < n) (h : Intact n home cells)
    (heq : ∀ j < n, cells' j = cells j) : Intact n home cells' := by
  intro j hj k hk c hc
  rw [heq c (onPath_lt (hhome k) hc)]
  rw [heq j hj] at hk
  exact h j hj k hk c hc

/-- Storing a key at the end of a path without free cells keeps every path intact. -/
theorem Intact.store {k : κ} {r : ℕ} (h : Intact n home cells)
    (hpath : ∀ c, OnPath n home k r c → cells c ≠ .free) :
    Intact n home (Function.update cells r (.full k)) := by
  intro j hj k' hk' c hc
  by_cases hcr : c = r
  · simp [hcr]
  rw [Function.update_of_ne hcr]
  by_cases hjr : j = r
  · subst hjr
    rw [Function.update_self, Cell.full.injEq] at hk'
    exact hpath c (hk' ▸ hc)
  · rw [Function.update_of_ne hjr] at hk'
    exact h j hj k' hk' c hc

/-- Deleting a key by a tombstone keeps every path intact. -/
theorem Intact.bury {v : ℕ} (h : Intact n home cells) :
    Intact n home (Function.update cells v .tomb) := by
  intro j hj k hk c hc
  have hjv : j ≠ v := by
    rintro rfl
    simp at hk
  rw [Function.update_of_ne hjv] at hk
  by_cases hcv : c = v
  · simp [hcv]
  · rw [Function.update_of_ne hcv]
    exact h j hj k hk c hc

/-- Setting a cell free keeps the paths intact exactly when the cell is on none of them. -/
theorem Intact.release_iff {r : ℕ} (h : Intact n home cells) :
    Intact n home (Function.update cells r .free) ↔
      ∀ j < n, ∀ k, j ≠ r → cells j = .full k → ¬ OnPath n home k j r := by
  constructor
  · intro h' j hj k hjr hk hpath
    exact h' j hj k (by rwa [Function.update_of_ne hjr]) r hpath (Function.update_self ..)
  · intro hoff j hj k hk c hc
    have hjr : j ≠ r := by
      rintro rfl
      simp at hk
    rw [Function.update_of_ne hjr] at hk
    have hcr : c ≠ r := by
      rintro rfl
      exact hoff j hj k hjr hk hc
    rw [Function.update_of_ne hcr]
    exact h j hj k hk c hc

/-- A table that holds no more than a duplicate-free one is duplicate-free. -/
theorem Distinct.mono {cells' : ℕ → Cell κ} (h : Distinct n cells)
    (hsub : ∀ j < n, ∀ k, cells' j = .full k → cells j = .full k) : Distinct n cells' :=
  fun i hi j hj k hik hjk => h i hi j hj k (hsub i hi k hik) (hsub j hj k hjk)

/-- Overwriting a cell by anything but a key keeps keys distinct. -/
theorem Distinct.erase {r : ℕ} {c : Cell κ} (h : Distinct n cells) (hc : ∀ k, c ≠ .full k) :
    Distinct n (Function.update cells r c) := by
  refine h.mono fun j _ k hk => ?_
  by_cases hjr : j = r
  · subst hjr
    exact absurd (by simpa using hk) (hc k)
  · rwa [Function.update_of_ne hjr] at hk

/-- Storing a key that is nowhere stored keeps keys distinct. -/
theorem Distinct.store {k : κ} {r : ℕ} (h : Distinct n cells)
    (hnew : ∀ j < n, cells j ≠ .full k) : Distinct n (Function.update cells r (.full k)) := by
  intro i hi j hj k' hik hjk
  by_cases hir : i = r <;> by_cases hjr : j = r
  · exact hir.trans hjr.symm
  · subst hir
    rw [Function.update_self, Cell.full.injEq] at hik
    rw [Function.update_of_ne hjr] at hjk
    exact absurd (hik ▸ hjk) (hnew j hj)
  · subst hjr
    rw [Function.update_self, Cell.full.injEq] at hjk
    rw [Function.update_of_ne hir] at hik
    exact absurd (hjk ▸ hik) (hnew i hi)
  · rw [Function.update_of_ne hir] at hik
    rw [Function.update_of_ne hjr] at hjk
    exact h i hi j hj k' hik hjk

/-- Pigeonhole: while the stored keys come from a set of at most `n` keys that also has a key not
stored, some cell is not full. -/
theorem Distinct.exists_not_full [DecidableEq κ] {keys : Finset κ} {k : κ} (h : Distinct n cells)
    (hkeys : ∀ j < n, ∀ k', cells j = .full k' → k' ∈ keys) (hk : k ∈ keys)
    (hnew : ∀ j < n, cells j ≠ .full k) (hcard : keys.card ≤ n) :
    ∃ j < n, ∀ k', cells j ≠ .full k' := by
  by_contra hall
  push Not at hall
  have : Nonempty κ := ⟨k⟩
  choose! key hkey using hall
  -- the keys of the `n` full cells are distinct and miss `k`
  have hcard' : (Finset.range n).card ≤ (keys.erase k).card := by
    refine Finset.card_le_card_of_injOn key (fun j hj => ?_) (fun i hi j hj hij => ?_)
    · have hj' := Finset.mem_range.mp hj
      refine Finset.mem_erase.mpr ⟨?_, hkeys j hj' _ (hkey j hj')⟩
      intro heq
      exact hnew j hj' (heq ▸ hkey j hj')
    · have hi' := Finset.mem_range.mp hi
      have hj' := Finset.mem_range.mp hj
      exact h i hi' j hj' (key i) (hkey i hi') (hij ▸ hkey j hj')
  rw [Finset.card_range, Finset.card_erase_of_mem hk] at hcard'
  have hpos : 0 < keys.card := Finset.card_pos.mpr ⟨k, hk⟩
  omega

end Cells

/-! ### The lookup -/

/-- The outcome of a lookup: the cell that holds the key, or the first reusable cell passed. -/
inductive Found where
  | hit (j : ℕ)
  | miss (reuse : Option ℕ)
  deriving DecidableEq

section Search

variable {κ : Type*} [DecidableEq κ]

/-- Look for `k` from the `i`-th probe on, for at most `fuel` probes; `reuse` is the first deleted
cell passed so far. -/
def search (n : ℕ) (cells : ℕ → Cell κ) (s : ℕ) (k : κ) : ℕ → ℕ → Option ℕ → Found
  | 0, _, reuse => .miss reuse
  | fuel + 1, i, reuse =>
    match cells (probe n s i) with
    | .full k' => if k' = k then .hit (probe n s i) else search n cells s k fuel (i + 1) reuse
    | .busy => search n cells s k fuel (i + 1) reuse
    | .tomb => search n cells s k fuel (i + 1) (reuse.or (some (probe n s i)))
    | .free => .miss (reuse.or (some (probe n s i)))

variable {n s : ℕ} {cells : ℕ → Cell κ} {k : κ}

/-- A probe that passes cell `i` extends what later probes passed by one cell. -/
private theorem passed_cons {P : ℕ → Prop} {i d : ℕ} (hi : P i)
    (h : ∀ e, i + 1 ≤ e → e < d → P e) : ∀ e, i ≤ e → e < d → P e := by
  intro e he1 he2
  rcases Nat.eq_or_lt_of_le he1 with rfl | hlt
  · exact hi
  · exact h e hlt he2

/-- A lookup that hits has found the key, and passed no free cell before. -/
theorem search_hit {fuel i j : ℕ} {reuse : Option ℕ}
    (h : search n cells s k fuel i reuse = .hit j) :
    cells j = .full k ∧ ∃ d, i ≤ d ∧ d < i + fuel ∧ probe n s d = j ∧
      ∀ e, i ≤ e → e < d → cells (probe n s e) ≠ .free := by
  induction fuel generalizing i reuse with
  | zero => simp [search] at h
  | succ fuel ih =>
    have step : (∃ reuse', search n cells s k fuel (i + 1) reuse' = .hit j) →
        cells (probe n s i) ≠ .free →
        cells j = .full k ∧ ∃ d, i ≤ d ∧ d < i + (fuel + 1) ∧ probe n s d = j ∧
          ∀ e, i ≤ e → e < d → cells (probe n s e) ≠ .free := by
      rintro ⟨reuse', h'⟩ hfree
      obtain ⟨hj, d, h1, h2, h3, h4⟩ := ih h'
      exact ⟨hj, d, by omega, by omega, h3, passed_cons hfree h4⟩
    rw [search] at h
    split at h
    · rename_i k' hcell
      split at h
      · rename_i hk
        rw [Found.hit.injEq] at h
        exact ⟨by rw [← h, hcell, hk], i, le_refl _, by omega, h, fun e h1 h2 => by omega⟩
      · exact step ⟨_, h⟩ (by simp [hcell])
    · rename_i hcell
      exact step ⟨_, h⟩ (by simp [hcell])
    · rename_i hcell
      exact step ⟨_, h⟩ (by simp [hcell])
    · simp at h

/-- A lookup misses because it met a free cell, or because it probed everything. Before that it met
neither a free cell nor the key. -/
theorem search_miss {fuel i : ℕ} {reuse r : Option ℕ}
    (h : search n cells s k fuel i reuse = .miss r) :
    ∃ d, i ≤ d ∧ d ≤ i + fuel ∧ (d < i + fuel → cells (probe n s d) = .free) ∧
      ∀ e, i ≤ e → e < d → cells (probe n s e) ≠ .free ∧ cells (probe n s e) ≠ .full k := by
  induction fuel generalizing i reuse with
  | zero => exact ⟨i, le_refl _, le_refl _, by omega, fun e h1 h2 => by omega⟩
  | succ fuel ih =>
    have step : (∃ reuse', search n cells s k fuel (i + 1) reuse' = .miss r) →
        cells (probe n s i) ≠ .free ∧ cells (probe n s i) ≠ .full k →
        ∃ d, i ≤ d ∧ d ≤ i + (fuel + 1) ∧ (d < i + (fuel + 1) → cells (probe n s d) = .free) ∧
          ∀ e, i ≤ e → e < d → cells (probe n s e) ≠ .free ∧ cells (probe n s e) ≠ .full k := by
      rintro ⟨reuse', h'⟩ hcell
      obtain ⟨d, h1, h2, h3, h4⟩ := ih h'
      exact ⟨d, by omega, by omega, fun hd => h3 (by omega), passed_cons hcell h4⟩
    rw [search] at h
    split at h
    · rename_i k' hcell
      split at h
      · simp at h
      · rename_i hk
        exact step ⟨_, h⟩ (by simp [hcell, hk])
    · rename_i hcell
      exact step ⟨_, h⟩ (by simp [hcell])
    · rename_i hcell
      exact step ⟨_, h⟩ (by simp [hcell])
    · rename_i hcell
      exact ⟨i, le_refl _, by omega, fun _ => hcell, fun e h1 h2 => by omega⟩

/-- The reusable cell handed on, once found, is kept. -/
theorem search_miss_some {fuel i c : ℕ} {r : Option ℕ}
    (h : search n cells s k fuel i (some c) = .miss r) : r = some c := by
  induction fuel generalizing i with
  | zero => simpa [search, eq_comm] using h
  | succ fuel ih =>
    rw [search] at h
    split at h
    · split at h
      · simp at h
      · exact ih h
    · exact ih h
    · exact ih (by simpa using h)
    · simpa [eq_comm] using h

/-- A miss that reports a cell reports the first probed cell that is not taken. -/
theorem search_reuse_some {fuel i c : ℕ}
    (h : search n cells s k fuel i none = .miss (some c)) :
    (cells c = .free ∨ cells c = .tomb) ∧ ∃ d, i ≤ d ∧ d < i + fuel ∧ probe n s d = c ∧
      ∀ e, i ≤ e → e < d → TakenFrom cells k (probe n s e) := by
  induction fuel generalizing i with
  | zero => simp [search] at h
  | succ fuel ih =>
    have step : search n cells s k fuel (i + 1) none = .miss (some c) →
        TakenFrom cells k (probe n s i) →
        (cells c = .free ∨ cells c = .tomb) ∧ ∃ d, i ≤ d ∧ d < i + (fuel + 1) ∧ probe n s d = c ∧
          ∀ e, i ≤ e → e < d → TakenFrom cells k (probe n s e) := by
      intro h' htaken
      obtain ⟨hc, d, h1, h2, h3, h4⟩ := ih h'
      exact ⟨hc, d, by omega, by omega, h3, passed_cons htaken h4⟩
    rw [search] at h
    split at h
    · rename_i k' hcell
      split at h
      · simp at h
      · rename_i hk
        exact step h (Or.inr ⟨k', hk, hcell⟩)
    · rename_i hcell
      exact step h (Or.inl hcell)
    · -- the first deleted cell is the one reported
      rename_i hcell
      have hc := search_miss_some (by simpa using h)
      rw [Option.some.injEq] at hc
      subst hc
      exact ⟨Or.inr hcell, i, le_refl _, by omega, rfl, fun e h1 h2 => by omega⟩
    · rename_i hcell
      rw [Option.none_or, Found.miss.injEq, Option.some.injEq] at h
      subst h
      exact ⟨Or.inl hcell, i, le_refl _, by omega, rfl, fun e h1 h2 => by omega⟩

/-- A miss that reports no cell has met taken cells only. -/
theorem search_reuse_none {fuel i : ℕ} (h : search n cells s k fuel i none = .miss none) :
    ∀ e, i ≤ e → e < i + fuel → TakenFrom cells k (probe n s e) := by
  induction fuel generalizing i with
  | zero =>
    intro e h1 h2
    omega
  | succ fuel ih =>
    rw [show i + (fuel + 1) = i + 1 + fuel by omega]
    rw [search] at h
    split at h
    · rename_i k' hcell
      split at h
      · simp at h
      · rename_i hk
        exact passed_cons (Or.inr ⟨k', hk, hcell⟩) (ih h)
    · rename_i hcell
      exact passed_cons (Or.inl hcell) (ih h)
    · exact absurd (search_miss_some (by simpa using h)) (by simp)
    · simp at h

end Search

/-! ### Complete lookups

The lookup of `k` over the whole probe sequence, from `home k`. -/

section Lookup

variable {κ : Type*} [DecidableEq κ] {n : ℕ} {home : κ → ℕ} {cells : ℕ → Cell κ} {k : κ}

/-- The complete lookup of a key. -/
def lookup (n : ℕ) (home : κ → ℕ) (cells : ℕ → Cell κ) (k : κ) : Found :=
  search n cells (home k) k n 0 none

/-- A cell that is found is a cell with the key. -/
theorem lookup_hit {j : ℕ} (hk : home k < n) (h : lookup n home cells k = .hit j) :
    j < n ∧ cells j = .full k := by
  obtain ⟨hcell, d, -, -, rfl, -⟩ := search_hit h
  exact ⟨probe_lt hk d, hcell⟩

/-- A lookup that finds a key has met no free cell on its path. -/
theorem lookup_hit_path {j c : ℕ} (hk : home k < n) (h : lookup n home cells k = .hit j)
    (hpath : OnPath n home k j c) : cells c ≠ .free := by
  obtain ⟨-, d, -, hd, rfl, hpass⟩ := search_hit h
  obtain ⟨i, hi, rfl⟩ := (onPath_probe_iff hk (by omega)).mp hpath
  exact hpass i (Nat.zero_le _) hi

/-- A lookup misses a stored key only for a free cell on its path. -/
theorem lookup_miss_path {r : Option ℕ} {j : ℕ} (hk : home k < n)
    (h : lookup n home cells k = .miss r) (hj : j < n) (hcell : cells j = .full k) :
    ∃ c, OnPath n home k j c ∧ cells c = .free := by
  by_contra hnone
  push Not at hnone
  obtain ⟨d, -, hdn, hstop, hpass⟩ := search_miss h
  have hdist := distance_lt hk j
  have hprobe := probe_distance hk hj
  rcases Nat.lt_trichotomy d (distance n (home k) j) with hlt | heq | hlt
  · exact hnone _ ⟨d, hlt, rfl⟩ (hstop (by omega))
  · have hfree := hstop (by omega)
    rw [heq, hprobe, hcell] at hfree
    cases hfree
  · exact (hpass _ (Nat.zero_le _) hlt).2 (hprobe.symm ▸ hcell)

/-- With intact paths, a lookup that misses proves the key absent. -/
theorem lookup_miss {r : Option ℕ} (hk : home k < n) (hintact : Intact n home cells)
    (h : lookup n home cells k = .miss r) : ∀ j < n, cells j ≠ .full k := by
  intro j hj hcell
  obtain ⟨d, -, hdn, hstop, hpass⟩ := search_miss h
  have hdist := distance_lt hk j
  have hprobe := probe_distance hk hj
  by_cases hlt : distance n (home k) j < d
  · rw [← hprobe] at hcell
    exact (hpass _ (Nat.zero_le _) hlt).2 hcell
  · -- the lookup stopped at a free cell, at `j` or before it on its path
    have hfree := hstop (by omega)
    rcases Nat.eq_or_lt_of_le (Nat.le_of_not_lt hlt) with heq | hlt'
    · rw [heq, hprobe, hcell] at hfree
      simp at hfree
    · exact hintact j hj k hcell _ ⟨d, hlt', rfl⟩ hfree

/-- With intact paths and distinct keys, a stored key is found where it is stored. -/
theorem lookup_eq_hit {j : ℕ} (hk : home k < n) (hintact : Intact n home cells)
    (hdistinct : Distinct n cells) (hj : j < n) (hcell : cells j = .full k) :
    lookup n home cells k = .hit j := by
  cases h : lookup n home cells k with
  | hit i =>
    obtain ⟨hi, hik⟩ := lookup_hit hk h
    rw [hdistinct i hi j hj k hik hcell]
  | miss r => exact absurd hcell (lookup_miss hk hintact h j hj)

/-- A free cell on the path of a stored key hides the key. -/
theorem lookup_eq_miss {j c : ℕ} (hk : home k < n) (hdistinct : Distinct n cells) (hj : j < n)
    (hcell : cells j = .full k) (hpath : OnPath n home k j c) (hfree : cells c = .free) :
    ∃ r, lookup n home cells k = .miss (some r) := by
  obtain ⟨e, he, rfl⟩ := hpath
  have hen : e < n := lt_trans he (distance_lt hk j)
  cases h : lookup n home cells k with
  | hit i =>
    -- the key is stored at `j` only, and the lookup cannot have passed the free cell before `j`
    obtain ⟨hi, hik⟩ := lookup_hit hk h
    obtain rfl := hdistinct i hi j hj k hik hcell
    obtain ⟨-, d, -, hd, rfl, hpass⟩ := search_hit h
    rw [distance_probe hk (by omega)] at he
    exact absurd hfree (hpass e (Nat.zero_le _) he)
  | miss r =>
    cases r with
    | some r => exact ⟨r, rfl⟩
    | none => exact absurd hfree (search_reuse_none h e (Nat.zero_le _) (by omega)).ne_free

/-- The cell a miss reports can be reused, and the path to it is taken by other keys. -/
theorem lookup_miss_some {c : ℕ} (hk : home k < n) (h : lookup n home cells k = .miss (some c)) :
    c < n ∧ (cells c = .free ∨ cells c = .tomb) ∧
      ∀ e, OnPath n home k c e → TakenFrom cells k e := by
  obtain ⟨hcell, d, -, hd, rfl, htaken⟩ := search_reuse_some h
  refine ⟨probe_lt hk d, hcell, fun e he => ?_⟩
  obtain ⟨i, hi, rfl⟩ := (onPath_probe_iff hk (by omega)).mp he
  exact htaken i (Nat.zero_le _) hi

/-- A miss without a reusable cell means that the whole table is taken by other keys. -/
theorem lookup_miss_none (hk : home k < n) (h : lookup n home cells k = .miss none) :
    ∀ j < n, TakenFrom cells k j := by
  intro j hj
  have htaken := search_reuse_none h (distance n (home k) j) (Nat.zero_le _)
    (by have := distance_lt hk j; omega)
  rwa [probe_distance hk hj] at htaken

end Lookup

end OpenAddressing
