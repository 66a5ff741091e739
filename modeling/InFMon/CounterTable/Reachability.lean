import InFMon.CounterTable.Effects

/-! # Resident keys and their probe paths

When an update finds the slot of a key that is in the table. Lookups stop at the first free slot, so
a key is found as long as no free slot lies on the path from its home slot to its own. Deleting a key
leaves a tombstone and keeps the paths, but an update that claims a slot and then finds the arena
exhausted sets that slot free, whatever it was before.

* `ResidentsCounted` and `ProbePathsClear` are the two readings of reachability.
* `KeepsPaths` is the condition on one update under which its rollback, if it comes to one, cuts no
  path.
* `Uniform` is what holds of every table whose keys all have the width it was created for. -/

namespace InFMon

open MachineWord OpenAddressing

namespace CounterTable

/-! ### Reachability -/

/-- Another packet of any resident key is counted in the slot that holds the key, and nowhere
else. -/
def ResidentsCounted (hash : Key → UInt64) (t : CounterTable) : Prop :=
  ∀ j < t.numSlots, ∀ key : Key, t.key (t.slots j) = some key.bytes → ∀ pktBytes tick : UInt64,
    (t.update (hash key) key pktBytes tick).1 = true ∧
    (t.update (hash key) key pktBytes tick).2.slots = Function.update t.slots j
      { t.slots j with
        packets := (t.slots j).packets + 1
        bytes := (t.slots j).bytes + pktBytes
        lastUpdate := tick }

/-- No free slot lies between the home slot of a resident key and the slot that holds it. -/
def ProbePathsClear (t : CounterTable) : Prop :=
  ∀ j < t.numSlots, (t.slots j).flags = .occupied →
    ∀ c, OnPath t.numSlots t.home (t.storedKey j) j c → (t.slots c).flags ≠ .free

/-- The probe paths are clear when the table is intact as an open-addressing table. -/
theorem probePathsClear_iff {t : CounterTable} :
    t.ProbePathsClear ↔ Intact t.numSlots t.home t.cell := by
  constructor
  · intro h j hj k hk c hc
    obtain ⟨hocc, rfl⟩ := cell_eq_full_iff.mp hk
    rw [ne_eq, cell_eq_free_iff]
    exact h j hj hocc c hc
  · intro h j hj hocc c hc
    rw [ne_eq, ← cell_eq_free_iff]
    exact h j hj _ (cell_eq_full_iff.mpr ⟨hocc, rfl⟩) c hc

/-! ### The condition on one update -/

/-- Slot `r` is the one that an update of a key not in the table claims: the first slot of the probe
sequence that is not occupied or, in a table without any, the victim of the eviction scan. -/
def WouldClaim (t : CounterTable) (keyHash : UInt64) (r : ℕ) : Prop :=
  (∃ d < t.numSlots, t.probeIdx (t.homeSlot keyHash) d = r ∧ (t.slots r).flags ≠ .occupied ∧
    ∀ e < d, (t.slots (t.probeIdx (t.homeSlot keyHash) e)).flags = .occupied) ∨
  (∀ j < t.numSlots, (t.slots j).flags = .occupied) ∧ t.lruVictim (t.homeSlot keyHash) = some r

/-- An update that cannot cut a probe path: the key is resident, the arena has room for it, or the
slot it claims is free already or on no path of another resident key. -/
def KeepsPaths (hash : Key → UInt64) (t : CounterTable) (key : Key) : Prop :=
  (∃ j < t.numSlots, t.key (t.slots j) = some key.bytes) ∨
  t.keyArenaUsed + key.len ≤ t.keyArenaCapacity ∨
  ∀ r, t.WouldClaim (hash key) r → (t.slots r).flags = .free ∨
    ∀ j < t.numSlots, j ≠ r → (t.slots j).flags = .occupied →
      ¬ OnPath t.numSlots t.home (t.storedKey j) j r

/-! ### Tables whose keys have one width -/

/-- A table that was created for keys of length `width`, and has been updated with such keys
only. -/
structure Uniform (hash : Key → UInt64) (width : ℕ) (t : CounterTable) : Prop extends t.Settled where
  width_pos : 0 < width
  /-- The end of a new key never wraps around. -/
  room : ∀ key : Key, key.len = width → t.keyArenaCapacity + width ≤ max32
  keyed : ∀ j < t.numSlots, ∀ k, t.cell j = .full k →
    ∃ key : Key, key.len = width ∧ k = (hash key, key.bytes)
  distinct : Distinct t.numSlots t.cell
  /-- Paths are cut only once the arena is exhausted, and then no key is stored any more. -/
  intact_or_full : Intact t.numSlots t.home t.cell ∨ t.keyArenaCapacity < t.keyArenaUsed + width

/-- An empty table is uniform for keys that it has room for. -/
theorem Empty.uniform {t : CounterTable} (hg : t.Geometry) (h : t.Empty) (hash : Key → UInt64)
    {width : ℕ} (hwidth : 0 < width)
    (hroom : ∀ key : Key, key.len = width → t.keyArenaCapacity + width ≤ max32) :
    t.Uniform hash width ∧ Intact t.numSlots t.home t.cell := by
  have hfree : ∀ j, t.cell j = .free := fun j => by
    rw [cell_eq_free_iff, h.slots j]
    rfl
  have hintact : Intact t.numSlots t.home t.cell := fun j _ k hk => by simp [hfree j] at hk
  refine ⟨?_, hintact⟩
  refine { toSettled := h.settled hg, width_pos := hwidth, room := hroom, keyed := ?_,
           distinct := ?_, intact_or_full := Or.inl hintact }
  · intro j _ k hk
    simp [hfree j] at hk
  · intro i _ j _ k hk
    simp [hfree i] at hk

/-- A new table is uniform and intact. -/
theorem uniform_of_create {maxKeys width : ℕ} {alloc : Alloc} {t : CounterTable}
    (hash : Key → UInt64) (h : counterTableCreate maxKeys width alloc = some t) :
    t.Uniform hash width ∧ Intact t.numSlots t.home t.cell := by
  obtain ⟨-, -, hwidth, hg, hfresh, -, hcap⟩ := counterTableCreate_some h
  refine hfresh.toEmpty.uniform hg hash hwidth fun key hkey => ?_
  obtain ⟨k, -, hk⟩ := hg.pow
  have hlen := key.length_lt
  rw [Key.len] at hkey
  rw [hcap]
  exact capacity_add_width_le ⟨k, hk⟩ (hcap ▸ hg.capacity) (by omega)

namespace Uniform

variable {hash : Key → UInt64} {width : ℕ} {t : CounterTable} {key : Key}

/-- The sum of the bytes used and of a key has 32 bits. -/
theorem used_add_le (h : t.Uniform hash width) (hkey : key.len = width) :
    t.keyArenaUsed + key.len ≤ max32 := by
  have := h.used_le
  have := h.room key hkey
  omega

/-- The number of bytes used is not the largest one. -/
theorem used_lt (h : t.Uniform hash width) (hkey : key.len = width) : t.keyArenaUsed < max32 := by
  have := h.used_add_le hkey
  have := h.width_pos
  omega

/-- A resident key is stored under its own hash. -/
theorem cell_of_key (h : t.Uniform hash width) {j : ℕ} (hj : j < t.numSlots)
    (hkey : t.key (t.slots j) = some key.bytes) :
    t.cell j = .full (hash key, key.bytes) ∧ key.len = width := by
  obtain ⟨hocc, hbytes⟩ := (h.key_eq_some_iff hj).mp hkey
  obtain ⟨key', hlen, hstored⟩ := h.keyed j hj _ (cell_eq_full_iff.mpr ⟨hocc, rfl⟩)
  obtain rfl : key' = key := Key.ext (by rw [← hbytes, hstored])
  exact ⟨cell_eq_full_iff.mpr ⟨hocc, hstored⟩, hlen⟩

/-- Resident keys are counted exactly when no free slot lies on their probe paths. -/
theorem residentsCounted_iff (h : t.Uniform hash width) :
    t.ResidentsCounted hash ↔ t.ProbePathsClear := by
  rw [probePathsClear_iff]
  constructor
  · intro hcounted
    by_contra hcut
    rw [Intact] at hcut
    push Not at hcut
    obtain ⟨j, hj, k, hk, c, hpath, hfree⟩ := hcut
    -- the key of slot `j` cannot be found, and no new slot can take it
    obtain ⟨hocc, hstored⟩ := cell_eq_full_iff.mp hk
    obtain ⟨key, hlen, rfl⟩ := h.keyed j hj k hk
    have hbytes : t.key (t.slots j) = some key.bytes :=
      (h.key_eq_some_iff hj).mpr ⟨hocc, by rw [hstored]⟩
    obtain ⟨r, hmiss⟩ := lookup_eq_miss (h.home_lt _) h.distinct hj hk hpath hfree
    have hfull : t.keyArenaCapacity < t.keyArenaUsed + width := by
      refine h.intact_or_full.resolve_left fun hintact => ?_
      exact hintact j hj _ hk c hpath hfree
    have hupdate := (hcounted j hj key hbytes 0 0).1
    rw [h.update_eq (h.used_lt hlen) (h.used_add_le hlen), hmiss] at hupdate
    simp only [storeAt] at hupdate
    rw [if_neg (by omega)] at hupdate
    exact Bool.false_ne_true hupdate
  · intro hintact j hj key hkey pktBytes tick
    obtain ⟨hcell, hlen⟩ := h.cell_of_key hj hkey
    have hhit := lookup_eq_hit (h.home_lt _) hintact h.distinct hj hcell
    rw [h.update_eq (h.used_lt hlen) (h.used_add_le hlen), hhit]
    exact ⟨rfl, rfl⟩

/-- Changes that store no key keep a table uniform. -/
theorem mono {t' : CounterTable} (h : t.Uniform hash width) (hs : t'.Settled)
    (hn : t'.numSlots = t.numSlots) (hcap : t'.keyArenaCapacity = t.keyArenaCapacity)
    (hsub : ∀ j < t.numSlots, ∀ k, t'.cell j = .full k → t.cell j = .full k)
    (hpaths : Intact t'.numSlots t'.home t'.cell ∨
      t'.keyArenaCapacity < t'.keyArenaUsed + width) : t'.Uniform hash width where
  toSettled := hs
  width_pos := h.width_pos
  room key hkey := hcap ▸ h.room key hkey
  keyed j hj k hk := h.keyed j (hn ▸ hj) k (hsub j (hn ▸ hj) k hk)
  distinct := hn ▸ h.distinct.mono hsub
  intact_or_full := hpaths

/-- Changes that leave all cells and the arena alone keep a table uniform. -/
theorem of_cell_eq {t' : CounterTable} (h : t.Uniform hash width) (hs : t'.Settled)
    (hn : t'.numSlots = t.numSlots) (hhome : t'.home = t.home) (hcell : t'.cell = t.cell)
    (hcap : t'.keyArenaCapacity = t.keyArenaCapacity) (hused : t'.keyArenaUsed = t.keyArenaUsed) :
    t'.Uniform hash width :=
  h.mono hs hn hcap (fun _ _ _ hk => hcell ▸ hk)
    (by rw [hn, hhome, hcell, hcap, hused]; exact h.intact_or_full)

/-- Evicting a key keeps a table uniform, and its paths as they are. -/
theorem evict (h : t.Uniform hash width) (v : ℕ) : (t.noteFull.evictSlot v).Uniform hash width := by
  have hcell : (t.noteFull.evictSlot v).cell = Function.update t.cell v .tomb :=
    evictSlot_cell v
  refine h.mono (h.note.evict v) rfl rfl (fun j _ k hk => ?_) ?_
  · rw [hcell] at hk
    by_cases hjv : j = v
    · simp [hjv] at hk
    · rwa [Function.update_of_ne hjv] at hk
  · rw [hcell]
    exact h.intact_or_full.imp_left fun hintact => hintact.bury

/-- Storing a key that is not in the table, or giving up its slot when the arena is exhausted. The
paths survive unless the slot given up lies on one. -/
theorem store (h : t.Uniform hash width) (key : Key) (hlen : key.len = width) {r : ℕ}
    (hnew : Intact t.numSlots t.home t.cell →
      ∀ j < t.numSlots, t.cell j ≠ .full (hash key, key.bytes))
    (hpath : ∀ c, OnPath t.numSlots t.home (hash key, key.bytes) r c → t.cell c ≠ .free)
    (pktBytes tick : UInt64) :
    (t.storeAt r (hash key) key pktBytes tick).2.Uniform hash width ∧
    (Intact t.numSlots t.home t.cell →
      ((t.storeAt r (hash key) key pktBytes tick).2.ProbePathsClear ↔
        t.keyArenaUsed + key.len ≤ t.keyArenaCapacity ∨
        ∀ j < t.numSlots, ∀ k, j ≠ r → t.cell j = .full k →
          ¬ OnPath t.numSlots t.home k j r)) := by
  rw [storeAt]
  split
  · -- the arena has room, so no path is cut yet and the key is stored
    rename_i hfits
    have hintact : Intact t.numSlots t.home t.cell :=
      h.intact_or_full.resolve_right (by omega)
    have hcell := fun j hj => h.placeKey_cell r (j := j) hj (hash key) pktBytes tick key
    have hstored : Intact t.numSlots t.home (t.placeKey r (hash key) key pktBytes tick).cell :=
      (hintact.store hpath).congr h.home_lt hcell
    refine ⟨?_, fun _ => iff_of_true (probePathsClear_iff.mpr hstored) (Or.inl hfits)⟩
    refine { toSettled := h.place hfits (hash key) pktBytes tick, width_pos := h.width_pos,
             room := h.room, keyed := ?_, distinct := ?_, intact_or_full := Or.inl hstored }
    · intro j hj k hk
      rw [hcell j hj] at hk
      by_cases hjr : j = r
      · subst hjr
        rw [Function.update_self, Cell.full.injEq] at hk
        exact ⟨key, hlen, hk.symm⟩
      · rw [Function.update_of_ne hjr] at hk
        exact h.keyed j hj k hk
    · exact (h.distinct.store (hnew hintact)).mono fun j hj k hk => hcell j hj ▸ hk
  · -- the arena is exhausted, and the slot is set free
    rename_i hfits
    have hcell : (t.releaseSlot r).cell = Function.update t.cell r .free := releaseSlot_cell r
    constructor
    · refine h.mono (h.release r) rfl rfl (fun j _ k hk => ?_) (Or.inr ?_)
      · rw [hcell] at hk
        by_cases hjr : j = r
        · simp [hjr] at hk
        · rwa [Function.update_of_ne hjr] at hk
      · show t.keyArenaCapacity < t.keyArenaUsed + width
        omega
    · intro hintact
      rw [probePathsClear_iff, hcell, or_iff_right hfits]
      exact hintact.release_iff

end Uniform

/-! ### The slot an update claims -/

/-- If the lookup passed a reusable slot, the update claims it. -/
theorem Settled.wouldClaim_miss_some {t : CounterTable} (h : t.Settled) {keyHash : UInt64}
    {bytes : List UInt8} {r : ℕ}
    (hmiss : lookup t.numSlots t.home t.cell (keyHash, bytes) = .miss (some r)) (r' : ℕ) :
    t.WouldClaim keyHash r' ↔ r' = r := by
  have hstart : t.home (keyHash, bytes) < t.numSlots := h.home_lt _
  obtain ⟨hr, hreuse, htaken⟩ := lookup_miss_some hstart hmiss
  have hflags : (t.slots r).flags ≠ .occupied := by
    intro hocc
    rcases hreuse with hr | hr <;> simp [cell, hocc] at hr
  -- the slots before `r` on the probe sequence are occupied
  have hbefore : ∀ e < distance t.numSlots (t.homeSlot keyHash) r,
      (t.slots (t.probeIdx (t.homeSlot keyHash) e)).flags = .occupied := by
    intro e he
    rw [h.probeIdx_eq]
    exact h.occupied_of_taken (probe_lt hstart e) (htaken _ ⟨e, he, rfl⟩)
  have hprobe : t.probeIdx (t.homeSlot keyHash) (distance t.numSlots (t.homeSlot keyHash) r) = r := by
    rw [h.probeIdx_eq]
    exact probe_distance hstart hr
  constructor
  · rintro (⟨d, -, hd, hfree, hocc⟩ | ⟨hall, -⟩)
    · -- two first slots of one sequence that are not occupied
      rcases lt_trichotomy d (distance t.numSlots (t.homeSlot keyHash) r) with hlt | heq | hgt
      · exact absurd (hd ▸ hbefore d hlt) hfree
      · rw [← hd, heq, hprobe]
      · exact absurd (hprobe ▸ hocc _ hgt) hflags
    · exact absurd (hall r hr) hflags
  · rintro rfl
    exact Or.inl ⟨_, distance_lt hstart r', hprobe, hflags, hbefore⟩

/-- If the lookup passed none, the update claims the slot of the victim. -/
theorem Settled.wouldClaim_miss_none {t : CounterTable} (h : t.Settled) {keyHash : UInt64}
    {bytes : List UInt8}
    (hmiss : lookup t.numSlots t.home t.cell (keyHash, bytes) = .miss none) (r : ℕ) :
    t.WouldClaim keyHash r ↔ t.lruVictim (t.homeSlot keyHash) = some r := by
  have hall : ∀ j < t.numSlots, (t.slots j).flags = .occupied := fun j hj =>
    h.occupied_of_taken hj (lookup_miss_none (h.home_lt (keyHash, bytes)) hmiss j hj)
  constructor
  · rintro (⟨d, -, rfl, hfree, -⟩ | ⟨-, hvictim⟩)
    · rw [h.probeIdx_eq] at hfree
      exact absurd (hall _ (probe_lt (h.homeSlot_lt keyHash) d)) hfree
    · exact hvictim
  · exact fun hvictim => Or.inr ⟨hall, hvictim⟩

/-! ### Steps and runs -/

/-- An update of a key that the lookup misses keeps the paths under this reading of
`KeepsPaths`. -/
theorem keepsPaths_miss_iff {t : CounterTable} {hash : Key → UInt64} {key : Key}
    (hintact : Intact t.numSlots t.home t.cell)
    (hmiss : ∀ j < t.numSlots, t.key (t.slots j) ≠ some key.bytes) {P : ℕ → Prop}
    (hclaim : ∀ r, t.WouldClaim (hash key) r ↔ P r) :
    t.KeepsPaths hash key ↔
      t.keyArenaUsed + key.len ≤ t.keyArenaCapacity ∨
        ∀ r, P r → ∀ j < t.numSlots, ∀ k, j ≠ r → t.cell j = .full k →
          ¬ OnPath t.numSlots t.home k j r := by
  have hresident : ¬ ∃ j < t.numSlots, t.key (t.slots j) = some key.bytes := by
    rintro ⟨j, hj, hkey⟩
    exact hmiss j hj hkey
  rw [KeepsPaths, or_iff_right hresident]
  refine or_congr_right (forall_congr' fun r => ?_)
  rw [hclaim r]
  refine imp_congr_right fun _ => ?_
  constructor
  · rintro (hfree | hoff) j hj k hjr hk
    · -- a slot that is free already is on no path
      exact fun hpath => hintact j hj k hk r hpath (cell_eq_free_iff.mpr hfree)
    · obtain ⟨hocc, rfl⟩ := cell_eq_full_iff.mp hk
      exact hoff j hj hjr hocc
  · exact fun hoff => Or.inr fun j hj hjr hocc =>
      hoff j hj _ hjr (cell_eq_full_iff.mpr ⟨hocc, rfl⟩)

/-- One update keeps a table uniform. If it finds all probe paths clear, it leaves them clear exactly
under `KeepsPaths`. -/
theorem Uniform.step {hash : Key → UInt64} {width : ℕ} {t : CounterTable} (h : t.Uniform hash width)
    {op : UpdateOp} (hlen : op.key.len = width) :
    (t.updateOp hash op).2.Uniform hash width ∧
    (t.ProbePathsClear → ((t.updateOp hash op).2.ProbePathsClear ↔ t.KeepsPaths hash op.key)) := by
  have hstart := h.home_lt (hash op.key, op.key.bytes)
  rw [updateOp, h.update_eq (h.used_lt hlen) (h.used_add_le hlen)]
  -- a key that the lookup misses is not resident
  have habsent : ∀ r, lookup t.numSlots t.home t.cell (hash op.key, op.key.bytes) = .miss r →
      Intact t.numSlots t.home t.cell →
        (∀ j < t.numSlots, t.cell j ≠ .full (hash op.key, op.key.bytes)) ∧
        ∀ j < t.numSlots, t.key (t.slots j) ≠ some op.key.bytes := by
    intro r hmiss hintact
    have hnone := lookup_miss hstart hintact hmiss
    exact ⟨hnone, fun j hj hkey => hnone j hj (h.cell_of_key hj hkey).1⟩
  cases hlook : lookup t.numSlots t.home t.cell (hash op.key, op.key.bytes) with
  | hit j =>
    -- the key is resident, and its packet is counted
    obtain ⟨hj, hcell⟩ := lookup_hit hstart hlook
    obtain ⟨hocc, hstored⟩ := cell_eq_full_iff.mp hcell
    refine ⟨h.of_cell_eq (h.bump j _ _) rfl rfl (bumpSlot_cell j _ _) rfl rfl, fun hclear => ?_⟩
    refine iff_of_true ?_ (Or.inl ⟨j, hj, (h.key_eq_some_iff hj).mpr ⟨hocc, by rw [hstored]⟩⟩)
    rw [probePathsClear_iff] at hclear ⊢
    simpa using hclear
  | miss reuse =>
    cases reuse with
    | some r =>
      -- the slot passed by the lookup is claimed
      obtain ⟨-, -, htaken⟩ := lookup_miss_some hstart hlook
      have hstore := h.store op.key hlen (r := r) (fun hi => (habsent _ hlook hi).1)
        (fun c hc => (htaken c hc).ne_free) op.pktBytes op.tick
      refine ⟨hstore.1, fun hclear => ?_⟩
      have hintact := probePathsClear_iff.mp hclear
      rw [hstore.2 hintact, keepsPaths_miss_iff hintact (habsent _ hlook hintact).2
        (h.wouldClaim_miss_some hlook), forall_eq]
    | none =>
      have htaken := lookup_miss_none hstart hlook
      have hclaim := h.wouldClaim_miss_none hlook
      simp only
      cases hvictim : t.lruVictim (t.homeSlot (hash op.key)) with
      | none =>
        -- no victim: the update fails and changes two counters
        refine ⟨h.of_cell_eq h.note.fail rfl rfl rfl rfl rfl, fun hclear => ?_⟩
        refine iff_of_true hclear (Or.inr (Or.inr fun r hr => ?_))
        rw [hclaim, hvictim] at hr
        cases hr
      | some v =>
        -- the victim's slot is claimed
        have hcell : (t.noteFull.evictSlot v).cell = Function.update t.cell v .tomb :=
          evictSlot_cell v
        have hother : ∀ j < t.numSlots, (t.noteFull.evictSlot v).cell j ≠ .free ∧
            (t.noteFull.evictSlot v).cell j ≠ .full (hash op.key, op.key.bytes) := by
          intro j hj
          rw [hcell]
          by_cases hjv : j = v
          · simp [hjv]
          · rw [Function.update_of_ne hjv]
            exact ⟨(htaken j hj).ne_free, (htaken j hj).ne_full⟩
        have hstore := (h.evict v).store op.key hlen (r := v)
          (fun _ j hj => (hother j hj).2)
          (fun c hc => (hother c (onPath_lt hstart hc)).1) op.pktBytes op.tick
        refine ⟨hstore.1, fun hclear => ?_⟩
        have hintact := probePathsClear_iff.mp hclear
        rw [hstore.2 (hcell ▸ hintact.bury), keepsPaths_miss_iff hintact (habsent _ hlook hintact).2
          hclaim, hvictim]
        simp only [Option.some.injEq, forall_eq', hcell]
        refine or_congr_right (forall₄_congr fun j _ k hjv => ?_)
        rw [Function.update_of_ne hjv]
        rfl

/-- Every state of a run of updates with keys of one width is uniform. -/
theorem Uniform.run {hash : Key → UInt64} {width : ℕ} {t : CounterTable} (h : t.Uniform hash width)
    {ops : List UpdateOp} (hlen : ∀ op ∈ ops, op.key.len = width) :
    (t.run hash ops).Uniform hash width := by
  induction ops generalizing t with
  | nil => exact h
  | cons op ops ih =>
    exact ih (h.step (hlen op (List.mem_cons_self ..))).1
      fun op' hop' => hlen op' (List.mem_cons_of_mem _ hop')

/-- From clear paths, every state of a run has clear paths exactly when every update of it keeps the
paths. -/
theorem Uniform.run_clear_iff {hash : Key → UInt64} {width : ℕ} {t : CounterTable}
    (h : t.Uniform hash width) (hclear : t.ProbePathsClear) {ops : List UpdateOp}
    (hlen : ∀ op ∈ ops, op.key.len = width) :
    (∀ pre, pre <+: ops → (t.run hash pre).ProbePathsClear) ↔
      ∀ pre op, pre ++ [op] <+: ops → (t.run hash pre).KeepsPaths hash op.key := by
  induction ops generalizing t with
  | nil =>
    refine iff_of_true (fun pre hpre => ?_) (fun pre op hpre => ?_)
    · rwa [List.prefix_nil.mp hpre]
    · simp at hpre
  | cons op ops ih =>
    -- the first update keeps the paths iff its key may be stored; the rest is the hypothesis
    obtain ⟨hnext, hstep⟩ := h.step (hlen op (List.mem_cons_self ..))
    have hlen' : ∀ op' ∈ ops, op'.key.len = width := fun op' hop' =>
      hlen op' (List.mem_cons_of_mem _ hop')
    constructor
    · intro hall
      have hclear' : (t.updateOp hash op).2.ProbePathsClear := hall [op] (by simp)
      have hrest := (ih hnext hclear' hlen').mp fun pre hpre =>
        hall (op :: pre) (List.cons_prefix_cons.mpr ⟨rfl, hpre⟩)
      rintro (_ | ⟨op₁, pre⟩) op' hpre
      · -- the first update
        obtain ⟨rfl, -⟩ := List.cons_prefix_cons.mp hpre
        exact (hstep hclear).mp hclear'
      · obtain ⟨rfl, hpre'⟩ := List.cons_prefix_cons.mp hpre
        exact hrest pre op' hpre'
    · intro hall
      have hclear' : (t.updateOp hash op).2.ProbePathsClear :=
        (hstep hclear).mpr (hall [] op (by simp))
      have hrest := (ih hnext hclear' hlen').mpr fun pre op' hpre =>
        hall (op :: pre) op' (List.cons_prefix_cons.mpr ⟨rfl, hpre⟩)
      rintro (_ | ⟨op₁, pre⟩) hpre
      · exact hclear
      · obtain ⟨rfl, hpre'⟩ := List.cons_prefix_cons.mp hpre
        exact hrest pre hpre'

/-- Over a run of updates with keys of the width the table was created for, the two readings of
reachability agree in every state, and they hold in every state exactly when every update of the run
keeps the probe paths. -/
theorem residents_reachable_iff {maxKeys width : ℕ} {alloc : Alloc} {t : CounterTable}
    (hcreate : counterTableCreate maxKeys width alloc = some t) (hash : Key → UInt64)
    {ops : List UpdateOp} (hlen : ∀ op ∈ ops, op.key.len = width) :
    (∀ pre, pre <+: ops →
      ((t.run hash pre).ResidentsCounted hash ↔ (t.run hash pre).ProbePathsClear)) ∧
    ((∀ pre, pre <+: ops → (t.run hash pre).ResidentsCounted hash) ↔
      ∀ pre op, pre ++ [op] <+: ops → (t.run hash pre).KeepsPaths hash op.key) := by
  obtain ⟨huniform, hintact⟩ := uniform_of_create hash hcreate
  have hagree : ∀ pre, pre <+: ops →
      ((t.run hash pre).ResidentsCounted hash ↔ (t.run hash pre).ProbePathsClear) :=
    fun pre hpre => (huniform.run fun op hop => hlen op (hpre.subset hop)).residentsCounted_iff
  refine ⟨hagree, ?_⟩
  rw [← huniform.run_clear_iff (probePathsClear_iff.mpr hintact) hlen]
  exact forall₂_congr hagree

/-- Three keys of one byte. With one home slot in a table of two, the third evicts the first and then
finds the arena exhausted. -/
def threeKeys : List UpdateOp :=
  [⟨.one 0, 64, 1⟩, ⟨.one 1, 64, 2⟩, ⟨.one 2, 64, 3⟩]

/-- The first two updates of `threeKeys` keep the paths. -/
theorem residents_reachable_two : ∃ t, counterTableCreate 2 1 ⟨true, fun _ => 0⟩ = some t ∧
    ∀ pre, pre <+: threeKeys.take 2 → (t.run (fun _ => 0) pre).ResidentsCounted fun _ => 0 := by
  refine ⟨_, rfl, (residents_reachable_iff
    (show counterTableCreate 2 1 ⟨true, fun _ => 0⟩ = some _ from rfl) (fun _ => 0) (by decide)).2.mpr ?_⟩
  -- the arena has room for both keys
  rintro (_ | ⟨op₁, _ | ⟨op₂, pre⟩⟩) op hpre
  · simp only [threeKeys, List.take, List.nil_append, List.cons_prefix_cons] at hpre
    exact Or.inr (Or.inl (by rw [hpre.1]; decide))
  · simp only [threeKeys, List.take, List.cons_append, List.nil_append,
      List.cons_prefix_cons] at hpre
    exact Or.inr (Or.inl (by rw [hpre.1, hpre.2.1]; decide))
  · simp [threeKeys] at hpre

/-- After the rollback of the third update, the second key is resident in slot 1 behind the free slot
0, and another packet of it is dropped. -/
theorem resident_key_cut_off : ∃ t, counterTableCreate 2 1 ⟨true, fun _ => 0⟩ = some t ∧
    ¬ (t.run (fun _ => 0) threeKeys).ResidentsCounted (fun _ => 0) ∧
    ¬ (t.run (fun _ => 0) threeKeys).ProbePathsClear := by
  refine ⟨_, rfl, fun hcounted => ?_, fun hclear => ?_⟩
  · have h := hcounted 1 (by decide) ⟨[1], by decide⟩ (by decide) 64 4
    exact absurd h.1 (by decide)
  · exact hclear 1 (by decide) (by decide) 0 ⟨0, by decide, by decide⟩ (by decide)

end CounterTable

end InFMon
