import InFMon.CounterTable.HashedKeys
import InFMon.Plugin.Frames

/-! # The keys in the plugin's tables

Frames count packets under the FNV hash of their key. So in every state that the plugin reaches, the
tables of the API context have each key under this hash, and no slot without a key. -/

namespace InFMon

open DenseArray

/-! ### The API context -/

namespace ApiState

/-- Every table of the context has its keys under their hash. -/
def KeysHashed (st : ApiState) : Prop :=
  ∀ w i t, st.ctx.tables w i = some t → (st.heap.table t).HashedBy fnv1a64

variable {st : ApiState} {es : List RuleEntry}

/-- Undoing what was created leaves the stored keys. -/
theorem KeysHashed.undone (hk : st.KeysHashed) (h : st.Aligned es) {heap : Heap}
    (hundone : st.heap.Undone heap) : ({ st with heap := heap } : ApiState).KeysHashed := by
  intro w i t ht
  have hlt := (h.owning.made w i t ht).1
  show (heap.table t).HashedBy fnv1a64
  rw [hundone.table_eq t hlt]
  exact hk w i t ht

/-- An addition brings tables without keys. -/
theorem KeysHashed.flowRuleAdd (hk : st.KeysHashed) (h : st.Aligned es) (rule : FlowRule)
    (id : Option FlowRuleId) (allocs : ℕ → Alloc) :
    (st.flowRuleAdd rule id allocs).2.KeysHashed := by
  rcases flowRuleAdd_cases h.arranged rule id allocs with
    ⟨-, heap, hundone, hst⟩ | ⟨set, s, hset, hs, hst⟩
  · rw [hst]
    exact hk.undone h hundone
  · rw [hst]
    intro w i t ht
    have hreg := hset.registered rule.register (by simp)
    change s.1 w i = some t at ht
    show (s.2.table t).HashedBy fnv1a64
    rw [hs.tables_eq] at ht
    dsimp only at ht
    split at ht
    · -- a new table
      rename_i hnew
      cases ht
      obtain ⟨hg, hfresh, hslots, hcap⟩ := hs.new_table w hnew.1
      refine hfresh.toEmpty.hashedBy hg ?_
      rw [hcap, hslots]
      exact hreg.capacity_le
    · rw [hs.table_eq t (h.owning.made w i t ht).1]
      exact hk w i t ht

/-- A deletion leaves the stored keys. -/
theorem KeysHashed.flowRuleDel (hk : st.KeysHashed) (h : st.Aligned es) (name : List UInt8) :
    (st.flowRuleDel name).2.KeysHashed := by
  rcases flowRuleDel_cases h name with ⟨hst, -⟩ | ⟨i, -, set, -, -, hst⟩
  · rw [hst]
    exact hk
  · rw [hst]
    exact fun w j t ht => hk w (skip i j) t ht

/-- A snapshot brings tables without keys. -/
theorem KeysHashed.snapshotAndClear (hk : st.KeysHashed) (h : st.Aligned es) (id : FlowRuleId)
    (allocs : ℕ → Alloc) (now : UInt64) : (st.snapshotAndClear id allocs now).2.KeysHashed := by
  rcases snapshotAndClear_cases h.arranged id allocs now with
    ⟨-, heap, hundone, hst⟩ | ⟨i, hi, out, new, r, -, -, hs, -, -, -, hst⟩
  · rw [hst]
    exact hk.undone h hundone
  · rw [hst]
    intro w j t ht
    change out.tables w j = some t at ht
    show (out.heap.table t).HashedBy fnv1a64
    rw [hs.tables_eq] at ht
    split at ht
    · -- a table that was exchanged for an empty one
      obtain ⟨-, -, old, hold, hg, hempty, -, hcap, -⟩ := hs.new_table w t ht
      refine hempty.hashedBy hg ?_
      have hserved := h.served _ (List.getElem_mem hi)
      rw [hcap, ← hserved.capacity w old (h.table_eq hi w ▸ hold)]
      exact (hk w i old hold).capacity_le
    · rw [hs.table_eq t (h.owning.made w j t ht).1]
      exact hk w j t ht

/-- Counting an entry with the hash of its key. -/
theorem KeysHashed.counterUpdateEntry (hk : st.KeysHashed) (row : ℕ → Option ℕ) (tick : UInt64)
    {e : ScratchEntry} (hhash : e.keyHash = fnv1a64 e.keyData.bytes) (hlen : e.keyData.len ≤ 64) :
    ({ st with heap := counterUpdateEntry row tick st.heap e } : ApiState).KeysHashed := by
  unfold InFMon.counterUpdateEntry
  split
  · exact hk
  split
  · exact hk
  rename_i table _
  split
  · exact hk
  rename_i hpos
  intro w i t ht
  show (Function.update st.heap.table table _ t).HashedBy fnv1a64
  by_cases heq : t = table
  · subst heq
    rw [Function.update_self, hhash]
    exact (hk w i t ht).update (Nat.pos_of_ne_zero hpos) hlen e.pktBytes tick
  · rw [Function.update_of_ne heq]
    exact hk w i t ht

end ApiState

/-! ### The plugin -/

namespace Plugin

variable {p : Plugin} {es : List RuleEntry}

/-- Setting up the context leaves the stored keys. -/
theorem keysHashed_ensure (hk : p.api.KeysHashed) (memory : Bool) :
    (p.apiCtxEnsure memory).api.KeysHashed := by
  rcases apiCtxEnsure_cases memory p with heq | ⟨-, ruleSet, -, heq⟩
  · rw [heq]
    exact hk
  · -- a context without tables
    rw [heq]
    intro w i t ht
    cases ht

/-- A request keeps the keys under their hash. -/
theorem keysHashed_serve (hk : p.api.KeysHashed) (h : p.Sound es) (request : Request) :
    (p.serve request).api.KeysHashed := by
  -- publication does not touch the tables, so only the context's operation counts
  have hsnapshot : ∀ env id, (p.snapshotRequest env id).2.api.KeysHashed := by
    intro env id
    rw [snapshotRequest]
    dsimp only
    rw [publishIf_api]
    exact (keysHashed_ensure hk env.memory).snapshotAndClear (h.ensure env.memory).aligned _ _ _
  cases request with
  | flowRuleAdd env mp =>
    have hq := (h.ensure env.memory).aligned
    have hkq := keysHashed_ensure hk env.memory
    rw [serve, flowRuleAddHandler]
    dsimp only
    rw [publishIf_api]
    split
    · exact hkq.flowRuleAdd hq _ _ _
    · exact hkq
  | flowRuleDel env id =>
    have hkq := keysHashed_ensure hk env.memory
    rw [serve, flowRuleDelHandler]
    dsimp only
    split
    · exact hkq
    · split
      · exact hkq
      · rw [publishIf_api]
        exact hkq.flowRuleDel (h.ensure env.memory).aligned _
  | snapshotAndClear env id => exact hsnapshot env id
  | snapshotInlineDump env id =>
    rw [serve, snapshotInlineDumpHandler_snd]
    exact hsnapshot env id

/-- Counting a frame keeps the keys under their hash. -/
theorem keysHashed_countFrame (hk : p.api.KeysHashed) (w : ℕ) {scratch : Scratch}
    (hscratch : ∀ e ∈ scratch.entries, e.Written) : (p.countFrame w scratch).api.KeysHashed := by
  unfold countFrame
  split
  · exact hk
  · unfold counterUpdate
    show ApiState.KeysHashed { p.api with heap := scratch.entries.foldl _ p.api.heap }
    generalize p.api = st at hk
    generalize scratch.entries = entries at hscratch
    induction entries generalizing st with
    | nil => exact hk
    | cons e entries ih =>
      have he := hscratch e List.mem_cons_self
      exact ih _ (hk.counterUpdateEntry (p.main.tables w) p.main.tick he.hash he.len_le)
        fun e' he' => hscratch e' (List.mem_cons_of_mem _ he')

end Plugin

namespace PluginSystem

variable {s : PluginSystem}

/-- The context holds a list of entries, and their tables have all keys under their hash. -/
def Hashing (s : PluginSystem) : Prop := ∃ es, s.plugin.Sound es ∧ s.plugin.api.KeysHashed

/-- At the start no keys are stored. -/
theorem hashing_start (vlibNumWorkers : ℕ) : (start vlibNumWorkers).Hashing :=
  ⟨[], Plugin.sound_start vlibNumWorkers, fun w i t ht => by cases ht⟩

/-- Every event stores keys under their own hashes. -/
theorem Hashing.step (h : s.Hashing) (e : PluginEvent) : (s.step e).Hashing := by
  obtain ⟨es, hs, hk⟩ := h
  obtain ⟨es', hs'⟩ := sound_step hs e
  refine ⟨es', hs', ?_⟩
  cases e with
  | request request => exact Plugin.keysHashed_serve hk hs request
  | frame w buffers =>
    rw [PluginSystem.step, frame]
    split
    · exact hk
    · dsimp only
      split
      · exact hk
      · exact Plugin.keysHashed_countFrame hk w (written_flowMatchNode _ _ _ _)

/-- Every state that is reached has all keys under their hash. -/
theorem Hashing.run (h : s.Hashing) (events : List PluginEvent) :
    (Runs.run PluginSystem.step s events).Hashing :=
  Runs.always h (fun _ e h => h.step e) events

end PluginSystem

end InFMon
