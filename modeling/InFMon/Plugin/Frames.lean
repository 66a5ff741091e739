import InFMon.DataPath.Dispatch
import InFMon.Foundations.Runs
import InFMon.Plugin.Context

/-! # Frames in the plugin

A worker takes a frame through the three graph nodes: the frame is decapsulated, its mirrored packets
are matched against the published rules, and the entries that this leaves in the worker's scratch
vector are counted in the published tables. -/

namespace InFMon

/-! ### The system -/

/-- The plugin with the scratch vectors and key buffers of its workers. -/
structure PluginSystem where
  plugin : Plugin
  scratch : ℕ → Scratch
  keyBuf : ℕ → ByteMemory

namespace Plugin

/-- Count the entries of a scratch vector in the published tables of a worker. -/
def countFrame (w : ℕ) (scratch : Scratch) (p : Plugin) : Plugin :=
  if w ≥ maxWorkers then p
  else
    { p with
      api := { p.api with
        heap := counterUpdate scratch (p.main.tables w) p.main.tick p.api.heap }
      main := { p.main with tick := p.main.tick + 1 } }

end Plugin

namespace PluginSystem

/-- The system as the plugin is loaded. -/
def start (vlibNumWorkers : ℕ) : PluginSystem where
  plugin := .start vlibNumWorkers
  scratch := fun _ => .reset
  keyBuf := fun _ => fun _ => 0

/-- Worker `w` takes a frame through the nodes. Nodes that no buffer reaches do not run. -/
def frame (w : ℕ) (buffers : List Buffer) (s : PluginSystem) : PluginSystem :=
  match buffers.filterMap fun b => (decapBuffer b).toOption with
  | [] => s
  | inner =>
    let pass :=
      flowMatchNode s.plugin.publishedRules s.plugin.publishedCount inner (s.keyBuf w)
    let keyBuf := Function.update s.keyBuf w pass.keyBuf
    if pass.toCounter = 0 then
      { s with keyBuf := keyBuf, scratch := Function.update s.scratch w pass.scratch }
    else
      { plugin := s.plugin.countFrame w pass.scratch
        scratch := Function.update s.scratch w (if w ≥ maxWorkers then pass.scratch else .reset)
        keyBuf := keyBuf }

end PluginSystem

/-- What happens to the system: a request of the binary API, or a frame on a worker. -/
inductive PluginEvent where
  | request (request : Plugin.Request)
  | frame (w : ℕ) (buffers : List Buffer)

/-- One event. -/
def PluginSystem.step (s : PluginSystem) : PluginEvent → PluginSystem
  | .request request => { s with plugin := s.plugin.serve request }
  | .frame w buffers => s.frame w buffers

/-! ### Frames write to tables only -/

namespace Plugin

variable {p : Plugin} {es : List RuleEntry}

/-- Counting an entry keeps the entries of the context. -/
theorem aligned_counterUpdateEntry {st : ApiState} (h : st.Aligned es) (row : ℕ → Option ℕ)
    (tick : UInt64) (e : ScratchEntry) :
    ({ st with heap := counterUpdateEntry row tick st.heap e } : ApiState).Aligned es := by
  unfold counterUpdateEntry
  split
  · exact h
  split
  · exact h
  · split
    · exact h
    · exact h.updated ..

/-- The updates of a frame keep the alignment. -/
theorem aligned_counterUpdate {st : ApiState} (h : st.Aligned es) (row : ℕ → Option ℕ)
    (tick : UInt64) (entries : List ScratchEntry) :
    ({ st with heap := entries.foldl (counterUpdateEntry row tick) st.heap } : ApiState).Aligned
      es := by
  induction entries generalizing st with
  | nil => exact h
  | cons e entries ih => exact ih (aligned_counterUpdateEntry h row tick e)

/-- An update neither creates nor destroys a table. -/
theorem counterUpdateEntry_next (row : ℕ → Option ℕ) (tick : UInt64) (heap : Heap)
    (e : ScratchEntry) : (counterUpdateEntry row tick heap e).next = heap.next ∧
      (counterUpdateEntry row tick heap e).destroyed = heap.destroyed := by
  unfold counterUpdateEntry
  split
  · exact ⟨rfl, rfl⟩
  split
  · exact ⟨rfl, rfl⟩
  · split
    · exact ⟨rfl, rfl⟩
    · exact ⟨rfl, rfl⟩

/-- Counting creates and destroys no table. -/
theorem counterUpdate_next (scratch : Scratch) (row : ℕ → Option ℕ) (tick : UInt64) (heap : Heap) :
    (counterUpdate scratch row tick heap).next = heap.next ∧
      (counterUpdate scratch row tick heap).destroyed = heap.destroyed := by
  unfold counterUpdate
  generalize scratch.entries = entries
  induction entries generalizing heap with
  | nil => exact ⟨rfl, rfl⟩
  | cons e entries ih =>
    rw [List.foldl_cons]
    obtain ⟨hnext, hdestroyed⟩ := counterUpdateEntry_next row tick heap e
    obtain ⟨hnext', hdestroyed'⟩ := ih (counterUpdateEntry row tick heap e)
    exact ⟨hnext'.trans hnext, hdestroyed'.trans hdestroyed⟩

/-- Counting one entry keeps the context. -/
theorem Sound.countEntry (h : p.Sound es) (row : ℕ → Option ℕ) (tick : UInt64) (e : ScratchEntry) :
    ({ p with api := { p.api with
      heap := counterUpdateEntry row tick p.heap e } } : Plugin).Sound es where
  aligned := aligned_counterUpdateEntry h.aligned row tick e
  fresh hf := by
    obtain ⟨hes, hnext, hdestroyed, hmgr, hcount⟩ := h.fresh hf
    obtain ⟨hn, hd⟩ := counterUpdateEntry_next row tick p.heap e
    exact ⟨hes, hn.trans hnext, hd.trans hdestroyed, hmgr, hcount⟩
  context := h.context

/-- The updates of a frame keep the plugin sound. -/
theorem Sound.countFrame (h : p.Sound es) (w : ℕ) (scratch : Scratch) :
    (p.countFrame w scratch).Sound es := by
  unfold Plugin.countFrame
  split
  · exact h
  · refine { aligned := aligned_counterUpdate h.aligned _ _ _, fresh := ?_, context := h.context }
    intro hf
    obtain ⟨hes, hnext, hdestroyed, hmgr, hcount⟩ := h.fresh hf
    obtain ⟨hn, hd⟩ := counterUpdate_next scratch (p.main.tables w) p.main.tick p.api.heap
    exact ⟨hes, hn.trans hnext, hd.trans hdestroyed, hmgr, hcount⟩

/-- A frame does not touch the snapshot manager. -/
theorem countFrame_mgr (w : ℕ) (scratch : Scratch) (p : Plugin) :
    (p.countFrame w scratch).api.mgr = p.api.mgr := by
  unfold Plugin.countFrame
  split
  · rfl
  · rfl

end Plugin

namespace PluginSystem

variable {s : PluginSystem} {es : List RuleEntry}

/-- What a frame does to the plugin. -/
theorem frame_plugin (w : ℕ) (buffers : List Buffer) (s : PluginSystem) :
    (s.frame w buffers).plugin = s.plugin ∨
      ∃ scratch, (s.frame w buffers).plugin = s.plugin.countFrame w scratch := by
  unfold frame
  split
  · exact Or.inl rfl
  · dsimp only
    split
    · exact Or.inl rfl
    · exact Or.inr ⟨_, rfl⟩

/-- After every event the context holds a list of entries. -/
theorem sound_step (h : s.plugin.Sound es) (e : PluginEvent) :
    ∃ es', (s.step e).plugin.Sound es' := by
  cases e with
  | request request => exact h.serve request
  | frame w buffers =>
    rcases s.frame_plugin w buffers with heq | ⟨scratch, heq⟩
    · exact ⟨es, heq ▸ h⟩
    · exact ⟨es, heq ▸ h.countFrame w scratch⟩

/-- Behind every run the context holds a list of entries. -/
theorem sound_run (vlibNumWorkers : ℕ) (events : List PluginEvent) :
    ∃ es, (Runs.run PluginSystem.step (.start vlibNumWorkers) events).plugin.Sound es := by
  refine Runs.always (I := fun s : PluginSystem => ∃ es, s.plugin.Sound es) ?_ ?_ events
  · exact ⟨[], Plugin.sound_start vlibNumWorkers⟩
  · rintro s e ⟨es, h⟩
    exact sound_step h e

end PluginSystem

end InFMon
