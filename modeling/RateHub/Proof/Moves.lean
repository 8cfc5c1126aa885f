import RateHub.Pipeline
import RateHub.Proof.Calls

/-!
# Everything the system can do

`Move s a s'` lists the ways `s.step a = some s'` can come about, one constructor per
kind of step, each with what the step knew. Every invariant of the system is proved
by cases on it, so the step function is taken apart here and nowhere else.
-/

namespace RateHub

namespace Pipeline

/-- The ways a step can come about. -/
inductive Move (s : Pipeline) : Act → Pipeline → Prop
  | tick {now : UInt64} (h : s.clock ≤ now) : Move s (.tick now) { s with clock := now }
  -- the supervisor
  | spawnIngest {pid : UInt32} (h : s.sup = .spawnIngest) :
      Move s (.sup pid) { s with sup := .storeIngestPid (some pid)
                                 ingest := .running (Ingest.init s.replay) }
  | noIngest (h : s.sup = .spawnIngest) :
      Move s .spawnFails { s with sup := .storeIngestPid none, ingest := .failed }
  | spawnPublish {pid : UInt32} (h : s.sup = .spawnPublish) :
      Move s (.sup pid) { s with sup := .storePublishPid (some pid)
                                 publish := .running Publish.init }
  | noPublish (h : s.sup = .spawnPublish) :
      Move s .spawnFails { s with sup := .storePublishPid none, publish := .failed }
  | spawnCompute {pid : UInt32} {n : Nat} (h : s.sup = .spawnCompute n) :
      Move s (.sup pid) { s with sup := .storeComputePid n (some pid)
                                 compute := .running Compute.init }
  | noCompute {n : Nat} (h : s.sup = .spawnCompute n) :
      Move s .spawnFails { s with sup := .storeComputePid n none, compute := .failed }
  | reapCompute {pid : UInt32} {n : Nat} {status : UInt32} (h : s.sup = .waitCompute n)
      (hw : s.compute.wait = some status) :
      Move s (.sup pid) { s with sup := .storeComputeExit n status, exits := s.exits ++ [status] }
  | reapIngest {pid : UInt32} {ok : Bool} {status : UInt32} (h : s.sup = .waitIngest ok)
      (hw : s.ingest.wait = some status) :
      Move s (.sup pid) { s with sup := .storeIngestExit ok status }
  | reapPublish {pid : UInt32} {ok : Bool} {ist status : UInt32} (h : s.sup = .waitPublish ok ist)
      (hw : s.publish.wait = some status) :
      Move s (.sup pid) { s with sup := .storePublishExit ok ist status }
  | store {pid : UInt32} {l' : Layout} {pc' : SupPc} (h : supStep s.layout s.sup = some (l', pc')) :
      Move s (.sup pid) { s with layout := l', sup := pc' }
  | rerun {code : UInt32} (h : s.sup = .returned code) :
      Move s .rerun { s with layout := resetControl s.layout, sup := .spawnIngest
                             ingest := .unborn, compute := .unborn, publish := .unborn
                             written := none }
  -- ingest
  | source {p p' : Ingest} {l' : Layout} (hp : s.ingest = .running p) (hm : p.main ≠ .attach)
      (h : p.stepSource s.layout = some (l', p')) : Move s .source (s.withIngest (l', p'))
  | frames {p p' : Ingest} {l' : Layout} (hp : s.ingest = .running p) (hm : p.main ≠ .attach)
      (h : p.stepFrames s.layout = some (l', p')) : Move s .frames (s.withIngest (l', p'))
  | ingestAttach {p : Ingest} (hp : s.ingest = .running p) (hm : p.main = .attach) :
      Move s .ingestMain (s.withIngest (s.layout, { p with main := .joinSource }))
  | ingestMain {p p' : Ingest} {l' : Layout} (hp : s.ingest = .running p)
      (h : p.stepMain s.layout = some (l', p')) : Move s .ingestMain (s.withIngest (l', p'))
  | ingestExit {p : Ingest} (hp : s.ingest = .running p) (hm : p.main = .exit) :
      Move s .ingestMain { s with ingest := .ended (.exited 0) }
  | ingestRefused {p : Ingest} (hp : s.ingest = .running p) (hm : p.main = .attach) :
      Move s .ingestRefused { s with ingest := .ended (.exited 1) }
  | killIngest {p : Ingest} (hp : s.ingest = .running p) :
      Move s .killIngest { s with ingest := .ended .signaled }
  -- compute
  | fast {p : Compute} {l' : Layout} {t' : Fast} (hp : s.compute = .running p)
      (ha : p.attached = true) (h : fastStep s.clock s.layout p.fast = some (l', t')) :
      Move s .fast (s.withCompute (l', { p with fast := t' }))
  | window {p : Compute} {l' : Layout} {t' : Window} (hp : s.compute = .running p)
      (ha : p.attached = true) (h : windowStep s.clock s.layout p.window = some (l', t')) :
      Move s .window (s.withCompute (l', { p with window := t' }))
  | snapshot {p : Compute} {l' : Layout} {t' : SnapshotThread} (hp : s.compute = .running p)
      (ha : p.attached = true) (hpc : p.snapshot.pc ≠ .publish .exchange)
      (h : snapshotStep s.clock s.layout p.snapshot = some (l', t')) :
      Move s .snapshot (s.withCompute (l', { p with snapshot := t' }))
  | handOver {p : Compute} {l' : Layout} {t' : SnapshotThread} (hp : s.compute = .running p)
      (ha : p.attached = true) (hpc : p.snapshot.pc = .publish .exchange)
      (h : snapshotStep s.clock s.layout p.snapshot = some (l', t')) :
      Move s .snapshot ((s.withCompute (l', { p with snapshot := t' })).hand p.snapshot.snap)
  | watchdog {p : Compute} {l' : Layout} {pc' : WatchdogPc} (hp : s.compute = .running p)
      (ha : p.attached = true) (h : watchdogStep s.clock s.layout p.watchdog = some (l', pc')) :
      Move s .watchdog (s.withCompute (l', { p with watchdog := pc' }))
  | computeMain {p : Compute} {l' : Layout} {pc' : ComputeMainPc} (hp : s.compute = .running p)
      (h : computeMainStep s.layout p = some (l', pc')) :
      Move s .computeMain (s.withCompute (l', { p with main := pc' }))
  | computeExit {p : Compute} {code : UInt32} (hp : s.compute = .running p)
      (hm : p.main = .exit code) :
      Move s .computeMain { s with compute := .ended (.exited code) }
  | computeCrash {p : Compute} (hp : s.compute = .running p) (hm : p.main = .crash) :
      Move s .computeCrash { s with compute := .ended (.exited 2) }
  | computeRefused {p : Compute} (hp : s.compute = .running p) (hm : p.main = .attach) :
      Move s .computeRefused { s with compute := .ended (.exited 1) }
  | killCompute {p : Compute} (hp : s.compute = .running p) :
      Move s .killCompute { s with compute := .ended .signaled }
  -- publish
  | publish {p p' : Publish} {l' : Layout} (hp : s.publish = .running p)
      (hw : p.pc.filing = false)
      (h : p.step s.layout = some (l', p')) : Move s .publish (s.withPublish (l', p'))
  | publishOpen {p : Publish} (hp : s.publish = .running p) (hc : p.pc = .openFile) :
      Move s .publish (s.withPublish (s.layout, { p with pc := .write })).openOut
  | publishWrite {p : Publish} (hp : s.publish = .running p) (hw : p.pc = .write) :
      Move s .publish ((s.withPublish (s.layout, { p with pc := .exit 0 })).write p.last)
  | publishExit {p : Publish} {code : UInt32} (hp : s.publish = .running p)
      (hc : p.pc = .exit code) :
      Move s .publish { s with publish := .ended (.exited code) }
  | publishRefused {p : Publish} (hp : s.publish = .running p) (hc : p.pc = .attach) :
      Move s .publishRefused { s with publish := .ended (.exited 1) }
  | openFails {p : Publish} (hp : s.publish = .running p) (hc : p.pc = .openFile) :
      Move s .openFails { s with publish := .running { p with pc := .exit 1 } }
  | killPublish {p : Publish} (hp : s.publish = .running p) :
      Move s .killPublish { s with publish := .ended .signaled }

/-! ## The inversion -/

variable {s s' : Pipeline}

/-- A step of the supervisor: a spawn, a wait that returns, or one of its own stores. -/
theorem move_sup {pid : UInt32} (h : s.step (.sup pid) = some s') : Move s (.sup pid) s' := by
  simp only [step, stepSup] at h
  split at h
  -- the three spawns
  · rename_i hs
    obtain rfl := Option.some.inj h
    exact .spawnIngest hs
  · rename_i hs
    obtain rfl := Option.some.inj h
    exact .spawnPublish hs
  · rename_i hs
    obtain rfl := Option.some.inj h
    exact .spawnCompute hs
  -- the three waits; each is enabled only when the child has a status
  · rename_i hs
    simp only [Option.map_eq_some_iff] at h
    obtain ⟨status, hw, rfl⟩ := h
    exact .reapCompute hs hw
  · rename_i hs
    simp only [Option.map_eq_some_iff] at h
    obtain ⟨status, hw, rfl⟩ := h
    exact .reapIngest hs hw
  · rename_i hs
    simp only [Option.map_eq_some_iff] at h
    obtain ⟨status, hw, rfl⟩ := h
    exact .reapPublish hs hw
  -- everything else is between the supervisor and the mapping
  · simp only [Option.map_eq_some_iff] at h
    obtain ⟨⟨l', pc'⟩, hst, rfl⟩ := h
    exact .store hst

/-- A spawn that fails leaves no process behind. -/
theorem move_spawnFails (h : s.step .spawnFails = some s') : Move s .spawnFails s' := by
  simp only [step] at h
  split at h
  · rename_i hsp
    simp only [stepSup] at h
    split at h
    · rename_i hs
      obtain rfl := Option.some.inj h
      exact .noIngest hs
    · rename_i hs
      obtain rfl := Option.some.inj h
      exact .noPublish hs
    · rename_i hs
      obtain rfl := Option.some.inj h
      exact .noCompute hs
    all_goals simp_all [spawning]
  · exact absurd h (by simp)

/-- A thread of ingest moves only once its process is attached. -/
theorem stepIngest_some {f : Layout → Ingest → Option (Layout × Ingest)}
    (h : s.stepIngest f = some s') :
    ∃ p l' p', s.ingest = .running p ∧ p.main ≠ .attach ∧ f s.layout p = some (l', p')
      ∧ s' = s.withIngest (l', p') := by
  simp only [stepIngest] at h
  split at h
  · rename_i p hp
    split at h
    · exact absurd h (by simp)
    · rename_i hm
      simp only [Option.map_eq_some_iff] at h
      obtain ⟨⟨l', p'⟩, hf, rfl⟩ := h
      exact ⟨p, l', p', hp, hm, hf, rfl⟩
  · exact absurd h (by simp)

/-- What a thread of compute sees is the clock, the mapping and its own process. -/
theorem stepCompute_some {f : UInt64 → Layout → Compute → Option (Layout × Compute)}
    (h : s.stepCompute f = some s') :
    ∃ p l' p', s.compute = .running p ∧ f s.clock s.layout p = some (l', p')
      ∧ s' = s.withCompute (l', p') := by
  simp only [stepCompute] at h
  split at h
  · rename_i p hp
    simp only [Option.map_eq_some_iff] at h
    obtain ⟨⟨l', p'⟩, hf, rfl⟩ := h
    exact ⟨p, l', p', hp, hf, rfl⟩
  · exact absurd h (by simp)

/-- Ingest's main thread: the attach, the exit, and its joins in between. -/
theorem move_ingestMain (h : s.step .ingestMain = some s') : Move s .ingestMain s' := by
  simp only [step, stepIngestMain] at h
  split at h
  · rename_i p hp
    split at h
    · -- the threads exist from here on
      rename_i hm
      obtain rfl := Option.some.inj h
      exact .ingestAttach hp hm
    · rename_i hm
      obtain rfl := Option.some.inj h
      exact .ingestExit hp hm
    · simp only [Option.map_eq_some_iff] at h
      obtain ⟨⟨l', p'⟩, hst, rfl⟩ := h
      exact .ingestMain hp hst
  · exact absurd h (by simp)

/-- A stage thread moves only while its process is attached; so for the four of them. -/
theorem move_fast (h : s.step .fast = some s') : Move s .fast s' := by
  obtain ⟨p, l', p', hp, hf, rfl⟩ := stepCompute_some h
  simp only [Compute.stepFast] at hf
  split at hf
  · rename_i ha
    simp only [Option.map_eq_some_iff, Prod.mk.injEq] at hf
    obtain ⟨⟨l₁, t₁⟩, hst, rfl, rfl⟩ := hf
    exact .fast hp ha hst
  · exact absurd hf (by simp)

theorem move_window (h : s.step .window = some s') : Move s .window s' := by
  obtain ⟨p, l', p', hp, hf, rfl⟩ := stepCompute_some h
  simp only [Compute.stepWindow] at hf
  split at hf
  · rename_i ha
    simp only [Option.map_eq_some_iff, Prod.mk.injEq] at hf
    obtain ⟨⟨l₁, t₁⟩, hst, rfl, rfl⟩ := hf
    exact .window hp ha hst
  · exact absurd hf (by simp)

theorem move_watchdog (h : s.step .watchdog = some s') : Move s .watchdog s' := by
  obtain ⟨p, l', p', hp, hf, rfl⟩ := stepCompute_some h
  simp only [Compute.stepWatchdog] at hf
  split at hf
  · rename_i ha
    simp only [Option.map_eq_some_iff, Prod.mk.injEq] at hf
    obtain ⟨⟨l₁, t₁⟩, hst, rfl, rfl⟩ := hf
    exact .watchdog hp ha hst
  · exact absurd hf (by simp)

/-- The snapshot thread's step, whether it hands over or not. -/
theorem stepSnapshot_some {p p' : Compute} {clock : UInt64} {l l' : Layout}
    (h : p.stepSnapshot clock l = some (l', p')) :
    p.attached = true ∧ ∃ t', snapshotStep clock l p.snapshot = some (l', t')
      ∧ p' = { p with snapshot := t' } := by
  simp only [Compute.stepSnapshot] at h
  split at h
  · rename_i ha
    simp only [Option.map_eq_some_iff, Prod.mk.injEq] at h
    obtain ⟨⟨l₁, t₁⟩, hst, rfl, rfl⟩ := h
    exact ⟨ha, t₁, hst, rfl⟩
  · exact absurd h (by simp)

/-- The exchange is told apart, since it hands a snapshot over. -/
theorem move_snapshot (h : s.step .snapshot = some s') : Move s .snapshot s' := by
  simp only [step, stepSnapshot] at h
  split at h
  · rename_i p hp
    split at h
    · -- `snapshots.publish()` at its exchange
      rename_i hpc
      simp only [Option.map_eq_some_iff] at h
      obtain ⟨⟨l', p'⟩, hst, rfl⟩ := h
      obtain ⟨ha, t', ht, rfl⟩ := stepSnapshot_some hst
      exact .handOver hp ha hpc ht
    · rename_i hpc
      simp only [Option.map_eq_some_iff] at h
      obtain ⟨⟨l', p'⟩, hst, rfl⟩ := h
      obtain ⟨ha, t', ht, rfl⟩ := stepSnapshot_some hst
      exact .snapshot hp ha hpc ht
  · exact absurd h (by simp)

/-- Compute's main thread: the exit, or whatever comes before it. -/
theorem move_computeMain (h : s.step .computeMain = some s') : Move s .computeMain s' := by
  simp only [step, stepComputeMain] at h
  split at h
  · rename_i p hp
    split at h
    · rename_i hm
      obtain rfl := Option.some.inj h
      exact .computeExit hp hm
    · simp only [Option.map_eq_some_iff, Compute.stepMain] at h
      obtain ⟨_, ⟨⟨l', pc'⟩, hst, rfl⟩, rfl⟩ := h
      exact .computeMain hp hst
  · exact absurd h (by simp)

/-- Publish: the open and the close of the output file are told apart from the rest. -/
theorem move_publish (h : s.step .publish = some s') : Move s .publish s' := by
  simp only [step, stepPublish] at h
  split at h
  · rename_i p hp
    split at h
    · -- the open, which empties the file
      rename_i hc
      simp only [Option.map_eq_some_iff, Publish.step, hc] at h
      obtain ⟨_, hst, rfl⟩ := h
      obtain rfl := Option.some.inj hst
      exact .publishOpen hp hc
    · -- the close, which puts the text out
      rename_i hw
      simp only [Option.map_eq_some_iff, Publish.step, hw] at h
      obtain ⟨_, hst, rfl⟩ := h
      obtain rfl := Option.some.inj hst
      exact .publishWrite hp hw
    · rename_i hc
      obtain rfl := Option.some.inj h
      exact .publishExit hp hc
    · rename_i hopen hw _
      simp only [Option.map_eq_some_iff] at h
      obtain ⟨⟨l', p'⟩, hst, rfl⟩ := h
      refine .publish hp ?_ hst
      cases hpc : p.pc <;> simp_all [PublishPc.filing]
  · exact absurd h (by simp)

/-- **Every step is a move.** -/
theorem move_of_step {a : Act} (h : s.step a = some s') : Move s a s' := by
  cases a with
  | tick now =>
      simp only [step] at h
      split at h
      · rename_i hle
        obtain rfl := Option.some.inj h
        exact .tick hle
      · exact absurd h (by simp)
  | sup pid => exact move_sup h
  | spawnFails => exact move_spawnFails h
  | source =>
      obtain ⟨p, l', p', hp, hm, hf, rfl⟩ := stepIngest_some h
      exact .source hp hm hf
  | frames =>
      obtain ⟨p, l', p', hp, hm, hf, rfl⟩ := stepIngest_some h
      exact .frames hp hm hf
  | ingestMain => exact move_ingestMain h
  | fast => exact move_fast h
  | window => exact move_window h
  | snapshot => exact move_snapshot h
  | watchdog => exact move_watchdog h
  | computeMain => exact move_computeMain h
  | publish => exact move_publish h
  -- what befalls a child: the process must be there, and stand where it can happen
  | ingestRefused =>
      simp only [step] at h
      split at h
      · split at h
        · obtain rfl := Option.some.inj h
          exact .ingestRefused ‹_› ‹_›
        · exact absurd h (by simp)
      · exact absurd h (by simp)
  | computeCrash =>
      simp only [step] at h
      split at h
      · split at h
        · obtain rfl := Option.some.inj h
          exact .computeCrash ‹_› ‹_›
        · exact absurd h (by simp)
      · exact absurd h (by simp)
  | computeRefused =>
      simp only [step] at h
      split at h
      · split at h
        · obtain rfl := Option.some.inj h
          exact .computeRefused ‹_› ‹_›
        · exact absurd h (by simp)
      · exact absurd h (by simp)
  | publishRefused =>
      simp only [step] at h
      split at h
      · split at h
        · obtain rfl := Option.some.inj h
          exact .publishRefused ‹_› ‹_›
        · exact absurd h (by simp)
      · exact absurd h (by simp)
  | openFails =>
      simp only [step] at h
      split at h
      · split at h
        · obtain rfl := Option.some.inj h
          exact .openFails ‹_› ‹_›
        · exact absurd h (by simp)
      · exact absurd h (by simp)
  -- a kill asks for nothing but a process
  | killIngest =>
      simp only [step] at h
      split at h
      · obtain rfl := Option.some.inj h
        exact .killIngest ‹_›
      · exact absurd h (by simp)
  | killCompute =>
      simp only [step] at h
      split at h
      · obtain rfl := Option.some.inj h
        exact .killCompute ‹_›
      · exact absurd h (by simp)
  | killPublish =>
      simp only [step] at h
      split at h
      · obtain rfl := Option.some.inj h
        exact .killPublish ‹_›
      · exact absurd h (by simp)
  | rerun =>
      -- only once `run_once_pipeline` has returned
      simp only [step] at h
      split at h
      · rename_i hs
        obtain rfl := Option.some.inj h
        exact .rerun hs
      · exact absurd h (by simp)

end Pipeline

end RateHub
