import RateHub.Process.Observe
import RateHub.Proof.Delivery
import RateHub.Proof.IngestWakes
import RateHub.Proof.LastPass
import RateHub.Proof.Stamps

/-!
# The first attempt on a fresh mapping

Until the supervisor has waited for its first compute attempt, what that attempt finds is
what the constructor of the mapping left: clear flags and empty slots. So the attempt
starts settled and the last passes of its stages do what they are there for: one
snapshot is handed over, and each of its rows is the last state published for its
source.
-/

namespace RateHub

/-- Before the spawn of a compute attempt. -/
def SupPc.preparing : SupPc → Bool
  | .spawnIngest => true
  | .storeIngestPid _ => true
  | .spawnPublish => true
  | .storePublishPid _ => true
  | .spawnCompute _ => true
  | _ => false

/-- What compute works with is as the constructor left it. -/
structure Layout.Untouched (l : Layout) : Prop where
  fastDone : l.control.fastDone = 0
  latest : l.latest = Layout.init.latest
  window : l.window = Layout.init.window

theorem Layout.Untouched.settled {l : Layout} (h : l.Untouched) : l.settled = true := by
  rw [Layout.settled_congr h.latest h.window]
  rfl

namespace Pipeline

/-- The first attempt has not been spawned, or it has not been waited for. -/
structure BeforeFirst (s : Pipeline) : Prop where
  sup : s.sup.preparing = true
  compute : s.compute = .unborn
  handed : s.handed = []
  layout : s.layout.Untouched

/-- Until an attempt has been waited for, there has been no other. -/
def FirstAttempt (s : Pipeline) : Prop :=
  s.exits = [] → BeforeFirst s ∨ s.sup.awaiting = true

theorem firstAttempt_start (replay : List UInt8) (clock : UInt64) :
    FirstAttempt (start replay clock) :=
  fun _ => Or.inl ⟨rfl, rfl, rfl, rfl, rfl, rfl⟩

/-- A step that neither the supervisor nor compute takes. -/
theorem FirstAttempt.frame {s s' : Pipeline} (h : FirstAttempt s) (hsup : s'.sup = s.sup)
    (hu : Unseen s s') : FirstAttempt s' := by
  intro hx
  rcases h (hu.exits ▸ hx) with hb | hawait
  · left
    exact ⟨hsup ▸ hb.sup, hu.compute.trans hb.compute, hu.handed.trans hb.handed,
      hu.fastDone.trans hb.layout.fastDone, hu.latest.trans hb.layout.latest,
      hu.window.trans hb.layout.window⟩
  · right
    rw [hsup]
    exact hawait

/-- The supervisor is past the attempts. -/
theorem FirstAttempt.past {s : Pipeline} (h : FirstAttempt s) (hprep : s.sup.preparing = false)
    (hawait : s.sup.awaiting = false) : s.exits ≠ [] := by
  intro hx
  rcases h hx with hb | hw
  · rw [hb.sup] at hprep
    cases hprep
  · rw [hw] at hawait
    cases hawait

theorem FirstAttempt.store {s : Pipeline} (h : FirstAttempt s) {l' : Layout} {pc' : SupPc}
    (hs : supStep s.layout s.sup = some (l', pc')) :
    FirstAttempt { s with layout := l', sup := pc' } := by
  intro hx
  have hst := supStep_stored hs
  rcases h hx with hb | hawait
  · left
    obtain ⟨sh, g, sv, rfl⟩ := hst.layout
    refine ⟨?_, hb.compute, hb.handed, hb.layout.fastDone, hb.layout.latest, hb.layout.window⟩
    have hprep := hb.sup
    cases hsup : s.sup with
    | storeIngestPid pid =>
        simp only [hsup, supStep, Option.some.injEq, Prod.mk.injEq] at hs
        rw [← hs.2]
        rfl
    | storePublishPid pid =>
        simp only [hsup, supStep, Option.some.injEq, Prod.mk.injEq] at hs
        rw [← hs.2]
        rfl
    | spawnIngest => simp [hsup, supStep] at hs
    | spawnPublish => simp [hsup, supStep] at hs
    | spawnCompute n => simp [hsup, supStep] at hs
    | _ =>
        rw [hsup] at hprep
        cases hprep
  · right
    exact hst.awaiting.trans hawait

theorem firstAttempt_step {s s' : Pipeline} {a : Act} (h : FirstAttempt s) (hsk : Skeleton s)
    (hs : s.step a = some s') : FirstAttempt s' := by
  have hrefl : s.clock ≤ s.clock := UInt64.le_refl _
  -- while compute runs the supervisor is waiting, and none of these steps is the supervisor's
  have hrun : ∀ {p : Compute}, s.compute = .running p → s'.sup = s.sup → FirstAttempt s' := by
    intro p hp hsup _
    right
    rw [hsup]
    exact hsk.running p hp
  cases move_of_step hs with
  | tick hle =>
      exact h.frame rfl (unseen_of_layout rfl rfl rfl hle ⟨_, _, _, _, _, _, _, _, rfl⟩)
  | spawnIngest hsup =>
      intro hx
      rcases h hx with hb | hawait
      · exact Or.inl ⟨rfl, hb.compute, hb.handed, hb.layout⟩
      · rw [hsup] at hawait
        cases hawait
  | noIngest hsup =>
      intro hx
      rcases h hx with hb | hawait
      · exact Or.inl ⟨rfl, hb.compute, hb.handed, hb.layout⟩
      · rw [hsup] at hawait
        cases hawait
  | spawnPublish hsup =>
      intro hx
      rcases h hx with hb | hawait
      · exact Or.inl ⟨rfl, hb.compute, hb.handed, hb.layout⟩
      · rw [hsup] at hawait
        cases hawait
  | noPublish hsup =>
      intro hx
      rcases h hx with hb | hawait
      · exact Or.inl ⟨rfl, hb.compute, hb.handed, hb.layout⟩
      · rw [hsup] at hawait
        cases hawait
  | spawnCompute hsup => exact fun _ => Or.inr rfl
  | noCompute hsup => exact fun _ => Or.inr rfl
  | reapCompute hsup hw => exact fun hx => absurd hx (by simp)
  | reapIngest hsup hw => exact fun hx => absurd hx (h.past (by rw [hsup]; rfl) (by rw [hsup]; rfl))
  | reapPublish hsup hw => exact fun hx => absurd hx (h.past (by rw [hsup]; rfl) (by rw [hsup]; rfl))
  | rerun hsup => exact fun hx => absurd hx (h.past (by rw [hsup]; rfl) (by rw [hsup]; rfl))
  | store hst => exact h.store hst
  | source hp hm hst =>
      obtain ⟨n, rfl⟩ := Ingest.stepSource_layout hst
      exact h.frame rfl (unseen_of_layout rfl rfl rfl hrefl ⟨_, _, _, _, _, _, _, _, rfl⟩)
  | frames hp hm hst =>
      obtain ⟨r, rfl⟩ := Ingest.stepFrames_layout hst
      exact h.frame rfl (unseen_of_layout rfl rfl rfl hrefl ⟨_, _, _, _, _, _, _, _, rfl⟩)
  | ingestMain hp hst =>
      obtain ⟨n, rfl⟩ := Ingest.stepMain_layout hst
      exact h.frame rfl (unseen_of_layout rfl rfl rfl hrefl ⟨_, _, _, _, _, _, _, _, rfl⟩)
  | publish hp hw hst =>
      obtain ⟨hb, b, rfl⟩ := Publish.step_layout hst
      exact h.frame rfl (unseen_of_layout rfl rfl rfl hrefl ⟨_, _, _, _, _, _, _, _, rfl⟩)
  | fast hp ha hst => exact hrun hp rfl
  | window hp ha hst => exact hrun hp rfl
  | snapshot hp ha hpc hst => exact hrun hp rfl
  | handOver hp ha hpc hst => exact hrun hp rfl
  | watchdog hp ha hst => exact hrun hp rfl
  | computeMain hp hst => exact hrun hp rfl
  | computeExit hp hm => exact hrun hp rfl
  | computeCrash hp hm => exact hrun hp rfl
  | computeRefused hp hm => exact hrun hp rfl
  | killCompute hp => exact hrun hp rfl
  | _ => exact h.frame rfl (unseen_of_layout rfl rfl rfl hrefl ⟨_, _, _, _, _, _, _, _, rfl⟩)

theorem firstAttempt_reachable {s : Pipeline} (h : Reachable s) : FirstAttempt s := by
  induction h with
  | init hstart =>
      obtain ⟨replay, clock, rfl⟩ := hstart
      exact firstAttempt_start replay clock
  | tail hr _ hs ih => exact firstAttempt_step ih (sound_reachable hr).skeleton hs

/-- No step forgets an attempt that was waited for. -/
theorem exits_of_step {s s' : Pipeline} {a : Act} (hs : s.step a = some s')
    (hx : s'.exits = []) : s.exits = [] := by
  cases move_of_step hs with
  | reapCompute hsup hw => exact absurd hx (by simp)
  | _ => exact hx

/-- **The first attempt starts settled.** -/
theorem settled_of_first {s : Pipeline} (h : Reachable s) (hx : s.exits = []) :
    ReachableSettled s := by
  induction h with
  | init hstart => exact .init hstart
  | @tail s t a hr _ hs ih =>
      have hx' := exits_of_step hs hx
      refine (ih hx').tail ?_ hs
      cases a with
      | sup pid =>
          cases hsup : s.sup with
          | spawnCompute n =>
              rcases firstAttempt_reachable hr hx' with hb | hawait
              · simp [startsSettled, hsup, hb.layout.fastDone, hb.layout.settled]
              · rw [hsup] at hawait
                cases hawait
          | _ => simp [startsSettled, hsup]
      | _ => rfl

end Pipeline

/-! ## One snapshot -/

/-- Only the exchange in `snapshots.publish()` hands the snapshot over, and it is not touched
after that. -/
theorem SnapshotMove.handed {clock : UInt64} {l l' : Layout} {t t' : SnapshotThread}
    (h : SnapshotMove clock l t l' t') :
    (t.pc ≠ .publish .exchange → t'.pc.handed = t.pc.handed)
      ∧ (t.pc = .publish .exchange → t'.pc.handed = true)
      ∧ (t'.pc.handed = true → t'.snap = t.snap) := by
  have hnext : ∀ id, (SnapshotPc.next id).handed = false := by
    intro id
    unfold SnapshotPc.next
    split <;> rfl
  cases h with
  | @row id row row' call call' hpc hr =>
      refine ⟨fun _ => ?_, fun hx => ?_, fun hh => ?_⟩
      · rw [hpc]
        exact hnext id
      · rw [hpc] at hx
        cases hx
      · exact absurd hh (by simp [hnext])
  | @noRow id row row' call call' hpc hr =>
      refine ⟨fun _ => ?_, fun hx => ?_, fun _ => rfl⟩
      · rw [hpc]
        exact hnext id
      · rw [hpc] at hx
        cases hx
  | fill hpc =>
      refine ⟨fun _ => ?_, fun hx => ?_, fun _ => rfl⟩
      · rw [hpc]
        simp only
        split <;> rfl
      · rw [hpc] at hx
        cases hx
  | @storing call call' buf hpc hr hin =>
      have hcall : call = .exchange := by
        cases call with
        | exchange => rfl
        | idle => exact absurd (Prod.mk.inj hr).2.symm hin
        | update old => exact absurd (Prod.mk.inj hr).2.symm hin
      subst hcall
      have hupdate := (Prod.mk.inj hr).2
      exact ⟨fun hx => absurd hpc hx, fun _ => by simp [← hupdate, SnapshotPc.handed], fun _ => rfl⟩
  | @stored call buf hpc hr =>
      refine ⟨fun hx => ?_, fun _ => rfl, fun _ => rfl⟩
      cases call with
      | exchange => exact absurd hpc hx
      | idle =>
          rw [hpc]
          rfl
      | update old =>
          rw [hpc]
          rfl
  | loadGeneration hpc =>
      refine ⟨fun _ => ?_, fun hx => ?_, fun hh => ?_⟩
      · rw [hpc]
        rfl
      · rw [hpc] at hx
        cases hx
      · cases hh
  | _ hpc =>
      refine ⟨fun _ => ?_, fun hx => ?_, fun _ => rfl⟩
      · rw [hpc]
        rfl
      · rw [hpc] at hx
        cases hx

theorem SnapshotPc.filled_of_handed {pc : SnapshotPc} (h : pc.handed = true) :
    pc.stamped = true ∧ ∀ id, pc.taken id = true := by
  cases pc <;> first | exact ⟨rfl, fun _ => rfl⟩ | cases h

namespace Pipeline

/-- The snapshot is the attempt's own: its generation, and of every source the last state
that was published. -/
def Complete (s : Pipeline) (snap : Snapshot) : Prop :=
  snap.generation = UInt32.ofNat s.attempt ∧ ∀ id, snap.rows id = s.layout.lastRow id

/-- What the first attempt has handed over. -/
def HandedOnce (s : Pipeline) : Prop :=
  match s.compute with
  | .running p => s.handed = if p.snapshot.pc.handed then [(1, p.snapshot.snap)] else []
  | .ended status =>
      (s.handed = [] ∧ ∀ code, status = .exited code → code = 1 ∨ code = 2)
        ∨ ∃ snap, s.handed = [(1, snap)] ∧ s.Complete snap
  | _ => s.handed = []

/-- A snapshot with all its rows is complete. -/
theorem complete_of_filled {s : Pipeline} (h : ReachableSettled s) {p : Compute}
    (hp : s.compute = .running p) (hst : p.snapshot.pc.stamped = true)
    (hall : ∀ id, p.snapshot.pc.taken id = true) : s.Complete p.snapshot.snap := by
  refine ⟨(stamped_reachable h.reachable).making p hp hst, ?_⟩
  intro id
  exact (lastPass_reachable h hp).collected ((slotsOk_reachable h).running p hp) (hall id)

theorem Complete.frame {s s' : Pipeline} {snap : Snapshot} (h : s.Complete snap)
    (hx : s'.exits = s.exits) (hl : s'.layout.latest = s.layout.latest) : s'.Complete snap := by
  refine ⟨?_, ?_⟩
  · rw [attempt, hx]
    exact h.1
  · intro id
    rw [h.2 id]
    simp only [Layout.lastRow, hl]

/-- **One snapshot is handed over, and it is complete.** -/
theorem handedOnce_reachable {s : Pipeline} (h : Reachable s) (hx : s.exits = []) :
    HandedOnce s := by
  induction h with
  | init hstart =>
      obtain ⟨replay, clock, rfl⟩ := hstart
      rfl
  | @tail s s' a hr _ hs ih =>
      have hx' := exits_of_step hs hx
      have ih := ih hx'
      have hset := settled_of_first hr hx'
      have hone : s.attempt = 1 := by rw [attempt, hx']; rfl
      have hrun : ∀ {p q : Compute}, s.compute = .running p → s'.compute = .running q →
          q.snapshot = p.snapshot → s'.handed = s.handed → HandedOnce s' := by
        intro p q hp hq hsnap hh
        simp only [HandedOnce, hp] at ih
        simp only [HandedOnce, hq, hsnap, hh]
        exact ih
      cases attemptMove hs with
      | unseen hu =>
          unfold HandedOnce at ih ⊢
          rw [hu.compute, hu.handed]
          cases hc : s.compute with
          | ended status =>
              simp only [hc] at ih ⊢
              refine ih.imp_right ?_
              rintro ⟨snap, hh, hcomp⟩
              exact ⟨snap, hh, hcomp.frame hu.exits hu.latest⟩
          | _ =>
              simp only [hc] at ih ⊢
              exact ih
      | rerun hl hc hx₁ hh hk =>
          -- compute is back to where it was before the first spawn, and so is the supervisor
          have hr' : Reachable s' := hr.tail trivial hs
          simp only [HandedOnce, hc]
          rcases firstAttempt_reachable hr' hx with hb | hawait
          · exact hb.handed
          · exact absurd hc ((sound_reachable hr').skeleton.spawned hawait)
      | spawn hact hsup hl hc hx₁ hh hk =>
          simp only [HandedOnce, hc, hh]
          rcases firstAttempt_reachable hr hx' with hb | hawait
          · exact hb.handed
          · rw [hsup] at hawait
            cases hawait
      | noSpawn hsup hl hc hx₁ hh hk =>
          simp only [HandedOnce, hc, hh]
          rcases firstAttempt_reachable hr hx' with hb | hawait
          · exact hb.handed
          · rw [hsup] at hawait
            cases hawait
      | reap hw hl hc hx₁ hh hk =>
          rw [hx₁] at hx
          exact absurd hx (by simp)
      | fast hact hp ha hm hc hx₁ hh hk => exact hrun hp hc rfl hh
      | window hact hp ha hm hc hx₁ hh hk => exact hrun hp hc rfl hh
      | watchdog hact hp ha hm hc hx₁ hh hk => exact hrun hp hc rfl hh
      | main hact hp hm hc hx₁ hh hk => exact hrun hp hc rfl hh
      | @snapshot p t' hact hp ha hm hc hx₁ hh hk =>
          obtain ⟨hsame, hexch, hkeep⟩ := hm.handed
          simp only [HandedOnce, hp] at ih
          simp only [HandedOnce, hc]
          rcases hh with ⟨hpc, hh⟩ | ⟨hpc, hh⟩
          · rw [hh, ih, hsame hpc]
            split
            · rename_i hhanded
              rw [hkeep ((hsame hpc).trans hhanded)]
            · rfl
          · have hbefore : p.snapshot.pc.handed = false := by rw [hpc]; rfl
            rw [hh, ih, hbefore, hone, if_pos (hexch hpc), hkeep (hexch hpc)]
            rfl
      | @ended p status hp hcode hl hc hx₁ hh hk =>
          simp only [HandedOnce, hp] at ih
          simp only [HandedOnce, hc, hh, ih]
          cases hhanded : p.snapshot.pc.handed with
          | true =>
              right
              obtain ⟨hst, hall⟩ := SnapshotPc.filled_of_handed hhanded
              exact ⟨p.snapshot.snap, rfl,
                (complete_of_filled hset hp hst hall).frame hx₁ (by rw [hl])⟩
          | false =>
              left
              refine ⟨rfl, ?_⟩
              intro code hstatus
              rcases hcode code hstatus with hm | hcode
              · -- an attempt at its exit has joined its snapshot thread
                have hd := ((sound_reachable hr).stages p hp).joinedSnapshot
                  (by rw [hm]; exact Nat.le_add_left 3 1)
                rw [SnapshotPc.handed_of_isDone hd] at hhanded
                cases hhanded
              · exact hcode

theorem complete_of_handed {s : Pipeline} (h : Reachable s) (hx : s.exits = []) {n : Nat}
    {snap : Snapshot} (hmem : (n, snap) ∈ s.handed) :
    s.handed = [(1, snap)] ∧ n = 1 ∧ s.Complete snap
      ∧ ∀ p, s.compute = .running p → p.fast.pc.isDone = true := by
  have hone := handedOnce_reachable h hx
  unfold HandedOnce at hone
  split at hone
  · rename_i p hp
    split at hone
    · rename_i hhanded
      rw [hone, List.mem_singleton] at hmem
      obtain ⟨rfl, rfl⟩ := Prod.mk.inj hmem
      have hset := settled_of_first h hx
      obtain ⟨hst, hall⟩ := SnapshotPc.filled_of_handed hhanded
      refine ⟨hone, rfl, complete_of_filled hset hp hst hall, ?_⟩
      intro q hq
      obtain rfl := Child.running_unique hp hq
      have hlast := lastPass_reachable hset hp
      have hwin := hlast.windowDone (SnapshotPc.pastLoop_of_taken (hall ⟨0, by decide⟩))
      exact hlast.fastDone (Or.inr (WindowPc.pastLast_of_isDone hwin))
    · rw [hone] at hmem
      cases hmem
  · rename_i status hc
    rcases hone with ⟨hh, _⟩ | ⟨snap', hh, hcomp⟩
    · rw [hh] at hmem
      cases hmem
    · rw [hh, List.mem_singleton] at hmem
      obtain ⟨rfl, rfl⟩ := Prod.mk.inj hmem
      refine ⟨hh, rfl, hcomp, ?_⟩
      intro q hq
      rw [hc] at hq
      cases hq
  · rw [hone] at hmem
    cases hmem

/-- The counter, until the first attempt has been waited for. -/
theorem generation_of_first {s : Pipeline} (h : Reachable s) (hx : s.exits = []) :
    s.layout.control.generation = UInt32.ofNat s.attempt := by
  obtain ⟨past, hr⟩ := Transition.ReachableNoted.of_reachable noteStatuses [] h
  have hgen := (counting_reachable hr).generation
  have huncounted : s.sup.uncounted = true := by
    rcases firstAttempt_reachable h hx with hb | hawait
    · have hprep := hb.sup
      cases hsup : s.sup <;> rw [hsup] at hprep <;> first | rfl | cases hprep
    · cases hsup : s.sup <;> rw [hsup] at hawait <;> first | rfl | cases hawait
  rw [huncounted] at hgen
  exact hgen

/-! ## The attempt can be run to its end -/

/-- The labels of compute's threads. -/
def ofCompute : Act → Prop
  | .fast => True
  | .window => True
  | .snapshot => True
  | .watchdog => True
  | .computeMain => True
  | _ => False

theorem exits_of_compute {s s' : Pipeline} {a : Act} (ha : ofCompute a)
    (hs : s.step a = some s') : s'.exits = s.exits := by
  cases move_of_step hs <;> first | rfl | cases ha

/-- Once ingest is done, compute's threads can run to their ends on their own, and one
snapshot has been handed over then. -/
theorem can_hand_over {s : Pipeline} (h : Reachable s) (hx : s.exits = []) {p : Compute}
    (hp : s.compute = .running p) (ha : p.attached = true)
    (hi : s.layout.control.ingestDone ≠ 0) :
    Transition.CanReach step ofCompute
      (fun s' => (∃ code, s'.compute = .ended (.exited code)) ∧ s'.handed.length = 1) s := by
  have hdrain : Draining (fun _ => False) s :=
    ⟨sound_reachable h, engaged_reachable h, hi, p, hp, ha, by intro X hX; cases hX⟩
  have hends : Transition.CanReach step ofCompute
      (fun s' => s'.compute = .ended (.exited (exitCode s'.layout))) s := by
    refine (hdrain.stages ?_).trans fun s' hs' => hs'.ends trivial trivial
    intro X
    cases X <;> exact Or.inl trivial
  refine (Transition.CanReach.preserve (P := fun s' => Reachable s' ∧ s'.exits = []) ?_ ⟨h, hx⟩
    hends).imp ?_
  · intro s a s' hi hmay hs
    exact ⟨hi.1.tail trivial hs, (exits_of_compute hmay hs).trans hi.2⟩
  · rintro s' ⟨⟨hr, hx'⟩, hc⟩
    have honce := handedOnce_reachable hr hx'
    simp only [HandedOnce, hc] at honce
    refine ⟨⟨_, hc⟩, ?_⟩
    rcases honce with ⟨_, hcode⟩ | ⟨snap, hh, _⟩
    · have hbad := hcode _ rfl
      unfold exitCode at hbad
      split at hbad <;> exact absurd hbad (by decide)
    · rw [hh]
      rfl

end Pipeline

/-! ## With observers -/

namespace Observed

variable {R : Type} [DecidableEq R]

/-- The states of the runs. -/
def Reachable : Observed R → Prop := Transition.Reachable step (fun _ _ => True) Start

/-- Observers see the pipeline and leave no trace in it. -/
theorem Reachable.pipeline {x : Observed R} (h : Reachable x) : Pipeline.Reachable x.system := by
  induction h with
  | init hstart => exact .init hstart.1
  | @tail x x' a _ _ hs ih =>
      cases a with
      | system a =>
          simp only [step, Option.map_eq_some_iff] at hs
          obtain ⟨s', hs', rfl⟩ := hs
          exact ih.tail trivial hs'
      | collect r =>
          simp only [step] at hs
          split at hs
          · obtain rfl := Option.some.inj hs
            exact ih
          · cases hs
      | observe r =>
          simp only [step, Option.map_eq_some_iff] at hs
          obtain ⟨o, _, rfl⟩ := hs
          exact ih

/--
**Complete handoff in the first attempt on a fresh mapping.**

For every replay file and every interleaving of the pipeline's processes and threads with
any number of observers, as long as the first compute attempt has not been waited for:

* at most one snapshot has been handed over, and exactly one when the attempt's snapshot
  thread is past its exchange or the attempt has ended on its own;
* it carries the attempt's generation, the fast thread has ended, and for every source
  its row is the last state published for that source, or zero when none was;
* once ingest is done, compute's threads can run to their ends whatever they have
  done before, with one snapshot handed over.
-/
theorem complete_handoff {x : Observed R} (h : Reachable x) (hx : x.system.exits = []) :
    x.system.handed.length ≤ 1
      ∧ (∀ n snap, (n, snap) ∈ x.system.handed →
          n = 1 ∧ snap.generation = x.system.layout.control.generation
            ∧ (∀ p, x.system.compute = .running p → p.fast.pc.isDone = true)
            ∧ ∀ id,
                (∀ state, (x.system.layout.latest id).versions.getLast? = some state →
                  snap.rows id = { posX := state.posX, posY := state.posY
                                   sequence := state.sequence, publishes := state.publishes })
                ∧ ((x.system.layout.latest id).versions = [] → snap.rows id = {}))
      ∧ (∀ p, x.system.compute = .running p → p.snapshot.pc.handed = true →
          x.system.handed.length = 1)
      ∧ (∀ code, x.system.compute = .ended (.exited code) → code = 0 ∨ code = 3 →
          x.system.handed.length = 1)
      ∧ (∀ p, x.system.compute = .running p → p.attached = true →
          x.system.layout.control.ingestDone ≠ 0 →
          Transition.CanReach Pipeline.step Pipeline.ofCompute
            (fun s => (∃ code, s.compute = .ended (.exited code)) ∧ s.handed.length = 1)
            x.system) := by
  have hr := h.pipeline
  have hone := Pipeline.handedOnce_reachable hr hx
  refine ⟨?_, ?_, ?_, ?_, fun p hp ha hi => Pipeline.can_hand_over hr hx hp ha hi⟩
  · rcases hh : x.system.handed with _ | ⟨⟨n, snap⟩, rest⟩
    · exact Nat.zero_le 1
    · have hmem : (n, snap) ∈ x.system.handed := by rw [hh]; exact List.mem_cons_self
      rw [← hh, (Pipeline.complete_of_handed hr hx hmem).1]
      exact Nat.le_refl 1
  · intro n snap hmem
    obtain ⟨_, rfl, ⟨hgen, hrows⟩, hdone⟩ := Pipeline.complete_of_handed hr hx hmem
    refine ⟨rfl, hgen.trans (Pipeline.generation_of_first hr hx).symm, hdone, ?_⟩
    intro id
    constructor
    · intro state hlast
      rw [hrows id, Layout.lastRow, hlast]
      rfl
    · intro hnil
      rw [hrows id, Layout.lastRow, hnil]
      rfl
  · intro p hp hhanded
    simp only [Pipeline.HandedOnce, hp, hhanded, if_true] at hone
    rw [hone]
    rfl
  · intro code hc hcode
    simp only [Pipeline.HandedOnce, hc] at hone
    rcases hone with ⟨_, hbad⟩ | ⟨snap, hh, _⟩
    · rcases hcode with rfl | rfl <;> exact absurd (hbad _ rfl) (by decide)
    · rw [hh]
      rfl

/-- Two records of one source. The window thread begins a pass between the first publish and
the second, with an observer looking on, and compute runs to its end. -/
def twoSteps : List (ObservedAct Unit) :=
  List.flatten
    [List.replicate 6 (.system (.sup 7)), [.system .ingestMain],
      List.replicate 10 (.system .source), List.replicate 13 (.system .frames),
      List.replicate 4 (.system .ingestMain), List.replicate 2 (.system .computeMain),
      List.replicate 20 (.system .fast), List.replicate 100 (.system .window), [.collect ()],
      List.replicate 30 (.observe ()), List.replicate 23 (.system .fast),
      List.replicate 817 (.system .window), List.replicate 328 (.system .snapshot),
      [.system .watchdog], List.replicate 7 (.system .computeMain)]

/-- The state the second record leaves. -/
def secondState : SourceState :=
  { posX := 1020, velX := 2000, sequence := 1, publishes := 2, valid := 1 }

theorem complete_handoff_two_steps :
    ∃ x : Observed Unit, Reachable x ∧ x.system.exits = []
      ∧ x.system.compute = .ended (.exited 0)
      ∧ ∃ snap, (1, snap) ∈ x.system.handed ∧ x.system.handed.length = 1
        ∧ snap.rows ⟨1, by decide⟩ = { posX := 1020, posY := 0, sequence := 1, publishes := 2 } := by
  have h : (Transition.execWhen step (fun _ _ => true)
      ⟨Pipeline.start (IngestRun.copies 2) 1, fun _ : Unit => Observer.init⟩ twoSteps).any
      (fun x => decide (x.system.exits = [])
        && decide (x.system.compute.wait = some 0)
        && decide ((x.system.layout.latest ⟨1, by decide⟩).versions.getLast? = some secondState))
      = true := by
    decide +kernel
  obtain ⟨x, hrun, hx⟩ := Option.any_eq_true _ _ |>.mp h
  simp only [Bool.and_eq_true, decide_eq_true_eq] at hx
  obtain ⟨⟨hexits, hwait⟩, hlast⟩ := hx
  have hr : Reachable x := Transition.Reachable.execWhen (g := fun _ _ => true)
    (fun _ _ _ => trivial) _ (.init ⟨⟨_, _, rfl⟩, fun _ => rfl⟩) hrun
  have hc : x.system.compute = .ended (.exited 0) := Child.wait_zero hwait
  obtain ⟨_, hhanded, _, hone, _⟩ := complete_handoff hr hexits
  have hlen := hone 0 hc (Or.inl rfl)
  obtain ⟨⟨n, snap⟩, hsingle⟩ := List.length_eq_one_iff.mp hlen
  have hmem : (n, snap) ∈ x.system.handed := by rw [hsingle]; exact List.mem_singleton.mpr rfl
  obtain ⟨rfl, _, _, hrows⟩ := hhanded n snap hmem
  exact ⟨x, hr, hexits, hc, snap, hmem, hlen, (hrows _).1 _ hlast⟩

end Observed

end RateHub
