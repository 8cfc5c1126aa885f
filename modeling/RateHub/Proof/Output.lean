import RateHub.Proof.Intake
import RateHub.Proof.Whole

/-!
# From the replay file to the output file

The ends put together. In a run of one pipeline in which nobody kills compute and no attempt
ends with a fault, the one snapshot that is ever handed over is `expected` of the records
popped, those are a prefix of the file's good records, and the output file is never torn. So
whatever is in the output file is a true account of a beginning of the replay file.

When the pipeline reports a success, ingest's flag has stayed out of the gap and publish has
not left over a fresh snapshot, it is the account of the whole file.
-/

namespace RateHub

namespace Pipeline

/-- What was handed over shows what was popped. -/
theorem handed_expected {s : Pipeline} (hset : ReachableSettled s) (h : OneWorker s) :
    s.handed = [] ∨ ∃ n, s.handed = [(n, expected n s.layout.ring.popped)] := by
  unfold OneWorker at h
  cases hc : s.compute with
  | running p =>
      simp only [hc] at h
      split at h
      · by_cases hh : p.snapshot.pc.handed = true
        · right
          exact ⟨s.attempt, by rw [h.handed, if_pos hh, h.worked hset hc hh]⟩
        · left
          rw [h.handed, if_neg hh]
      · exact Or.inl h.1.handed
  | ended status =>
      cases status with
      | signaled => simp only [hc] at h
      | exited code =>
          simp only [hc] at h
          rcases h with ⟨hu, _⟩ | ⟨_, hw⟩
          · exact Or.inl hu.handed
          · exact Or.inr ⟨_, hw⟩
  | unborn =>
      simp only [hc] at h
      exact Or.inl h.handed
  | failed =>
      simp only [hc] at h
      exact Or.inl h.handed

/-! ## Whatever is in the file -/

/-- One pipeline, nobody kills compute, and publish is not killed inside its exchange. -/
def tidy (s : Pipeline) (a : Act) : Bool := s.orderly a && s.killsClean a

/-- The tidy runs, with the kills that leave the output file open noted. -/
def ReachableTidy (x : Transition.Noted Pipeline Bool) : Prop :=
  Transition.ReachableNoted step noteTorn (fun x a => x.now.tidy a = true) Start false x

theorem ReachableTidy.orderly {x : Transition.Noted Pipeline Bool} (h : ReachableTidy x) :
    ReachableOrderly x.now :=
  Transition.ReachableNoted.now_of (fun _ _ ha => (Bool.and_eq_true _ _ |>.mp ha).1) h

theorem ReachableTidy.noting {x : Transition.Noted Pipeline Bool} (h : ReachableTidy x) :
    ReachableNoting x :=
  Transition.Reachable.mono (fun _ _ ha => (Bool.and_eq_true _ _ |>.mp ha).2) h

theorem not_rerun {s : Pipeline} {a : Act} (h : s.orderly a = true) : a ≠ .rerun := by
  simp only [orderly, Bool.and_eq_true, decide_eq_true_eq] at h
  exact h.1

theorem popped_within {s : Pipeline} (hsound : Sound s) (h : Intake s) :
    s.layout.ring.popped <+: replayRecords s.replay :=
  hsound.calls.ring.popped_prefix.trans h.within

/--
**The output file is a true account of a beginning of the replay file.**

For every replay file and every interleaving of one pipeline, with spawns failing, children
refused, crashed on request or killed at any point, except that nobody kills compute and
publish is not killed between its exchange and its index store, and as long as no attempt has
ended with a fault: if there is an output file, it is empty exactly while publish has it open
and when publish was killed then, and otherwise its text is that of the snapshot one gets by
passing the first few good records of the replay file through `integrate`, in order.
-/
theorem output_of_replay {x : Transition.Noted Pipeline Bool} (h : ReachableTidy x)
    (hx : 3 ∉ x.now.exits) {text : String} (ht : x.now.outFile = some text) :
    (text = "" ↔ x.now.fileOpen = true ∨ x.past = true)
      ∧ (text ≠ "" → ∃ n records, records <+: replayRecords x.now.replay
        ∧ text = (expected n records).render) := by
  have horderly := h.orderly
  have hintake := intake_reachable (fun _ _ ha => not_rerun ha) horderly
  obtain ⟨hset, hone⟩ := oneWorker_reachable horderly hx
  obtain ⟨-, hfiled⟩ := filed_reachable h.noting
  refine ⟨?_, fun hne => ?_⟩
  · rw [← hfiled.empty, ht, Option.some.injEq]
  · obtain ⟨handover, hmem, rfl⟩ := (hfiled.source text ht).2.resolve_left hne
    rcases handed_expected hset hone with hnil | ⟨n, hn⟩
    · rw [hnil] at hmem
      cases hmem
    · rw [hn, List.mem_singleton] at hmem
      exact ⟨n, _, popped_within (sound_reachable horderly) hintake, by rw [hmem]⟩

/-- The first attempt crashes on request. The second one finds the ring empty after the first
of two records, ingest pushes the other and stores its flag, and the attempt ends. -/
def lostInGap : List Act :=
  List.flatten
    [List.replicate 6 (.sup 7), [.computeCrash], List.replicate 5 (.sup 7), [.ingestMain],
      List.replicate 4 .source, List.replicate 6 .frames, List.replicate 2 .computeMain,
      List.replicate 27 .fast, List.replicate 6 .source, List.replicate 7 .frames,
      List.replicate 3 .ingestMain, List.replicate 3 .fast, List.replicate 457 .window,
      List.replicate 328 .snapshot, [.watchdog], List.replicate 7 .computeMain,
      List.replicate 75 .publish]

theorem output_of_replay_first_record :
    ∃ x, ReachableTidy x ∧ x.now.replay = IngestRun.copies 2
      ∧ x.now.outFile = some "generation 2\n1 1010 0 1\n"
      ∧ ∃ n records, records <+: replayRecords (IngestRun.copies 2)
        ∧ "generation 2\n1 1010 0 1\n" = (expected n records).render := by
  have h : (Transition.execWhen (Transition.notedStep step noteTorn) (fun x a => x.now.tidy a)
      ⟨start (IngestRun.copies 2) 1, false⟩ lostInGap).any
      (fun x => decide (x.now.replay = IngestRun.copies 2) && decide (x.now.exits = [2])
        && decide (x.now.outFile = some "generation 2\n1 1010 0 1\n")) = true := by
    decide +kernel
  obtain ⟨x, hrun, hx⟩ := Option.any_eq_true _ _ |>.mp h
  simp only [Bool.and_eq_true, decide_eq_true_eq] at hx
  obtain ⟨⟨hre, hexits⟩, hfile⟩ := hx
  have hr : ReachableTidy x :=
    Transition.ReachableNoted.execWhen (fun _ _ hg => hg) ⟨_, _, rfl⟩ hrun
  obtain ⟨-, htext⟩ := output_of_replay hr (by rw [hexits]; decide) hfile
  obtain ⟨n, records, hwithin, heq⟩ := htext (by decide)
  exact ⟨x, hr, hre, hfile, n, records, hre ▸ hwithin, heq⟩

/-! ## The file of a success -/

/-- The step is orderly, delivers the snapshot and keeps the flag out of the gap. -/
def lossless (s : Pipeline) (a : Act) : Bool := s.orderly a && s.delivers a && s.keepsOut a

/-- The states of the runs that lose nothing. -/
def ReachableLossless : Pipeline → Prop :=
  Transition.Reachable step (fun s a => s.lossless a = true) Start

theorem lossless_parts {s : Pipeline} {a : Act} (h : s.lossless a = true) :
    s.orderly a = true ∧ s.delivers a = true ∧ s.keepsOut a = true := by
  simp only [lossless, Bool.and_eq_true] at h
  exact ⟨h.1.1, h.1.2, h.2⟩

/-- A successful attempt has popped all of the file. -/
def Consumed (s : Pipeline) : Prop :=
  s.compute = .ended (.exited 0) → s.layout.ring.popped = replayRecords s.replay

theorem consumed_step {s s' : Pipeline} {a : Act} (h : Consumed s) (hsound : Sound s)
    (hintake : Intake s) (hdrains : Drains s) (hs : s.step a = some s') : Consumed s' := by
  have hring : a ≠ .fast → s'.layout.ring.popped = s.layout.ring.popped := by
    intro hfa
    by_cases hf : a = .frames
    · subst hf
      cases move_of_step hs with
      | frames hp hm hst => exact Ingest.stepFrames_popped hst
    · rw [ring_of_step hs hf hfa]
  intro he
  cases move_of_step hs with
  | @computeExit p code hp hm =>
      have hst := hsound.stages p hp
      have hleft : p.fast.pc.left = true := by
        have hd := hst.joinedFast (by rw [hm]; exact Nat.le_add_left 1 3)
        cases hpc : p.fast.pc with
        | done => rfl
        | _ => rw [hpc] at hd; cases hd
      -- the attempt saw the flag, so all is in the ring's history, and it has drained the ring
      have hall := hintake.done (hst.left hleft) (hsound.skeleton.no_shutdown hp)
      have hlen : s.layout.ring.popped.length = s.layout.ring.pushed.length :=
        hdrains.left p hp hleft
      show s.layout.ring.popped = replayRecords s.replay
      rw [← hall]
      exact hsound.calls.ring.popped_prefix.eq_of_length hlen
  | rerun hsup => cases he
  | spawnCompute hsup => cases he
  | noCompute hsup => cases he
  | fast hp ha hst => cases he
  | window hp ha hst => cases he
  | snapshot hp ha hpc hst => cases he
  | handOver hp ha hpc hst => cases he
  | watchdog hp ha hst => cases he
  | computeMain hp hst => cases he
  | computeCrash hp hm => cases he
  | computeRefused hp hm => cases he
  | killCompute hp => cases he
  | _ => exact (hring (by simp)).trans (h he)

/-- What a run keeps that loses no record. -/
theorem consumed_reachable {ok : Pipeline → Act → Prop}
    (hok : ∀ s a, ok s a → s.orderly a = true ∧ s.keepsOut a = true) {s : Pipeline}
    (h : Transition.Reachable step ok Start s) : Consumed s := by
  have hall : Drains s ∧ Consumed s := by
    induction h with
    | init hstart =>
        obtain ⟨replay, clock, rfl⟩ := hstart
        exact ⟨drains_start replay clock, fun he => by cases he⟩
    | tail hr ha hs ih =>
        obtain ⟨horderly, hout⟩ := hok _ _ ha
        have hsound := sound_reachable hr
        have hintake := intake_reachable (fun s a ha => not_rerun (hok s a ha).1) hr
        exact ⟨drains_step ih.1 hsound (not_rerun horderly) hout hs,
          consumed_step ih.2 hsound hintake ih.1 hs⟩
  exact hall.2

/-- A supervisor that knows of a success has waited for an attempt that ended well. -/
def WonEnded (s : Pipeline) : Prop := s.sup.won = true → s.compute = .ended (.exited 0)

/-- A supervisor's store carries its knowledge of a success on. -/
theorem won_of_store {l l' : Layout} {pc pc' : SupPc} (hs : supStep l pc = some (l', pc'))
    (h : pc'.won = true) : pc.won = true := by
  cases pc with
  | storeComputeExit n status =>
      simp only [supStep, Option.some.injEq, Prod.mk.injEq] at hs
      rw [← hs.2] at h
      unfold SupPc.afterCompute at h
      split at h
      · rename_i hz
        simp [SupPc.won, hz]
      · split at h <;> cases h
  | storePublishExit ok ist pst =>
      simp only [supStep, Option.some.injEq, Prod.mk.injEq] at hs
      rw [← hs.2] at h
      simp only [SupPc.won, pipelineResult] at h ⊢
      split at h
      · exact absurd h (by decide)
      · rename_i hok
        simp only [not_or, Bool.not_eq_false] at hok
        exact hok.1
  | _ =>
      simp only [supStep, Option.some.injEq, Prod.mk.injEq, reduceCtorEq] at hs
      all_goals
        rw [← hs.2] at h
        exact h

theorem wonEnded_step {s s' : Pipeline} {a : Act} (h : WonEnded s) (hsk : Skeleton s)
    (hs : s.step a = some s') : WonEnded s' := by
  -- while compute runs the supervisor is waiting for it
  have hrun : ∀ {p : Compute}, s.compute = .running p → s'.sup = s.sup → WonEnded s' := by
    intro p hp hsup hw
    have hawait := hsk.running p hp
    rw [hsup] at hw
    cases hpc : s.sup <;> simp [hpc, SupPc.awaiting, SupPc.won] at hawait hw
  cases move_of_step hs with
  | reapCompute hsup hw =>
      intro hwon
      simp only [SupPc.won, decide_eq_true_eq] at hwon
      subst hwon
      exact Child.wait_zero hw
  | reapIngest hsup hw => exact fun hwon => h (by rw [hsup]; exact hwon)
  | reapPublish hsup hw => exact fun hwon => h (by rw [hsup]; exact hwon)
  | store hst => exact fun hwon => h (won_of_store hst hwon)
  | fast hp ha hst => exact hrun hp rfl
  | window hp ha hst => exact hrun hp rfl
  | snapshot hp ha hpc hst => exact hrun hp rfl
  | handOver hp ha hpc hst => exact hrun hp rfl
  | watchdog hp ha hst => exact hrun hp rfl
  | computeMain hp hst => exact hrun hp rfl
  | computeExit hp hm => exact hrun hp rfl
  | computeCrash hp hm => exact hrun hp rfl
  | computeRefused hp hm => exact hrun hp rfl
  | killCompute hp => exact hrun hp rfl
  | spawnIngest hsup => exact fun hwon => by cases hwon
  | noIngest hsup => exact fun hwon => by cases hwon
  | spawnPublish hsup => exact fun hwon => by cases hwon
  | noPublish hsup => exact fun hwon => by cases hwon
  | spawnCompute hsup => exact fun hwon => by cases hwon
  | noCompute hsup => exact fun hwon => by cases hwon
  | rerun hsup => exact fun hwon => by cases hwon
  | _ => exact h

theorem wonEnded_reachable {ok : Pipeline → Act → Prop} {s : Pipeline}
    (h : Transition.Reachable step ok Start s) : WonEnded s := by
  induction h with
  | init hstart =>
      obtain ⟨replay, clock, rfl⟩ := hstart
      exact fun hwon => by cases hwon
  | tail hr _ hs ih => exact wonEnded_step ih (sound_reachable hr).skeleton hs

/--
**The output file of a success is a true account of the whole replay file.**

For every replay file and every interleaving of one pipeline, with spawns failing and children
refused, crashed on request or killed at any point, in which nobody kills compute and no
attempt ends with a fault, ingest does not store its flag while the fast thread is in the gap
over a ring that holds records, and publish neither leaves its loop over a fresh snapshot
nor has left when one is handed over: if `run_once_pipeline` returns 0, the output file is
there, and its text is that of the snapshot one gets by passing every good record of the
replay file through `integrate`, in order, with the number of attempts as generation. That the
text gets out of the stream's buffer once the file is open is taken for granted.
-/
theorem success_is_exact {s : Pipeline} (h : ReachableLossless s) (hx : 3 ∉ s.exits)
    (hr : s.sup = .returned 0) :
    s.outFile = some (expected s.exits.length (replayRecords s.replay)).render := by
  have horderly : ReachableOrderly s := h.mono fun _ _ ha => (lossless_parts ha).1
  have hdeliver : ReachableDelivering s := h.mono fun _ _ ha => (lossless_parts ha).2.1
  obtain ⟨hset, hone⟩ := oneWorker_reachable horderly hx
  have hres := result_reachable hdeliver
  have hend := wonEnded_reachable h (by rw [hr]; rfl)
  obtain ⟨_, snap, hfilter, hdel⟩ := hres.won (by rw [hr]; rfl)
  rw [hres.returned hr] at hdel
  have hw : s.written = some snap := hdel rfl
  have hworked : s.handed = [(s.exits.length, expected s.exits.length s.layout.ring.popped)] := by
    unfold OneWorker at hone
    simp only [hend] at hone
    rcases hone with ⟨_, hcode⟩ | ⟨_, hworked⟩
    · rcases hcode with hcode | hcode <;> exact absurd hcode (by decide)
    · have hlast : s.lastAttempt = s.exits.length := by simp [lastAttempt, hr, SupPc.awaiting]
      unfold Worked at hworked
      rw [hlast] at hworked
      exact hworked
  rw [hworked] at hfilter
  have hsnap : snap = expected s.exits.length s.layout.ring.popped := by
    simpa [eq_comm] using hfilter
  rw [outFile_written h hw, hsnap,
    consumed_reachable (fun _ _ ha => ⟨(lossless_parts ha).1, (lossless_parts ha).2.2⟩) h hend]

theorem success_is_exact_two_records :
    ∃ s, ReachableLossless s ∧ s.replay = IngestRun.copies 2 ∧ s.sup = .returned 0
      ∧ s.outFile = some "generation 1\n1 1020 0 2\n" := by
  have h : (Transition.execWhen step lossless (start (IngestRun.copies 2) 1) inTurn).any
      (fun s => decide (s.replay = IngestRun.copies 2) && decide (s.sup = .returned 0)
        && decide (s.exits = [0])) = true := by
    decide +kernel
  have htext : (expected 1 (replayRecords (IngestRun.copies 2))).render
      = "generation 1\n1 1020 0 2\n" := by
    decide +kernel
  obtain ⟨s, hrun, hs⟩ := Option.any_eq_true _ _ |>.mp h
  simp only [Bool.and_eq_true, decide_eq_true_eq] at hs
  obtain ⟨⟨hre, hret⟩, hexits⟩ := hs
  have hr : ReachableLossless s :=
    Transition.Reachable.execWhen (g := lossless) (fun _ _ hg => hg) _ (.init ⟨_, _, rfl⟩) hrun
  have hfile := success_is_exact hr (by rw [hexits]; decide) hret
  rw [hexits, hre] at hfile
  exact ⟨s, hr, hre, hret, hfile.trans (congrArg some htext)⟩

end Pipeline

end RateHub
