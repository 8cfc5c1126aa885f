import RateHub.Proof.Calls
import RateHub.Proof.IngestWakes

/-!
# The end of a run: who saw what last

Ingest pushes its last record and then stores `ingest_done`; the fast thread finds the
ring empty and then loads `ingest_done`. Both sides do the right thing in the wrong order
for each other: between the load that found the ring empty and the load of the flag,
ingest can push and finish.

`inGap` is that stretch of the fast thread's cycle. If `ingest_done` is never stored
inside it over a non-empty ring, then a fast thread that reads the flag has an empty
ring in front of it, and since nobody pushes after the flag, nothing is lost.
-/

namespace RateHub

/-! ## Ingest and the fast thread -/

/-- The ingest process and the fast thread of one compute attempt, on one mapping. -/
structure Handoff where
  layout : Layout
  clock : UInt64
  ingest : Ingest
  fast : Fast

/-- Who moves. Nobody sets the shutdown flag. -/
inductive HandoffAct where
  | source
  | frames
  | ingestMain
  | fast
  | tick (now : UInt64)
  deriving DecidableEq, Repr

namespace Handoff

/-- One step. -/
def step (s : Handoff) : HandoffAct → Option Handoff
  | .source => (s.ingest.stepSource s.layout).map fun r => { s with layout := r.1, ingest := r.2 }
  | .frames => (s.ingest.stepFrames s.layout).map fun r => { s with layout := r.1, ingest := r.2 }
  | .ingestMain =>
      (s.ingest.stepMain s.layout).map fun r => { s with layout := r.1, ingest := r.2 }
  | .fast => (fastStep s.clock s.layout s.fast).map fun r => { s with layout := r.1, fast := r.2 }
  | .tick now => if s.clock ≤ now then some { s with clock := now } else none

/-- Both processes have just started their threads on a freshly constructed mapping. -/
def start (replay : List UInt8) (clock : UInt64) : Handoff :=
  { layout := Layout.init, clock := clock
    ingest := { Ingest.init replay with main := .joinSource }, fast := Fast.init }

/-- The initial states: any replay file, any time. -/
def Start (s : Handoff) : Prop := ∃ replay clock, s = start replay clock

end Handoff

namespace Handoff

/-- The step is not ingest storing `ingest_done` while the fast thread is in the gap and
the ring holds records. -/
def keepsOut (s : Handoff) : HandoffAct → Bool
  | .ingestMain =>
      !(decide (s.ingest.main = .storeDone) && s.fast.inGap
        && decide (s.layout.ring.read ≠ s.layout.ring.write))
  | _ => true

/-- The states of every interleaving. -/
def Reachable : Handoff → Prop := Transition.Reachable step (fun _ _ => True) Start

/-- The states of the interleavings that keep the flag out of the gap. -/
def ReachableOut : Handoff → Prop :=
  Transition.Reachable step (fun s a => s.keepsOut a = true) Start

/-! ## The invariant -/

/-- The ring is empty. -/
def drained (s : Handoff) : Prop := s.layout.ring.popped.length = s.layout.ring.pushed.length

/-- What holds in every run that keeps the flag out of the gap. -/
structure Inv (s : Handoff) : Prop where
  calls : SpscRing.CallInv s.layout.ring s.ingest.pushCall s.fast.popCall
  /-- Nobody sets the shutdown flag. -/
  shutdown : s.layout.control.shutdown = 0
  /-- Every popped record went to `integrate`. -/
  integrated : s.fast.integrated = s.layout.ring.popped
  /-- Past its second join, ingest has no frames thread. -/
  joined : s.ingest.main = .storeDone ∨ s.ingest.main = .exit → s.ingest.frames = .done
  /-- The flag is ingest's last store. -/
  flag : s.layout.control.ingestDone ≠ 0 → s.ingest.main = .exit
  /-- In the gap, the flag is clear or the ring still is empty. -/
  gap : s.fast.inGap = true → s.layout.control.ingestDone ≠ 0 → s.drained
  /-- The loop is left on the flag alone. -/
  left : s.fast.pc.left = true → s.layout.control.ingestDone ≠ 0 ∧ s.drained

theorem inv_start {s : Handoff} (h : Start s) : Inv s := by
  obtain ⟨replay, clock, rfl⟩ := h
  exact
    { calls := ⟨SpscRing.inv_init _, trivial, trivial⟩
      shutdown := rfl
      integrated := rfl
      joined := by intro h; rcases h with h | h <;> cases h
      flag := fun h => absurd rfl h
      gap := by intro h; cases h
      left := by intro h; cases h }

/-- While the frames thread runs, the flag is clear. -/
theorem Inv.flag_clear {s : Handoff} (h : Inv s) (hf : s.ingest.frames ≠ .done) :
    s.layout.control.ingestDone = 0 := by
  by_cases hflag : s.layout.control.ingestDone = 0
  · exact hflag
  · exact absurd (h.joined (Or.inr (h.flag hflag))) hf

/-- The frames thread moves only while it is not done. -/
theorem frames_ne_done {l l' : Layout} {p p' : Ingest} (hs : p.stepFrames l = some (l', p')) :
    p.frames ≠ .done := by
  intro hd
  simp [Ingest.stepFrames, framesStep, hd] at hs

theorem inv_source {s s' : Handoff} (h : Inv s) (hs : s.step .source = some s') : Inv s' := by
  simp only [Handoff.step, Option.map_eq_some_iff] at hs
  obtain ⟨⟨l', p'⟩, hstep, rfl⟩ := hs
  obtain ⟨n, rfl⟩ := Ingest.stepSource_layout hstep
  simp only [Ingest.stepSource, Option.map_eq_some_iff, Prod.mk.injEq] at hstep
  obtain ⟨_, _, _, rfl⟩ := hstep
  exact ⟨h.calls, h.shutdown, h.integrated, h.joined, h.flag, h.gap, h.left⟩

theorem inv_frames {s s' : Handoff} (h : Inv s) (hs : s.step .frames = some s') : Inv s' := by
  simp only [Handoff.step, Option.map_eq_some_iff] at hs
  obtain ⟨⟨l', p'⟩, hstep, rfl⟩ := hs
  have hcalls := Ingest.stepFrames_calls h.calls hstep
  have hpopped := Ingest.stepFrames_popped hstep
  have hclear := h.flag_clear (frames_ne_done hstep)
  have hne := frames_ne_done hstep
  obtain ⟨r, rfl⟩ := Ingest.stepFrames_layout hstep
  simp only [Ingest.stepFrames, Option.map_eq_some_iff, Prod.mk.injEq] at hstep
  obtain ⟨_, _, _, rfl⟩ := hstep
  -- a frames thread that still moves keeps ingest before its flag
  refine ⟨hcalls, h.shutdown, h.integrated.trans hpopped.symm, ?_, h.flag, ?_, ?_⟩
  · intro hm
    exact absurd (h.joined hm) hne
  · intro _ hflag
    exact absurd hclear hflag
  · intro hl
    exact absurd hclear (h.left hl).1

/-- Ingest's main thread: the guard is what its store needs. -/
theorem inv_ingestMain {s s' : Handoff} (h : Inv s) (hk : s.keepsOut .ingestMain = true)
    (hs : s.step .ingestMain = some s') : Inv s' := by
  simp only [Handoff.step, Option.map_eq_some_iff] at hs
  obtain ⟨⟨l', p'⟩, hstep, rfl⟩ := hs
  simp only [Ingest.stepMain, Option.map_eq_some_iff, Prod.mk.injEq] at hstep
  obtain ⟨⟨l₁, m₁⟩, hmain, rfl, rfl⟩ := hstep
  unfold ingestMainStep at hmain
  cases hpc : s.ingest.main with
  | attach => simp [hpc] at hmain
  | joinSource =>
      simp only [hpc] at hmain
      split at hmain
      · simp only [Option.some.injEq, Prod.mk.injEq] at hmain
        obtain ⟨rfl, rfl⟩ := hmain
        refine ⟨h.calls, h.shutdown, h.integrated, by simp, ?_, h.gap, h.left⟩
        intro hflag
        exact absurd (h.flag hflag) (by simp [hpc])
      · exact absurd hmain (by simp)
  | joinFrames =>
      simp only [hpc] at hmain
      split at hmain
      · rename_i hf
        simp only [Option.some.injEq, Prod.mk.injEq] at hmain
        obtain ⟨rfl, rfl⟩ := hmain
        refine ⟨h.calls, h.shutdown, h.integrated, fun _ => hf, ?_, h.gap, h.left⟩
        intro hflag
        exact absurd (h.flag hflag) (by simp [hpc])
      · exact absurd hmain (by simp)
  | storeDone =>
      simp only [hpc, Option.some.injEq, Prod.mk.injEq] at hmain
      obtain ⟨rfl, rfl⟩ := hmain
      -- this is the one store of the flag, so it was clear before
      have hclear : s.layout.control.ingestDone = 0 := by
        by_cases hflag : s.layout.control.ingestDone = 0
        · exact hflag
        · exact absurd (h.flag hflag) (by simp [hpc])
      refine ⟨h.calls, h.shutdown, h.integrated, fun _ => h.joined (Or.inl hpc), fun _ => rfl,
        ?_, ?_⟩
      · -- a fast thread in the gap has seen the ring empty, and the step's condition keeps it so
        intro hg _
        simp only [keepsOut, hpc, hg, decide_true, Bool.and_true, Bool.true_and,
          Bool.not_eq_true', decide_eq_false_iff_not, not_not] at hk
        exact h.calls.ring.empty_iff.mp hk
      · intro hl
        exact absurd hclear (h.left hl).1
  | exit => simp [hpc] at hmain

/-- The fast thread: it enters the gap on an empty ring, and leaves its loop from the gap. -/
theorem inv_fast {s s' : Handoff} (h : Inv s) (hs : s.step .fast = some s') : Inv s' := by
  simp only [Handoff.step, Option.map_eq_some_iff] at hs
  obtain ⟨⟨l', t'⟩, hstep, rfl⟩ := hs
  have hcalls := fastStep_calls h.calls hstep
  have hgap := fastStep_inGap hstep
  have hleft := fastStep_left hstep
  obtain ⟨new, hpopped, hintegrated⟩ := fastStep_integrated hstep
  obtain ⟨hb, hc, ov, fd, r, la, rfl⟩ := fastStep_layout hstep
  have hkeep : s.drained → r = s.layout.ring → r.popped.length = r.pushed.length := by
    intro hd hr
    rw [hr]
    exact hd
  refine ⟨hcalls, h.shutdown, ?_, h.joined, h.flag, ?_, ?_⟩
  · show t'.integrated = r.popped
    rw [hintegrated, h.integrated, hpopped]
  · intro hg hflag
    rcases hgap hg with ⟨hr, hbefore | ⟨q, hpc, hq⟩⟩
    · exact hkeep (h.gap hbefore hflag) hr
    · -- this is the load that found the ring empty
      have hok := h.calls.pop
      rw [Fast.popCall, hpc] at hok
      exact hkeep (h.calls.ring.empty_iff.mp (hok.symm.trans hq)) hr
  · intro hl
    rcases hleft hl with ⟨hr, hbefore | hstop | ⟨hg, hflag⟩⟩
    · have hd := h.left hbefore
      exact ⟨hd.1, hkeep hd.2 hr⟩
    · exact absurd h.shutdown hstop
    · exact ⟨hflag, hkeep (h.gap hg hflag) hr⟩

theorem inv_step {s s' : Handoff} {a : HandoffAct} (h : Inv s) (hk : s.keepsOut a = true)
    (hs : s.step a = some s') : Inv s' := by
  cases a with
  | source => exact inv_source h hs
  | frames => exact inv_frames h hs
  | ingestMain => exact inv_ingestMain h hk hs
  | fast => exact inv_fast h hs
  | tick now =>
      simp only [Handoff.step] at hs
      split at hs
      · obtain rfl := Option.some.inj hs
        exact ⟨h.calls, h.shutdown, h.integrated, h.joined, h.flag, h.gap, h.left⟩
      · exact absurd hs (by simp)

theorem inv_reachable {s : Handoff} (h : ReachableOut s) : Inv s :=
  Transition.Reachable.invariant (fun _ => inv_start) (fun _ _ _ hi hk hs => inv_step hi hk hs) h

/--
**No record is lost when the flag stays out of the gap.**

For every replay file and every interleaving in which ingest does not store
`ingest_done` while the fast thread stands between finding the ring empty and loading the
flag with records in the ring: once the fast thread has left its loop, at its store of
`fast_done` and after it, the ring is empty and every record ever pushed has gone to
`integrate`, in order.
-/
theorem no_record_lost {s : Handoff} (h : ReachableOut s) (hl : s.fast.pc.left = true) :
    s.layout.ring.waiting = [] ∧ s.layout.ring.popped = s.layout.ring.pushed
      ∧ s.fast.integrated = s.layout.ring.pushed := by
  have hi := inv_reachable h
  have hlen := (hi.left hl).2
  have hpopped : s.layout.ring.popped = s.layout.ring.pushed :=
    hi.calls.ring.popped_prefix.eq_of_length hlen
  refine ⟨?_, hpopped, hi.integrated.trans hpopped⟩
  rw [hi.calls.ring.waiting_eq, hlen, List.drop_length]

/-- One valid frame, pushed and flagged before the fast thread looks: its first cycle drains
the record and its second one ends the loop. -/
def drainsFirst : List HandoffAct :=
  List.replicate 6 HandoffAct.source ++ List.replicate 7 HandoffAct.frames
    ++ List.replicate 3 HandoffAct.ingestMain ++ List.replicate 30 HandoffAct.fast

theorem no_record_lost_drained : ∃ s, ReachableOut s ∧ s.fast.pc.left = true
    ∧ s.layout.ring.pushed = [IngestRun.sample]
    ∧ s.fast.integrated = s.layout.ring.pushed := by
  have h : (Transition.execWhen step keepsOut (start (IngestRun.copies 1) 1) drainsFirst).any
      (fun s => s.fast.pc.left && decide (s.layout.ring.pushed = [IngestRun.sample])) = true := by
    decide +kernel
  obtain ⟨s, hrun, hs⟩ := Option.any_eq_true _ _ |>.mp h
  simp only [Bool.and_eq_true, decide_eq_true_eq] at hs
  have hr : ReachableOut s :=
    Transition.Reachable.execWhen (g := keepsOut) (fun _ _ hg => hg) _ (.init ⟨_, _, rfl⟩) hrun
  exact ⟨s, hr, hs.1, hs.2, (no_record_lost hr hs.1).2.2⟩

/-- The fast thread finds the ring empty, ingest runs from beginning to end, and only then
does the fast thread load the flag. -/
def looksTooEarly : List HandoffAct :=
  List.replicate 6 HandoffAct.fast ++ List.replicate 6 HandoffAct.source
    ++ List.replicate 7 HandoffAct.frames ++ List.replicate 3 HandoffAct.ingestMain
    ++ List.replicate 3 HandoffAct.fast

/-- The fast thread is done, `fast_done` is stored, and the one record is still in the ring. -/
theorem record_lost_in_gap : ∃ s, Reachable s ∧ s.fast.pc.left = true
    ∧ s.layout.control.fastDone = 1 ∧ s.layout.ring.waiting = [IngestRun.sample]
    ∧ s.fast.integrated = [] := by
  have h : (Transition.exec step (start (IngestRun.copies 1) 1) looksTooEarly).any
      (fun s => s.fast.pc.left && decide (s.layout.control.fastDone = 1)
        && decide (s.layout.ring.waiting = [IngestRun.sample])
        && decide (s.fast.integrated = [])) = true := by
    decide +kernel
  obtain ⟨s, hrun, hs⟩ := Option.any_eq_true _ _ |>.mp h
  simp only [Bool.and_eq_true, decide_eq_true_eq] at hs
  exact ⟨s, Transition.Reachable.exec (fun _ _ => trivial) _ (.init ⟨_, _, rfl⟩) hrun, hs.1.1.1,
    hs.1.1.2, hs.1.2, hs.2⟩

end Handoff

end RateHub
