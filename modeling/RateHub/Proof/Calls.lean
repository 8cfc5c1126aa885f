import RateHub.Process.Compute
import RateHub.Proof.IngestMoves

/-!
# The ring's calls inside the processes

The frames thread steps `try_push` and the fast thread steps `try_pop`; everything
else leaves the ring alone. So the ring's own invariant, over the two calls in
progress, holds in any system built from these threads. This module says which
call each thread is in, and that each step keeps `CallInv`.
-/

namespace RateHub

/-- The `try_push` in progress in the frames thread. -/
def Ingest.pushCall (p : Ingest) : SpscRing.PushPc Record :=
  match p.frames with
  | .push _ call => call
  | _ => .idle

/-- The `try_pop` in progress in the fast thread. -/
def Fast.popCall (t : Fast) : SpscRing.PopPc Record :=
  match t.pc with
  | .pop call => call
  | _ => .idle

namespace SpscRing

variable {α : Type} {C : Capacity}

/-- The producer pops nothing. -/
theorem pushStep_popped (r : SpscRing α C) (p : PushPc α) :
    (pushStep r p).1.popped = r.popped := by
  cases p with
  | loadRead v w =>
      simp only [pushStep]
      split <;> rfl
  | _ => rfl

/-- What a `try_pop` access does to the two histories. -/
theorem popStep_history {r r' : SpscRing α C} {c c' : PopPc α} {b : Option (Option α)}
    (h : popStep r c = (r', c', b)) :
    r'.pushed = r.pushed ∧ r'.popped = r.popped ++ (b.join).toList := by
  cases c with
  | idle =>
      simp only [popStep, Prod.mk.injEq] at h
      obtain ⟨rfl, _, rfl⟩ := h
      simp
  | loadRead =>
      simp only [popStep, Prod.mk.injEq] at h
      obtain ⟨rfl, _, rfl⟩ := h
      simp
  | loadWrite q =>
      simp only [popStep] at h
      split at h
      · simp only [Prod.mk.injEq] at h
        obtain ⟨rfl, _, rfl⟩ := h
        simp
      · simp only [Prod.mk.injEq] at h
        obtain ⟨rfl, _, rfl⟩ := h
        simp
  | copy q =>
      simp only [popStep, Prod.mk.injEq] at h
      obtain ⟨rfl, _, rfl⟩ := h
      simp
  | storeRead q out =>
      simp only [popStep, Prod.mk.injEq] at h
      obtain ⟨rfl, _, rfl⟩ := h
      simp

/-- The producer is killed, or leaves a call that has not stored anything yet. -/
theorem CallInv.dropPush {r : SpscRing α C} {p : PushPc α} {c : PopPc α} (h : CallInv r p c) :
    CallInv r .idle c := ⟨h.ring, trivial, h.pop⟩

/-- The consumer is killed. -/
theorem CallInv.dropPop {r : SpscRing α C} {p : PushPc α} {c : PopPc α} (h : CallInv r p c) :
    CallInv r p .idle := ⟨h.ring, h.push, trivial⟩

/-- The producer calls `try_push`. -/
theorem CallInv.callPush {r : SpscRing α C} {p : PushPc α} {c : PopPc α} (h : CallInv r p c)
    (v : α) : CallInv r (.loadWrite v) c := ⟨h.ring, trivial, h.pop⟩

/-- The consumer calls `try_pop`. -/
theorem CallInv.callPop {r : SpscRing α C} {p : PushPc α} {c : PopPc α} (h : CallInv r p c) :
    CallInv r p .loadRead := ⟨h.ring, h.push, trivial⟩

end SpscRing

/-- **The frames thread keeps the ring's invariant.** -/
theorem Ingest.stepFrames_calls {l l' : Layout} {p p' : Ingest} {c : SpscRing.PopPc Record}
    (h : SpscRing.CallInv l.ring p.pushCall c) (hs : p.stepFrames l = some (l', p')) :
    SpscRing.CallInv l'.ring p'.pushCall c := by
  -- only inside a call does a step touch the ring
  cases Ingest.framesMove hs with
  | access hpc hr =>
      have hpush := h.pushStep
      simp only [Ingest.pushCall, hpc, hr] at hpush
      exact hpush
  | pushed hpc hr =>
      have hpush := h.pushStep
      simp only [Ingest.pushCall, hpc, hr] at hpush
      exact hpush.dropPush
  | full hpc hr =>
      have hpush := h.pushStep
      simp only [Ingest.pushCall, hpc, hr] at hpush
      exact hpush.dropPush
  | record hpc hd => exact h.callPush _
  | retry hpc hflag => exact h.callPush _
  | _ => exact h.dropPush

theorem Ingest.stepFrames_popped {l l' : Layout} {p p' : Ingest}
    (hs : p.stepFrames l = some (l', p')) : l'.ring.popped = l.ring.popped := by
  have hpop := SpscRing.pushStep_popped l.ring
  cases Ingest.framesMove hs with
  | @access record call call' ring hpc hr =>
      have hcall := hpop call
      rw [hr] at hcall
      exact hcall
  | @pushed record call call' ring hpc hr =>
      have hcall := hpop call
      rw [hr] at hcall
      exact hcall
  | @full record call call' ring hpc hr =>
      have hcall := hpop call
      rw [hr] at hcall
      exact hcall
  | _ => rfl

/-- Taking in a record leaves the fast thread outside `try_pop`, or at its start. -/
theorem Fast.absorb_popCall (t : Fast) (record : Record) {r : SpscRing Record kRingCapacity}
    {p : SpscRing.PushPc Record} {c : SpscRing.PopPc Record} (h : SpscRing.CallInv r p c) :
    SpscRing.CallInv r p (t.absorb record).popCall := by
  unfold Fast.absorb
  split
  · exact h.dropPop
  · exact h.callPop

/-- **The fast thread keeps the ring's invariant.** -/
theorem fastStep_calls {clock : UInt64} {l l' : Layout} {t t' : Fast}
    {p : SpscRing.PushPc Record} (h : SpscRing.CallInv l.ring p t.popCall)
    (hs : fastStep clock l t = some (l', t')) : SpscRing.CallInv l'.ring p t'.popCall := by
  unfold fastStep at hs
  cases hpc : t.pc with
  | pop call =>
      have hcall : t.popCall = call := by simp [Fast.popCall, hpc]
      rw [hcall] at h
      have hpop := h.popStep
      simp only [hpc] at hs
      split at hs <;> rename_i hr <;> rw [hr] at hpop <;>
        simp only [Option.some.injEq, Prod.mk.injEq] at hs <;> obtain ⟨rfl, rfl⟩ := hs
      · exact hpop
      · exact hpop.dropPop
      · exact t.absorb_popCall _ hpop
  | _ =>
      simp only [hpc] at hs
      (try split at hs) <;> try simp only [Option.some.injEq, Prod.mk.injEq, reduceCtorEq] at hs
      all_goals
        obtain ⟨rfl, rfl⟩ := hs
        first
        | exact h.dropPop
        | exact h.callPop

/-! ## Where the fast thread's loop ends -/

/-- The fast thread has found the ring empty in a cycle that drained nothing, and has
not loaded `ingest_done` yet. -/
def Fast.inGap (t : Fast) : Bool :=
  match t.pc with
  | .work => !t.drained
  | .testDone _ => true
  | _ => false

/-- The fast thread has left its loop. -/
def FastPc.left : FastPc → Bool
  | .storeDone => true
  | .done => true
  | _ => false

theorem Fast.absorb_inGap (t : Fast) (record : Record) : (t.absorb record).inGap = false := by
  unfold Fast.absorb
  split <;> rfl

theorem Fast.absorb_left (t : Fast) (record : Record) :
    (t.absorb record).pc.left = false := by
  unfold Fast.absorb
  split <;> rfl

theorem Fast.absorb_integrated (t : Fast) (record : Record) :
    (t.absorb record).integrated = t.integrated ++ [record] := by
  unfold Fast.absorb
  split <;> rfl

/-- The gap is entered at the load of `write_` that finds the ring empty. -/
theorem fastStep_inGap {clock : UInt64} {l l' : Layout} {t t' : Fast}
    (h : fastStep clock l t = some (l', t')) (hg : t'.inGap = true) :
    l'.ring = l.ring
      ∧ (t.inGap = true ∨ ∃ q, t.pc = .pop (.loadWrite q) ∧ q = l.ring.write) := by
  unfold fastStep at h
  cases hpc : t.pc with
  | pop call =>
      simp only [hpc] at h
      split at h
      · simp only [Option.some.injEq, Prod.mk.injEq] at h
        obtain ⟨rfl, rfl⟩ := h
        exact absurd hg (by simp [Fast.inGap])
      · rename_i hr
        simp only [Option.some.injEq, Prod.mk.injEq] at h
        obtain ⟨rfl, rfl⟩ := h
        cases call with
        | loadWrite q =>
            simp only [SpscRing.popStep] at hr
            split at hr
            · rename_i hq
              simp only [Prod.mk.injEq] at hr
              exact ⟨hr.1.symm, Or.inr ⟨q, rfl, hq⟩⟩
            · exact absurd hr (by simp)
        | _ => simp [SpscRing.popStep] at hr
      · simp only [Option.some.injEq, Prod.mk.injEq] at h
        obtain ⟨rfl, rfl⟩ := h
        rw [t.absorb_inGap] at hg
        exact absurd hg (by simp)
  | work =>
      simp only [hpc] at h
      split at h
      · simp only [Option.some.injEq, Prod.mk.injEq] at h
        obtain ⟨rfl, rfl⟩ := h
        exact absurd hg (by simp [Fast.inGap])
      · rename_i hd
        simp only [Option.some.injEq, Prod.mk.injEq] at h
        obtain ⟨rfl, rfl⟩ := h
        exact ⟨rfl, Or.inl (by simpa [Fast.inGap, hpc] using hd)⟩
  | _ =>
      simp only [hpc] at h
      (try split at h) <;> try simp only [Option.some.injEq, Prod.mk.injEq, reduceCtorEq] at h
      all_goals
        obtain ⟨rfl, rfl⟩ := h
        exact absurd hg (by simp [Fast.inGap])

/-- The loop is left on the shutdown flag, or from the gap on `ingest_done`. -/
theorem fastStep_left {clock : UInt64} {l l' : Layout} {t t' : Fast}
    (h : fastStep clock l t = some (l', t')) (hl : t'.pc.left = true) :
    l'.ring = l.ring
      ∧ (t.pc.left = true ∨ l.control.shutdown ≠ 0
          ∨ (t.inGap = true ∧ l.control.ingestDone ≠ 0)) := by
  unfold fastStep at h
  cases hpc : t.pc with
  | test =>
      simp only [hpc] at h
      split at h
      · rename_i hstop
        simp only [Option.some.injEq, Prod.mk.injEq] at h
        obtain ⟨rfl, rfl⟩ := h
        exact ⟨rfl, Or.inr (Or.inl hstop)⟩
      · simp only [Option.some.injEq, Prod.mk.injEq] at h
        obtain ⟨rfl, rfl⟩ := h
        exact absurd hl (by simp [FastPc.left])
  | testDone work =>
      simp only [hpc] at h
      split at h
      · rename_i hflag
        simp only [Option.some.injEq, Prod.mk.injEq] at h
        obtain ⟨rfl, rfl⟩ := h
        exact ⟨rfl, Or.inr (Or.inr ⟨by simp [Fast.inGap, hpc], hflag⟩)⟩
      · simp only [Option.some.injEq, Prod.mk.injEq] at h
        obtain ⟨rfl, rfl⟩ := h
        exact absurd hl (by simp [FastPc.left])
  | storeDone =>
      simp only [hpc, Option.some.injEq, Prod.mk.injEq] at h
      obtain ⟨rfl, rfl⟩ := h
      exact ⟨rfl, Or.inl rfl⟩
  | pop call =>
      simp only [hpc] at h
      split at h <;> simp only [Option.some.injEq, Prod.mk.injEq] at h <;> obtain ⟨rfl, rfl⟩ := h
      · exact absurd hl (by simp [FastPc.left])
      · exact absurd hl (by simp [FastPc.left])
      · rw [t.absorb_left] at hl
        exact absurd hl (by simp)
  | _ =>
      simp only [hpc] at h
      (try split at h) <;> try simp only [Option.some.injEq, Prod.mk.injEq, reduceCtorEq] at h
      all_goals
        obtain ⟨rfl, rfl⟩ := h
        exact absurd hl (by simp [FastPc.left])

/-- What the fast thread pops it integrates, in the same step. -/
theorem fastStep_integrated {clock : UInt64} {l l' : Layout} {t t' : Fast}
    (h : fastStep clock l t = some (l', t')) :
    ∃ new, l'.ring.popped = l.ring.popped ++ new ∧ t'.integrated = t.integrated ++ new := by
  unfold fastStep at h
  cases hpc : t.pc with
  | pop call =>
      simp only [hpc] at h
      split at h <;> rename_i hr <;> simp only [Option.some.injEq, Prod.mk.injEq] at h <;>
        obtain ⟨rfl, rfl⟩ := h <;> have hpop := (SpscRing.popStep_history hr).2
      · exact ⟨[], by simpa using hpop, by simp⟩
      · exact ⟨[], by simpa using hpop, by simp⟩
      · exact ⟨_, hpop, t.absorb_integrated _⟩
  | _ =>
      simp only [hpc] at h
      (try split at h) <;> try simp only [Option.some.injEq, Prod.mk.injEq, reduceCtorEq] at h
      all_goals
        obtain ⟨rfl, rfl⟩ := h
        exact ⟨[], by simp, by simp⟩

/-! ## What a step of a compute thread may touch -/

/-- The fast thread works on the ring, the `latest` slots and four words of its own. -/
theorem fastStep_layout {clock : UInt64} {l l' : Layout} {t t' : Fast}
    (h : fastStep clock l t = some (l', t')) :
    ∃ hb hc ov fd r la, l' =
      { l with
        control := { l.control with heartbeatFast := hb, heartbeatCompute := hc
                                    overrunFast := ov, fastDone := fd }
        ring := r, latest := la } := by
  unfold fastStep at h
  repeat' split at h
  all_goals simp only [Option.some.injEq, Prod.mk.injEq, reduceCtorEq] at h
  all_goals exact ⟨_, _, _, _, _, _, h.1.symm⟩

/-- The window thread works on the `window` slots and three words of its own. -/
theorem windowStep_layout {clock : UInt64} {l l' : Layout} {t t' : Window}
    (h : windowStep clock l t = some (l', t')) :
    ∃ hb ov wd wi, l' =
      { l with
        control := { l.control with heartbeatWindow := hb, overrunWindow := ov, windowDone := wd }
        window := wi } := by
  unfold windowStep at h
  repeat' split at h
  all_goals simp only [Option.some.injEq, Prod.mk.injEq, reduceCtorEq] at h
  all_goals exact ⟨_, _, _, _, h.1.symm⟩

/-- The snapshot thread works on the triple buffer and three words of its own. -/
theorem snapshotStep_layout {clock : UInt64} {l l' : Layout} {t t' : SnapshotThread}
    (h : snapshotStep clock l t = some (l', t')) :
    ∃ hb ov sd b, l' =
      { l with
        control := { l.control with heartbeatSnapshot := hb, overrunSnapshot := ov
                                    snapshotDone := sd }
        snapshots := b } := by
  unfold snapshotStep at h
  repeat' split at h
  all_goals simp only [Option.some.injEq, Prod.mk.injEq, reduceCtorEq] at h
  all_goals exact ⟨_, _, _, _, h.1.symm⟩

/-- The watchdog stores the fault flag. -/
theorem watchdogStep_layout {clock : UInt64} {l l' : Layout} {pc pc' : WatchdogPc}
    (h : watchdogStep clock l pc = some (l', pc')) :
    ∃ f, l' = { l with control := { l.control with fault := f } } := by
  unfold watchdogStep at h
  repeat' split at h
  all_goals simp only [Option.some.injEq, Prod.mk.injEq, reduceCtorEq] at h
  all_goals exact ⟨_, h.1.symm⟩

/-- The main thread stores `compute_done`. -/
theorem computeMainStep_layout {l l' : Layout} {p : Compute} {pc' : ComputeMainPc}
    (h : computeMainStep l p = some (l', pc')) :
    ∃ cd, l' = { l with control := { l.control with computeDone := cd } } := by
  unfold computeMainStep at h
  repeat' split at h
  all_goals simp only [Option.some.injEq, Prod.mk.injEq, reduceCtorEq] at h
  all_goals exact ⟨_, h.1.symm⟩

end RateHub
