import RateHub.Proof.Stages

/-!
# Each compute thread can finish

For each thread a rank on its program counter (for the fast thread also on what the
ring holds) that every step lowers, given the one flag the thread waits for. The
seqlock calls are bounded by construction: a publish has as many steps as words, a
load at most 64 attempts. So a thread whose flag is up can always be run to its end,
with no help from anybody.
-/

namespace RateHub

/-! ## The bounded calls -/

namespace Seqlock

variable {T : Type} [TriviallyCopyable T]

/-- How many accesses a `publish` still makes, at most. -/
def PubPc.rank : PubPc T → Nat
  | .idle => 0
  | .loadSeq _ => kWords T + 3
  | .storeOdd _ _ => kWords T + 2
  | .words _ _ i => kWords T + 1 - i

theorem publishStep_rank {l l' : Seqlock T} {pc pc' : PubPc T} (h : publishStep l pc = (l', pc'))
    (hbusy : pc' ≠ .idle) : pc'.rank < pc.rank := by
  cases pc with
  | idle =>
      simp only [publishStep, Prod.mk.injEq] at h
      exact absurd h.2.symm hbusy
  | loadSeq v =>
      simp only [publishStep, Prod.mk.injEq] at h
      rw [← h.2]
      exact Nat.lt_succ_self _
  | storeOdd v seq =>
      simp only [publishStep, Prod.mk.injEq] at h
      rw [← h.2]
      simp only [PubPc.rank]
      omega
  | words v seq i =>
      simp only [publishStep] at h
      split at h
      · simp only [Prod.mk.injEq] at h
        rw [← h.2]
        simp only [PubPc.rank]
        omega
      · simp only [Prod.mk.injEq] at h
        exact absurd h.2.symm hbusy

/-- How many accesses a `load` still makes, at most. -/
def LoadPc.rank : LoadPc T → Nat
  | .idle => 0
  | .loadBegin attempt => (64 - attempt) * (kWords T + 3) + (kWords T + 2)
  | .words attempt _ i _ => (64 - attempt) * (kWords T + 3) + (kWords T + 1 - i)

/-- The next attempt costs less than what is left of this one. -/
theorem retry_rank {attempt : Nat} {pc' : LoadPc T}
    (h : retry attempt = (pc', (none : Option Bool))) :
    pc'.rank < (64 - attempt) * (kWords T + 3) := by
  unfold retry at h
  split at h
  · rename_i hlt
    simp only [Prod.mk.injEq] at h
    rw [← h.1]
    have hsplit : 64 - attempt = 64 - (attempt + 1) + 1 := by omega
    simp only [LoadPc.rank]
    rw [hsplit, Nat.add_mul, Nat.one_mul]
    omega
  · simp at h

theorem loadStep_rank {l : Seqlock T} {out out' : T} {pc pc' : LoadPc T}
    (h : loadStep l out pc = (out', pc', none)) (hbusy : pc ≠ .idle) : pc'.rank < pc.rank := by
  cases pc with
  | idle => exact absurd rfl hbusy
  | loadBegin attempt =>
      simp only [loadStep] at h
      split at h
      · have hr := retry_rank (Prod.mk.inj h).2
        simp only [LoadPc.rank] at hr ⊢
        omega
      · simp only [Prod.mk.injEq] at h
        rw [← h.2.1]
        simp only [LoadPc.rank]
        omega
  | words attempt beg i raw =>
      simp only [loadStep] at h
      split at h
      · simp only [Prod.mk.injEq] at h
        rw [← h.2.1]
        simp only [LoadPc.rank]
        omega
      · split at h
        · simp at h
        · have hr := retry_rank (Prod.mk.inj h).2
          simp only [LoadPc.rank] at hr ⊢
          omega

theorem loadStep_busy {l : Seqlock T} {out out' : T} {pc pc' : LoadPc T}
    (h : loadStep l out pc = (out', pc', none)) (hbusy : pc ≠ .idle) : pc' ≠ .idle := by
  have hretry : ∀ attempt, retry attempt = (pc', (none : Option Bool)) → pc' ≠ .idle := by
    intro attempt hr
    unfold retry at hr
    split at hr
    · simp only [Prod.mk.injEq] at hr
      rw [← hr.1]
      simp
    · simp at hr
  cases pc with
  | idle => exact absurd rfl hbusy
  | loadBegin attempt =>
      simp only [loadStep] at h
      split at h
      · exact hretry _ (Prod.mk.inj h).2
      · simp only [Prod.mk.injEq] at h
        rw [← h.2.1]
        simp
  | words attempt beg i raw =>
      simp only [loadStep] at h
      split at h
      · simp only [Prod.mk.injEq] at h
        rw [← h.2.1]
        simp
      · split at h
        · simp at h
        · exact hretry _ (Prod.mk.inj h).2

end Seqlock

/-! ## The window thread, once the fast thread is done -/

/-- What is left of `publish_windows` from source `id` on. -/
def WindowPc.passRank (id : Fin kMaxSources) (rest : Nat) : Nat := (63 - id.val) * 1000 + rest

/-- The rank of the window thread. -/
def WindowPc.rank : WindowPc → Nat
  | .done => 0
  | .storeDone => 1
  | .storeLastBeat _ => 2
  | .lastBeat => 3
  | .load true id _ call => 4 + passRank id (10 + call.rank)
  | .publish true id call => 4 + passRank id (1 + call.rank)
  | .testFast => 70000
  | .finish _ => 70001
  | .work => 70002
  | .load false id _ call => 70003 + passRank id (10 + call.rank)
  | .publish false id call => 70003 + passRank id (1 + call.rank)
  | .start => 140000
  | .storeBeat _ => 140001
  | .beat => 140002
  | .testStop => 140003

/-- Inside `load`, the call is at one of its accesses. -/
def WindowPc.engaged : WindowPc → Prop
  | .load _ _ _ call => call ≠ .idle
  | _ => True

theorem WindowPc.next_rank (last : Bool) (id : Fin kMaxSources) (rest : Nat) (h : 0 < rest) :
    (WindowPc.next last id).rank < (if last then 4 else 70003) + passRank id rest := by
  have hbegin : (Seqlock.LoadPc.loadBegin 0 : Seqlock.LoadPc SourceState).rank = 519 := rfl
  unfold WindowPc.next
  split
  · rename_i hlt
    have hid : id.val + 1 < 64 := hlt
    cases last with
    | true =>
        simp only [WindowPc.rank, passRank, hbegin, if_true]
        omega
    | false =>
        simp only [WindowPc.rank, passRank, hbegin, Bool.false_eq_true, if_false]
        omega
  · cases last with
    | true =>
        simp only [WindowPc.rank, passRank, if_true]
        omega
    | false =>
        simp only [WindowPc.rank, passRank, Bool.false_eq_true, if_false]
        omega

theorem WindowPc.next_engaged (last : Bool) (id : Fin kMaxSources) :
    (WindowPc.next last id).engaged := by
  unfold WindowPc.next
  split
  · simp [WindowPc.engaged]
  · split <;> trivial

/-- **The window thread can always move, and comes closer to its end.** -/
theorem windowStep_progress {l : Layout} {t : Window} (clock : UInt64)
    (hflag : l.control.fastDone ≠ 0) (hnd : t.pc.isDone = false) (he : t.pc.engaged) :
    ∃ l' t', windowStep clock l t = some (l', t') ∧ t'.pc.rank < t.pc.rank := by
  have hbegin : (Seqlock.LoadPc.loadBegin 0 : Seqlock.LoadPc SourceState).rank = 519 := rfl
  unfold windowStep
  cases hpc : t.pc with
  | done => simp [hpc, WindowPc.isDone] at hnd
  | testFast =>
      -- the flag is up, so the loop ends here and the last pass begins
      refine ⟨_, _, if_pos hflag, ?_⟩
      simp [WindowPc.enter, WindowPc.rank, WindowPc.passRank, hbegin]
  | testStop =>
      by_cases hstop : l.control.shutdown ≠ 0
      · refine ⟨_, _, if_pos hstop, ?_⟩
        simp [WindowPc.enter, WindowPc.rank, WindowPc.passRank, hbegin]
      · exact ⟨_, _, if_neg hstop, Nat.lt_succ_self _⟩
  | start =>
      refine ⟨_, _, rfl, ?_⟩
      simp [WindowPc.enter, WindowPc.rank, WindowPc.passRank, hbegin]
  | load last id source call =>
      -- an attempt that failed costs one of the 64; a load that returned moves to the next source
      rw [hpc] at he
      cases hr : Seqlock.loadStep (l.latest id) source call with
      | mk source' rest =>
          obtain ⟨call', ok⟩ := rest
          cases ok with
          | none =>
              have hlt := Seqlock.loadStep_rank hr he
              simp only [hr]
              refine ⟨_, _, rfl, ?_⟩
              cases last <;> simp only [WindowPc.rank, WindowPc.passRank] <;> omega
          | some ok =>
              simp only [hr]
              split
              · refine ⟨_, _, rfl, ?_⟩
                have hn := WindowPc.next_rank last id (10 + call.rank) (by omega)
                cases last <;> simpa [WindowPc.rank] using hn
              · refine ⟨_, _, rfl, ?_⟩
                have hp : (Seqlock.PubPc.loadSeq source'.window).rank = 5 := rfl
                cases last <;> simp only [WindowPc.rank, WindowPc.passRank, hp] <;> omega
  | publish last id call =>
      cases hr : Seqlock.publishStep (l.window id) call with
      | mk lock call' =>
          have hn := WindowPc.next_rank last id (1 + call.rank) (by omega)
          cases call' with
          | idle =>
              simp only [hr]
              refine ⟨_, _, rfl, ?_⟩
              cases last <;> simpa [WindowPc.rank] using hn
          | _ =>
              have hlt := Seqlock.publishStep_rank hr (by simp)
              simp only [hr]
              refine ⟨_, _, rfl, ?_⟩
              cases last <;> simp only [WindowPc.rank, WindowPc.passRank] <;> omega
  | _ => exact ⟨_, _, rfl, by simp [WindowPc.rank]⟩

theorem windowStep_engaged {clock : UInt64} {l l' : Layout} {t t' : Window} (he : t.pc.engaged)
    (hs : windowStep clock l t = some (l', t')) : t'.pc.engaged := by
  unfold windowStep at hs
  cases hpc : t.pc with
  | load last id source call =>
      rw [hpc] at he
      simp only [hpc] at hs
      split at hs
      · rename_i hr
        simp only [Option.some.injEq, Prod.mk.injEq] at hs
        obtain ⟨rfl, rfl⟩ := hs
        exact Seqlock.loadStep_busy hr he
      · split at hs <;> simp only [Option.some.injEq, Prod.mk.injEq] at hs <;>
          obtain ⟨rfl, rfl⟩ := hs
        · exact WindowPc.next_engaged last id
        · trivial
  | publish last id call =>
      simp only [hpc] at hs
      split at hs <;> simp only [Option.some.injEq, Prod.mk.injEq] at hs <;>
        obtain ⟨rfl, rfl⟩ := hs
      · exact WindowPc.next_engaged last id
      · trivial
  | _ =>
      simp only [hpc] at hs
      (try split at hs) <;> try simp only [Option.some.injEq, Prod.mk.injEq, reduceCtorEq] at hs
      all_goals
        obtain ⟨rfl, rfl⟩ := hs
        simp [WindowPc.engaged, WindowPc.enter]

/-! ## The snapshot thread, once the window thread is done -/

/-- The rank of the snapshot thread. -/
def SnapshotPc.rank : SnapshotPc → Nat
  | .done => 0
  | .storeDone => 1
  | .storeLastBeat _ => 2
  | .lastBeat => 3
  | .publish .idle => 4
  | .publish (.update _) => 5
  | .publish .exchange => 6
  | .fill k => 7 + (Snapshot.parts - k)
  | .load id _ call => 100 + (63 - id.val) * 1000 + call.rank
  | .loadGeneration => 70000
  | .testWindow => 70001
  | .finish _ => 70002
  | .work => 70003
  | .start => 70004
  | .storeBeat _ => 70005
  | .beat => 70006
  | .testStop => 70007

/-- Inside `load`, the call is at one of its accesses. -/
def SnapshotPc.engaged : SnapshotPc → Prop
  | .load _ _ call => call ≠ .idle
  | _ => True

theorem SnapshotPc.next_rank (id : Fin kMaxSources) :
    (SnapshotPc.next id).rank < 100 + (63 - id.val) * 1000 := by
  have hbegin : (Seqlock.LoadPc.loadBegin 0 : Seqlock.LoadPc WindowState).rank = 324 := rfl
  unfold SnapshotPc.next
  split
  · rename_i hlt
    have hid : id.val + 1 < 64 := hlt
    simp only [SnapshotPc.rank, hbegin]
    omega
  · have hparts : Snapshot.parts = 65 := rfl
    simp only [SnapshotPc.rank, hparts]
    omega

theorem SnapshotPc.next_engaged (id : Fin kMaxSources) : (SnapshotPc.next id).engaged := by
  unfold SnapshotPc.next
  split <;> simp [SnapshotPc.engaged]

/-- **The snapshot thread can always move, and comes closer to its end.** -/
theorem snapshotStep_progress {l : Layout} {t : SnapshotThread} (clock : UInt64)
    (hflag : l.control.windowDone ≠ 0) (hnd : t.pc.isDone = false) (he : t.pc.engaged) :
    ∃ l' t', snapshotStep clock l t = some (l', t') ∧ t'.pc.rank < t.pc.rank := by
  have hbegin : (Seqlock.LoadPc.loadBegin 0 : Seqlock.LoadPc WindowState).rank = 324 := rfl
  unfold snapshotStep
  cases hpc : t.pc with
  | done => simp [hpc, SnapshotPc.isDone] at hnd
  | testWindow => exact ⟨_, _, if_pos hflag, Nat.lt_succ_self _⟩
  | testStop =>
      by_cases hstop : l.control.shutdown ≠ 0
      · refine ⟨_, _, if_pos hstop, ?_⟩
        simp [SnapshotPc.rank]
      · exact ⟨_, _, if_neg hstop, Nat.lt_succ_self _⟩
  | loadGeneration =>
      refine ⟨_, _, rfl, ?_⟩
      simp [SnapshotPc.rank, hbegin]
  | load id row call =>
      rw [hpc] at he
      have hn := SnapshotPc.next_rank id
      cases hr : Seqlock.loadStep (l.window id) row call with
      | mk row' rest =>
          obtain ⟨call', ok⟩ := rest
          cases ok with
          | none =>
              have hlt := Seqlock.loadStep_rank hr he
              simp only [hr]
              refine ⟨_, _, rfl, ?_⟩
              simp only [SnapshotPc.rank]
              omega
          | some ok =>
              cases ok with
              | true =>
                  simp only [hr]
                  exact ⟨_, _, rfl, Nat.lt_of_lt_of_le hn (Nat.le_add_right _ _)⟩
              | false =>
                  simp only [hr]
                  exact ⟨_, _, rfl, Nat.lt_of_lt_of_le hn (Nat.le_add_right _ _)⟩
  | fill k =>
      refine ⟨_, _, rfl, ?_⟩
      simp only
      split
      · simp only [SnapshotPc.rank]
        omega
      · simp only [SnapshotPc.rank]
        omega
  | publish call =>
      cases call with
      | idle => exact ⟨_, _, rfl, Nat.lt_succ_self _⟩
      | update old => exact ⟨_, _, rfl, by simp [SnapshotPc.rank]⟩
      | exchange => exact ⟨_, _, rfl, by simp [SnapshotPc.rank]⟩
  | _ => exact ⟨_, _, rfl, by simp [SnapshotPc.rank]⟩

theorem snapshotStep_engaged {clock : UInt64} {l l' : Layout} {t t' : SnapshotThread}
    (he : t.pc.engaged) (hs : snapshotStep clock l t = some (l', t')) : t'.pc.engaged := by
  unfold snapshotStep at hs
  cases hpc : t.pc with
  | load id row call =>
      rw [hpc] at he
      simp only [hpc] at hs
      split at hs <;> rename_i hr <;> simp only [Option.some.injEq, Prod.mk.injEq] at hs <;>
        obtain ⟨rfl, rfl⟩ := hs
      · exact Seqlock.loadStep_busy hr he
      · exact SnapshotPc.next_engaged id
      · exact SnapshotPc.next_engaged id
  | fill k =>
      simp only [hpc, Option.some.injEq, Prod.mk.injEq] at hs
      obtain ⟨rfl, rfl⟩ := hs
      simp only
      split <;> trivial
  | _ =>
      simp only [hpc] at hs
      (try split at hs) <;> try simp only [Option.some.injEq, Prod.mk.injEq, reduceCtorEq] at hs
      all_goals
        obtain ⟨rfl, rfl⟩ := hs
        simp [SnapshotPc.engaged]

/-! ## The watchdog, once the snapshot thread is done -/

/-- The rank of the watchdog. -/
def WatchdogPc.rank : WatchdogPc → Nat
  | .done => 0
  | .testSnapshot => 1
  | .storeFault => 2
  | .loadSnapshot _ _ _ => 3
  | .loadWindow _ _ _ => 4
  | .loadFast _ _ _ => 5
  | .loadWindowDone _ _ => 6
  | .loadFastDone _ => 7
  | .now => 8
  | .testStop => 9

/-- **The watchdog can always move, and comes closer to its end.** -/
theorem watchdogStep_progress {l : Layout} {pc : WatchdogPc} (clock : UInt64)
    (hflag : l.control.snapshotDone ≠ 0) (hnd : pc ≠ .done) :
    ∃ l' pc', watchdogStep clock l pc = some (l', pc') ∧ pc'.rank < pc.rank := by
  unfold watchdogStep
  cases pc with
  | done => exact absurd rfl hnd
  | testSnapshot => exact ⟨_, _, if_pos hflag, Nat.lt_succ_self _⟩
  | testStop =>
      by_cases hstop : l.control.shutdown ≠ 0
      · exact ⟨_, _, if_pos hstop, by simp [WatchdogPc.rank]⟩
      · exact ⟨_, _, if_neg hstop, Nat.lt_succ_self _⟩
  | loadSnapshot now lateFast lateWindow =>
      simp only
      split
      · exact ⟨_, _, rfl, by simp [WatchdogPc.rank]⟩
      · exact ⟨_, _, rfl, by simp [WatchdogPc.rank]⟩
  | _ => exact ⟨_, _, rfl, by simp [WatchdogPc.rank]⟩

/-! ## The fast thread, once ingest is done -/

/-- The number of records in the ring. -/
def SpscRing.held {α : Type} {C : Capacity} (r : SpscRing α C) : Nat :=
  r.pushed.length - r.popped.length

/-- How far a `try_pop` is from its end. -/
def popRank : SpscRing.PopPc Record → Nat
  | .idle => 0
  | .storeRead _ _ => 1
  | .copy _ => 2
  | .loadWrite _ => 3
  | .loadRead => 4

/-- The place of the fast thread in its last two cycles: first one that may still drain,
then one that finds nothing. -/
def Fast.place (t : Fast) : Nat :=
  match t.pc with
  | .done => 0
  | .storeDone => 1
  | .testDone _ => 2
  | .work => if t.drained then 13 else 3
  | .pop call => (if t.drained then 13 else 3) + popRank call
  | .start => 8
  | .storeBeat _ => 9
  | .beat => 10
  | .test => 11
  | .finish _ => 12
  | .heartbeat _ => 18
  | .publish _ call _ => 19 + call.rank

/-- The rank of the fast thread: the ring first. -/
def Fast.rank (r : SpscRing Record kRingCapacity) (t : Fast) : Nat := r.held * 30 + t.place

/-- Inside `try_pop`, the call is at one of its accesses. -/
def FastPc.engaged : FastPc → Prop
  | .pop call => call ≠ .idle
  | _ => True

theorem Fast.absorb_place (t : Fast) (record : Record) : (t.absorb record).place ≤ 27 := by
  unfold Fast.absorb
  split
  · rename_i fleet _
    show 19 + (Seqlock.PubPc.loadSeq (fleet.state (sourceIndex record.sourceId)
      (t.publishes (sourceIndex record.sourceId) + 1))).rank ≤ 27
    have hr : ∀ v : SourceState, (Seqlock.PubPc.loadSeq v).rank = 8 := fun _ => rfl
    rw [hr]
  · simp [Fast.place, popRank]

theorem Fast.absorb_engaged (t : Fast) (record : Record) : (t.absorb record).pc.engaged := by
  unfold Fast.absorb
  split <;> simp [FastPc.engaged]

/-- **The fast thread can always move, and comes closer to its end.** -/
theorem fastStep_progress {l : Layout} {t : Fast} {p : SpscRing.PushPc Record} (clock : UInt64)
    (hflag : l.control.ingestDone ≠ 0) (hcalls : SpscRing.CallInv l.ring p t.popCall)
    (hnd : t.pc.isDone = false) (he : t.pc.engaged) :
    ∃ l' t', fastStep clock l t = some (l', t') ∧ t'.rank l'.ring < t.rank l.ring := by
  unfold fastStep
  cases hpc : t.pc with
  | done => simp [hpc, FastPc.isDone] at hnd
  | test =>
      by_cases hstop : l.control.shutdown ≠ 0
      · exact ⟨_, _, if_pos hstop, by simp [Fast.rank, Fast.place, hpc]⟩
      · exact ⟨_, _, if_neg hstop, by simp [Fast.rank, Fast.place, hpc]⟩
  | start => exact ⟨_, _, rfl, by simp [Fast.rank, Fast.place, hpc, popRank]⟩
  | work =>
      simp only
      split
      · rename_i hd
        exact ⟨_, _, rfl, by simp [Fast.rank, Fast.place, hpc, hd]⟩
      · rename_i hd
        exact ⟨_, _, rfl, by simp [Fast.rank, Fast.place, hpc, hd]⟩
  -- an empty cycle with the flag up is the last one
  | testDone work => exact ⟨_, _, if_pos hflag, by simp [Fast.rank, Fast.place, hpc]⟩
  | heartbeat count =>
      refine ⟨_, _, rfl, ?_⟩
      simp only [Fast.rank, Fast.place, hpc, popRank]
      split <;> omega
  | publish id call count =>
      cases hr : Seqlock.publishStep (l.latest id) call with
      | mk lock call' =>
          cases call' with
          | idle =>
              simp only [hr]
              refine ⟨_, _, rfl, ?_⟩
              simp only [Fast.rank, Fast.place, hpc]
              omega
          | _ =>
              have hlt := Seqlock.publishStep_rank hr (by simp)
              simp only [hr]
              refine ⟨_, _, rfl, ?_⟩
              simp only [Fast.rank, Fast.place, hpc]
              omega
  | pop call =>
      cases call with
      | idle =>
          rw [hpc] at he
          exact absurd rfl he
      | loadRead =>
          refine ⟨_, _, rfl, ?_⟩
          simp only [Fast.rank, Fast.place, hpc, popRank]
          split <;> omega
      | loadWrite q =>
          by_cases hq : q = l.ring.write
          · simp only [SpscRing.popStep, if_pos hq]
            refine ⟨_, _, rfl, ?_⟩
            simp only [Fast.rank, Fast.place, hpc, popRank]
            split <;> omega
          · simp only [SpscRing.popStep, if_neg hq]
            refine ⟨_, _, rfl, ?_⟩
            simp only [Fast.rank, Fast.place, hpc, popRank]
            split <;> omega
      | copy q =>
          refine ⟨_, _, rfl, ?_⟩
          simp only [Fast.rank, Fast.place, hpc, popRank]
          split <;> omega
      | storeRead q out =>
          -- the pop takes one record out of the ring
          have hpop := hcalls.pop
          rw [Fast.popCall, hpc] at hpop
          have hlt := (List.getElem?_eq_some_iff.mp hpop.2).1
          refine ⟨_, _, rfl, ?_⟩
          have habs := t.absorb_place out
          simp only [Fast.rank, SpscRing.held, List.length_append, List.length_singleton]
          omega
  | _ => exact ⟨_, _, rfl, by simp [Fast.rank, Fast.place, hpc]⟩

theorem fastStep_engaged {clock : UInt64} {l l' : Layout} {t t' : Fast} (he : t.pc.engaged)
    (hs : fastStep clock l t = some (l', t')) : t'.pc.engaged := by
  unfold fastStep at hs
  cases hpc : t.pc with
  | pop call =>
      rw [hpc] at he
      simp only [hpc] at hs
      split at hs <;> rename_i hr <;> simp only [Option.some.injEq, Prod.mk.injEq] at hs <;>
        obtain ⟨rfl, rfl⟩ := hs
      · cases call with
        | idle => exact absurd rfl he
        | loadWrite q =>
            simp only [SpscRing.popStep] at hr
            split at hr <;> simp only [Prod.mk.injEq] at hr
            · cases hr.2.2
            · rw [← hr.2.1]
              simp [FastPc.engaged]
        | _ =>
            simp only [SpscRing.popStep, Prod.mk.injEq, reduceCtorEq, and_false] at hr
            all_goals
              rw [← hr.2.1]
              simp [FastPc.engaged]
      · trivial
      · exact t.absorb_engaged _
  | _ =>
      simp only [hpc] at hs
      (try split at hs) <;> try simp only [Option.some.injEq, Prod.mk.injEq, reduceCtorEq] at hs
      all_goals
        obtain ⟨rfl, rfl⟩ := hs
        simp [FastPc.engaged]

/-! ## The fast thread, before ingest is done -/

/-- How far the fast thread is from its next pop, in a ring that holds something. -/
def Fast.popPlace (t : Fast) : Nat :=
  match t.pc with
  | .done => 0
  | .storeDone => 0
  | .pop call => popRank call
  | .start => 5
  | .storeBeat _ => 6
  | .beat => 7
  | .test => 8
  | .finish _ => 9
  | .testDone _ => 10
  | .work => 11
  | .heartbeat _ => 12
  | .publish _ call _ => 13 + call.rank

/-- What a step of the fast thread brings while there is something to pop: it comes closer to the
pop, or it has popped. -/
structure Popping (l l' : Layout) (t t' : Fast) : Prop where
  pushed : l'.ring.pushed = l.ring.pushed
  closer : (l'.ring.popped = l.ring.popped ∧ t'.popPlace < t.popPlace)
    ∨ l'.ring.popped.length = l.ring.popped.length + 1

/-- **A fast thread in its loop can always move, and comes closer to a pop.** -/
theorem fastStep_pops {l : Layout} {t : Fast} {p : SpscRing.PushPc Record} (clock : UInt64)
    (hflag : l.control.ingestDone = 0) (hno : l.control.shutdown = 0)
    (hcalls : SpscRing.CallInv l.ring p t.popCall)
    (hsome : l.ring.popped.length < l.ring.pushed.length) (hin : t.pc.left = false)
    (he : t.pc.engaged) :
    ∃ l' t', fastStep clock l t = some (l', t') ∧ Popping l l' t t' := by
  unfold fastStep
  cases hpc : t.pc with
  | done => simp [hpc, FastPc.left] at hin
  | storeDone => simp [hpc, FastPc.left] at hin
  | test =>
      refine ⟨_, _, if_neg (not_not.mpr hno), rfl, Or.inl ⟨rfl, ?_⟩⟩
      simp [Fast.popPlace, hpc]
  | testDone work =>
      refine ⟨_, _, if_neg (not_not.mpr hflag), rfl, Or.inl ⟨rfl, ?_⟩⟩
      simp [Fast.popPlace, hpc]
  | work =>
      simp only
      split
      · exact ⟨_, _, rfl, rfl, Or.inl ⟨rfl, by simp [Fast.popPlace, hpc]⟩⟩
      · exact ⟨_, _, rfl, rfl, Or.inl ⟨rfl, by simp [Fast.popPlace, hpc]⟩⟩
  | start => exact ⟨_, _, rfl, rfl, Or.inl ⟨rfl, by simp [Fast.popPlace, hpc, popRank]⟩⟩
  | heartbeat count =>
      exact ⟨_, _, rfl, rfl, Or.inl ⟨rfl, by simp [Fast.popPlace, hpc, popRank]⟩⟩
  | publish id call count =>
      cases hr : Seqlock.publishStep (l.latest id) call with
      | mk lock call' =>
          cases call' with
          | idle =>
              simp only [hr]
              refine ⟨_, _, rfl, rfl, Or.inl ⟨rfl, ?_⟩⟩
              simp only [Fast.popPlace, hpc]
              omega
          | _ =>
              have hlt := Seqlock.publishStep_rank hr (by simp)
              simp only [hr]
              refine ⟨_, _, rfl, rfl, Or.inl ⟨rfl, ?_⟩⟩
              simp only [Fast.popPlace, hpc]
              omega
  | pop call =>
      have hpop := hcalls.pop
      rw [Fast.popCall, hpc] at hpop
      cases call with
      | idle =>
          rw [hpc] at he
          exact absurd rfl he
      | loadRead =>
          exact ⟨_, _, rfl, rfl, Or.inl ⟨rfl, by simp [Fast.popPlace, hpc, popRank]⟩⟩
      | loadWrite q =>
          -- the ring is not empty, so the check passes
          have hq : q ≠ l.ring.write := by
            rw [show q = l.ring.read from hpop]
            intro heq
            have := hcalls.ring.empty_iff.mp heq
            omega
          simp only [SpscRing.popStep, if_neg hq]
          exact ⟨_, _, rfl, rfl, Or.inl ⟨rfl, by simp [Fast.popPlace, hpc, popRank]⟩⟩
      | copy q => exact ⟨_, _, rfl, rfl, Or.inl ⟨rfl, by simp [Fast.popPlace, hpc, popRank]⟩⟩
      | storeRead q out => exact ⟨_, _, rfl, rfl, Or.inr (by simp)⟩
  | _ => exact ⟨_, _, rfl, rfl, Or.inl ⟨rfl, by simp [Fast.popPlace, hpc]⟩⟩

end RateHub
