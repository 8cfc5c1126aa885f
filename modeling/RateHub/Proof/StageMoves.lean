import RateHub.Process.Compute

/-!
# Everything compute's threads can do

As for ingest's threads: one constructor per way a step of a stage thread, or of the
watchdog, can come about, with what the step knew. The step functions are taken apart
here once, and facts about single steps are proved by cases on the moves.
-/

namespace RateHub

/-- The ways a step of the fast thread can come about. -/
inductive FastMove (clock : UInt64) (l : Layout) (t : Fast) : Layout → Fast → Prop
  | stop (hpc : t.pc = .test) (hflag : l.control.shutdown ≠ 0) :
      FastMove clock l t l { t with pc := .storeDone }
  | go (hpc : t.pc = .test) (hflag : l.control.shutdown = 0) :
      FastMove clock l t l { t with pc := .beat }
  | beat (hpc : t.pc = .beat) : FastMove clock l t l { t with pc := .storeBeat clock }
  | storeBeat {now : UInt64} (hpc : t.pc = .storeBeat now) :
      FastMove clock l t { l with control := { l.control with heartbeatFast := now } }
        { t with pc := .start }
  | start (hpc : t.pc = .start) :
      FastMove clock l t l { t with pc := .pop .loadRead, started := clock, drained := false }
  | access {call call' : SpscRing.PopPc Record} {ring : SpscRing Record kRingCapacity}
      (hpc : t.pc = .pop call) (hr : SpscRing.popStep l.ring call = (ring, call', none)) :
      FastMove clock l t { l with ring := ring } { t with pc := .pop call' }
  | empty {call call' : SpscRing.PopPc Record} {ring : SpscRing Record kRingCapacity}
      (hpc : t.pc = .pop call) (hr : SpscRing.popStep l.ring call = (ring, call', some none)) :
      FastMove clock l t { l with ring := ring } { t with pc := .work }
  | took {call call' : SpscRing.PopPc Record} {ring : SpscRing Record kRingCapacity}
      {record : Record} (hpc : t.pc = .pop call)
      (hr : SpscRing.popStep l.ring call = (ring, call', some (some record))) :
      FastMove clock l t { l with ring := ring } (t.absorb record)
  | storing {id : Fin kMaxSources} {call call' : Seqlock.PubPc SourceState} {count : UInt32}
      {lock : Seqlock SourceState} (hpc : t.pc = .publish id call count)
      (hr : Seqlock.publishStep (l.latest id) call = (lock, call')) (hin : call' ≠ .idle) :
      FastMove clock l t { l with latest := Function.update l.latest id lock }
        { t with pc := .publish id call' count }
  | stored {id : Fin kMaxSources} {call : Seqlock.PubPc SourceState} {count : UInt32}
      {lock : Seqlock SourceState} (hpc : t.pc = .publish id call count)
      (hr : Seqlock.publishStep (l.latest id) call = (lock, .idle)) :
      FastMove clock l t { l with latest := Function.update l.latest id lock }
        { t with pc := .heartbeat count }
  | heartbeat {count : UInt32} (hpc : t.pc = .heartbeat count) :
      FastMove clock l t
        { l with control := { l.control with heartbeatCompute := count.toUInt64 } }
        { t with pc := .pop .loadRead }
  | drained (hpc : t.pc = .work) (hd : t.drained = true) :
      FastMove clock l t l { t with pc := .finish (clock - t.started).toInt64 }
  | dry (hpc : t.pc = .work) (hd : t.drained = false) :
      FastMove clock l t l { t with pc := .testDone (clock - t.started).toInt64 }
  | leave {work : Int64} (hpc : t.pc = .testDone work) (hflag : l.control.ingestDone ≠ 0) :
      FastMove clock l t l { t with pc := .storeDone }
  | stay {work : Int64} (hpc : t.pc = .testDone work) (hflag : l.control.ingestDone = 0) :
      FastMove clock l t l { t with pc := .finish work }
  | finish {work : Int64} (hpc : t.pc = .finish work) :
      FastMove clock l t
        { l with control := { l.control with
                   overrunFast := countOverrun l.control.overrunFast work kFastPeriodNs } }
        { t with pc := .test }
  | storeDone (hpc : t.pc = .storeDone) :
      FastMove clock l t { l with control := { l.control with fastDone := 1 } }
        { t with pc := .done }

theorem fastMove {clock : UInt64} {l l' : Layout} {t t' : Fast}
    (h : fastStep clock l t = some (l', t')) : FastMove clock l t l' t' := by
  unfold fastStep at h
  cases hpc : t.pc with
  | test =>
      simp only [hpc] at h
      split at h <;> rename_i hflag <;> simp only [Option.some.injEq, Prod.mk.injEq] at h <;>
        obtain ⟨rfl, rfl⟩ := h
      · exact .stop hpc hflag
      · exact .go hpc (not_not.mp hflag)
  | pop call =>
      simp only [hpc] at h
      split at h <;> rename_i hr <;> simp only [Option.some.injEq, Prod.mk.injEq] at h <;>
        obtain ⟨rfl, rfl⟩ := h
      · exact .access hpc hr
      · exact .empty hpc hr
      · exact .took hpc hr
  | publish id call count =>
      simp only [hpc] at h
      split at h
      · rename_i hr
        simp only [Option.some.injEq, Prod.mk.injEq] at h
        obtain ⟨rfl, rfl⟩ := h
        exact .stored hpc hr
      · rename_i hin hr
        simp only [Option.some.injEq, Prod.mk.injEq] at h
        obtain ⟨rfl, rfl⟩ := h
        exact .storing hpc hr hin
  | work =>
      simp only [hpc] at h
      split at h <;> rename_i hd <;> simp only [Option.some.injEq, Prod.mk.injEq] at h <;>
        obtain ⟨rfl, rfl⟩ := h
      · exact .drained hpc hd
      · exact .dry hpc (by simpa using hd)
  | testDone work =>
      simp only [hpc] at h
      split at h <;> rename_i hflag <;> simp only [Option.some.injEq, Prod.mk.injEq] at h <;>
        obtain ⟨rfl, rfl⟩ := h
      · exact .leave hpc hflag
      · exact .stay hpc (not_not.mp hflag)
  | done => simp [hpc] at h
  | _ =>
      simp only [hpc, Option.some.injEq, Prod.mk.injEq] at h
      obtain ⟨rfl, rfl⟩ := h
      first
      | exact .beat hpc
      | exact .storeBeat hpc
      | exact .start hpc
      | exact .heartbeat hpc
      | exact .finish hpc
      | exact .storeDone hpc

/-- The ways a step of the window thread can come about. -/
inductive WindowMove (clock : UInt64) (l : Layout) (t : Window) : Layout → Window → Prop
  | sawFast (hpc : t.pc = .testFast) (hflag : l.control.fastDone ≠ 0) :
      WindowMove clock l t l { t with pc := .enter true }
  | notFast (hpc : t.pc = .testFast) (hflag : l.control.fastDone = 0) :
      WindowMove clock l t l { t with pc := .testStop }
  | sawStop (hpc : t.pc = .testStop) (hflag : l.control.shutdown ≠ 0) :
      WindowMove clock l t l { t with pc := .enter true }
  | go (hpc : t.pc = .testStop) (hflag : l.control.shutdown = 0) :
      WindowMove clock l t l { t with pc := .beat }
  | beat (hpc : t.pc = .beat) : WindowMove clock l t l { t with pc := .storeBeat clock }
  | storeBeat {now : UInt64} (hpc : t.pc = .storeBeat now) :
      WindowMove clock l t { l with control := { l.control with heartbeatWindow := now } }
        { t with pc := .start }
  | start (hpc : t.pc = .start) : WindowMove clock l t l { pc := .enter false, started := clock }
  | loading {last : Bool} {id : Fin kMaxSources} {source source' : SourceState}
      {call call' : Seqlock.LoadPc SourceState} (hpc : t.pc = .load last id source call)
      (hr : Seqlock.loadStep (l.latest id) source call = (source', call', none)) :
      WindowMove clock l t l { t with pc := .load last id source' call' }
  | skip {last : Bool} {id : Fin kMaxSources} {source source' : SourceState}
      {call call' : Seqlock.LoadPc SourceState} {ok : Bool}
      (hpc : t.pc = .load last id source call)
      (hr : Seqlock.loadStep (l.latest id) source call = (source', call', some ok))
      (hno : ok = false ∨ source'.valid = 0) :
      WindowMove clock l t l { t with pc := .next last id }
  | sample {last : Bool} {id : Fin kMaxSources} {source source' : SourceState}
      {call call' : Seqlock.LoadPc SourceState} (hpc : t.pc = .load last id source call)
      (hr : Seqlock.loadStep (l.latest id) source call = (source', call', some true))
      (hvalid : source'.valid ≠ 0) :
      WindowMove clock l t l { t with pc := .publish last id (.loadSeq source'.window) }
  | storing {last : Bool} {id : Fin kMaxSources} {call call' : Seqlock.PubPc WindowState}
      {lock : Seqlock WindowState} (hpc : t.pc = .publish last id call)
      (hr : Seqlock.publishStep (l.window id) call = (lock, call')) (hin : call' ≠ .idle) :
      WindowMove clock l t { l with window := Function.update l.window id lock }
        { t with pc := .publish last id call' }
  | stored {last : Bool} {id : Fin kMaxSources} {call : Seqlock.PubPc WindowState}
      {lock : Seqlock WindowState} (hpc : t.pc = .publish last id call)
      (hr : Seqlock.publishStep (l.window id) call = (lock, .idle)) :
      WindowMove clock l t { l with window := Function.update l.window id lock }
        { t with pc := .next last id }
  | work (hpc : t.pc = .work) :
      WindowMove clock l t l { t with pc := .finish (clock - t.started).toInt64 }
  | finish {work : Int64} (hpc : t.pc = .finish work) :
      WindowMove clock l t
        { l with control := { l.control with
                   overrunWindow := countOverrun l.control.overrunWindow work kWindowPeriodNs } }
        { t with pc := .testFast }
  | lastBeat (hpc : t.pc = .lastBeat) :
      WindowMove clock l t l { t with pc := .storeLastBeat clock }
  | storeLastBeat {now : UInt64} (hpc : t.pc = .storeLastBeat now) :
      WindowMove clock l t { l with control := { l.control with heartbeatWindow := now } }
        { t with pc := .storeDone }
  | storeDone (hpc : t.pc = .storeDone) :
      WindowMove clock l t { l with control := { l.control with windowDone := 1 } }
        { t with pc := .done }

theorem windowMove {clock : UInt64} {l l' : Layout} {t t' : Window}
    (h : windowStep clock l t = some (l', t')) : WindowMove clock l t l' t' := by
  unfold windowStep at h
  cases hpc : t.pc with
  | testFast =>
      simp only [hpc] at h
      split at h <;> rename_i hflag <;> simp only [Option.some.injEq, Prod.mk.injEq] at h <;>
        obtain ⟨rfl, rfl⟩ := h
      · exact .sawFast hpc hflag
      · exact .notFast hpc (not_not.mp hflag)
  | testStop =>
      simp only [hpc] at h
      split at h <;> rename_i hflag <;> simp only [Option.some.injEq, Prod.mk.injEq] at h <;>
        obtain ⟨rfl, rfl⟩ := h
      · exact .sawStop hpc hflag
      · exact .go hpc (not_not.mp hflag)
  | load last id source call =>
      simp only [hpc] at h
      split at h
      · rename_i hr
        simp only [Option.some.injEq, Prod.mk.injEq] at h
        obtain ⟨rfl, rfl⟩ := h
        exact .loading hpc hr
      · rename_i ok hr
        split at h <;> rename_i hno <;> simp only [Option.some.injEq, Prod.mk.injEq] at h <;>
          obtain ⟨rfl, rfl⟩ := h
        · exact .skip hpc hr hno
        · rw [not_or, Bool.not_eq_false] at hno
          exact .sample hpc (hno.1 ▸ hr) hno.2
  | publish last id call =>
      simp only [hpc] at h
      split at h
      · rename_i hr
        simp only [Option.some.injEq, Prod.mk.injEq] at h
        obtain ⟨rfl, rfl⟩ := h
        exact .stored hpc hr
      · rename_i hin hr
        simp only [Option.some.injEq, Prod.mk.injEq] at h
        obtain ⟨rfl, rfl⟩ := h
        exact .storing hpc hr hin
  | done => simp [hpc] at h
  | _ =>
      simp only [hpc, Option.some.injEq, Prod.mk.injEq] at h
      obtain ⟨rfl, rfl⟩ := h
      first
      | exact .beat hpc
      | exact .storeBeat hpc
      | exact .start hpc
      | exact .work hpc
      | exact .finish hpc
      | exact .lastBeat hpc
      | exact .storeLastBeat hpc
      | exact .storeDone hpc

/-- The ways a step of the snapshot thread can come about. -/
inductive SnapshotMove (clock : UInt64) (l : Layout) (t : SnapshotThread) :
    Layout → SnapshotThread → Prop
  | sawWindow (hpc : t.pc = .testWindow) (hflag : l.control.windowDone ≠ 0) :
      SnapshotMove clock l t l { t with pc := .loadGeneration }
  | notWindow (hpc : t.pc = .testWindow) (hflag : l.control.windowDone = 0) :
      SnapshotMove clock l t l { t with pc := .testStop }
  | sawStop (hpc : t.pc = .testStop) (hflag : l.control.shutdown ≠ 0) :
      SnapshotMove clock l t l { t with pc := .loadGeneration }
  | go (hpc : t.pc = .testStop) (hflag : l.control.shutdown = 0) :
      SnapshotMove clock l t l { t with pc := .beat }
  | beat (hpc : t.pc = .beat) : SnapshotMove clock l t l { t with pc := .storeBeat clock }
  | storeBeat {now : UInt64} (hpc : t.pc = .storeBeat now) :
      SnapshotMove clock l t { l with control := { l.control with heartbeatSnapshot := now } }
        { t with pc := .start }
  | start (hpc : t.pc = .start) :
      SnapshotMove clock l t l { t with pc := .work, started := clock }
  | work (hpc : t.pc = .work) :
      SnapshotMove clock l t l { t with pc := .finish (clock - t.started).toInt64 }
  | finish {work : Int64} (hpc : t.pc = .finish work) :
      SnapshotMove clock l t
        { l with control := { l.control with
                   overrunSnapshot :=
                     countOverrun l.control.overrunSnapshot work kSnapshotPeriodNs } }
        { t with pc := .testWindow }
  | loadGeneration (hpc : t.pc = .loadGeneration) :
      SnapshotMove clock l t l
        { t with pc := .load ⟨0, by decide⟩ {} (.loadBegin 0)
                 snap := { generation := l.control.generation } }
  | loading {id : Fin kMaxSources} {row row' : WindowState}
      {call call' : Seqlock.LoadPc WindowState} (hpc : t.pc = .load id row call)
      (hr : Seqlock.loadStep (l.window id) row call = (row', call', none)) :
      SnapshotMove clock l t l { t with pc := .load id row' call' }
  | row {id : Fin kMaxSources} {row row' : WindowState}
      {call call' : Seqlock.LoadPc WindowState} (hpc : t.pc = .load id row call)
      (hr : Seqlock.loadStep (l.window id) row call = (row', call', some true)) :
      SnapshotMove clock l t l { t with pc := .next id, snap := t.snap.setRow id row' }
  | noRow {id : Fin kMaxSources} {row row' : WindowState}
      {call call' : Seqlock.LoadPc WindowState} (hpc : t.pc = .load id row call)
      (hr : Seqlock.loadStep (l.window id) row call = (row', call', some false)) :
      SnapshotMove clock l t l { t with pc := .next id }
  | fill {k : Nat} (hpc : t.pc = .fill k) :
      SnapshotMove clock l t
        { l with snapshots := l.snapshots.fill fun slot => t.snap.copyPart slot k }
        { t with pc := if k + 1 < Snapshot.parts then .fill (k + 1) else .publish .exchange }
  | storing {call call' : TripleBuffer.PubPc} {buf : TripleBuffer Snapshot}
      (hpc : t.pc = .publish call)
      (hr : TripleBuffer.publishStep l.snapshots call = (buf, call')) (hin : call' ≠ .idle) :
      SnapshotMove clock l t { l with snapshots := buf } { t with pc := .publish call' }
  | stored {call : TripleBuffer.PubPc} {buf : TripleBuffer Snapshot} (hpc : t.pc = .publish call)
      (hr : TripleBuffer.publishStep l.snapshots call = (buf, .idle)) :
      SnapshotMove clock l t { l with snapshots := buf } { t with pc := .lastBeat }
  | lastBeat (hpc : t.pc = .lastBeat) :
      SnapshotMove clock l t l { t with pc := .storeLastBeat clock }
  | storeLastBeat {now : UInt64} (hpc : t.pc = .storeLastBeat now) :
      SnapshotMove clock l t { l with control := { l.control with heartbeatSnapshot := now } }
        { t with pc := .storeDone }
  | storeDone (hpc : t.pc = .storeDone) :
      SnapshotMove clock l t { l with control := { l.control with snapshotDone := 1 } }
        { t with pc := .done }

theorem snapshotMove {clock : UInt64} {l l' : Layout} {t t' : SnapshotThread}
    (h : snapshotStep clock l t = some (l', t')) : SnapshotMove clock l t l' t' := by
  unfold snapshotStep at h
  cases hpc : t.pc with
  | testWindow =>
      simp only [hpc] at h
      split at h <;> rename_i hflag <;> simp only [Option.some.injEq, Prod.mk.injEq] at h <;>
        obtain ⟨rfl, rfl⟩ := h
      · exact .sawWindow hpc hflag
      · exact .notWindow hpc (not_not.mp hflag)
  | testStop =>
      simp only [hpc] at h
      split at h <;> rename_i hflag <;> simp only [Option.some.injEq, Prod.mk.injEq] at h <;>
        obtain ⟨rfl, rfl⟩ := h
      · exact .sawStop hpc hflag
      · exact .go hpc (not_not.mp hflag)
  | load id row call =>
      simp only [hpc] at h
      split at h <;> rename_i hr <;> simp only [Option.some.injEq, Prod.mk.injEq] at h <;>
        obtain ⟨rfl, rfl⟩ := h
      · exact .loading hpc hr
      · exact .row hpc hr
      · exact .noRow hpc hr
  | publish call =>
      simp only [hpc] at h
      split at h
      · rename_i hr
        simp only [Option.some.injEq, Prod.mk.injEq] at h
        obtain ⟨rfl, rfl⟩ := h
        exact .stored hpc hr
      · rename_i hin hr
        simp only [Option.some.injEq, Prod.mk.injEq] at h
        obtain ⟨rfl, rfl⟩ := h
        exact .storing hpc hr hin
  | done => simp [hpc] at h
  | _ =>
      simp only [hpc, Option.some.injEq, Prod.mk.injEq] at h
      obtain ⟨rfl, rfl⟩ := h
      first
      | exact .beat hpc
      | exact .storeBeat hpc
      | exact .start hpc
      | exact .work hpc
      | exact .finish hpc
      | exact .loadGeneration hpc
      | exact .fill hpc
      | exact .lastBeat hpc
      | exact .storeLastBeat hpc
      | exact .storeDone hpc

/-- The ways a step of the watchdog can come about. -/
inductive WatchdogMove (clock : UInt64) (l : Layout) (pc : WatchdogPc) :
    Layout → WatchdogPc → Prop
  | sawSnapshot (hpc : pc = .testSnapshot) (hflag : l.control.snapshotDone ≠ 0) :
      WatchdogMove clock l pc l .done
  | notSnapshot (hpc : pc = .testSnapshot) (hflag : l.control.snapshotDone = 0) :
      WatchdogMove clock l pc l .testStop
  | sawStop (hpc : pc = .testStop) (hflag : l.control.shutdown ≠ 0) :
      WatchdogMove clock l pc l .done
  | go (hpc : pc = .testStop) (hflag : l.control.shutdown = 0) : WatchdogMove clock l pc l .now
  | now (hpc : pc = .now) : WatchdogMove clock l pc l (.loadFastDone clock)
  | loadFastDone {now : UInt64} (hpc : pc = .loadFastDone now) :
      WatchdogMove clock l pc l (.loadWindowDone now (decide (l.control.fastDone ≠ 0)))
  | loadWindowDone {now : UInt64} {fastDone : Bool} (hpc : pc = .loadWindowDone now fastDone) :
      WatchdogMove clock l pc l (.loadFast now fastDone (decide (l.control.windowDone ≠ 0)))
  | loadFast {now : UInt64} {fastDone windowDone : Bool}
      (hpc : pc = .loadFast now fastDone windowDone) :
      WatchdogMove clock l pc l (.loadWindow now
        (heartbeatStalled now l.control.heartbeatFast (stallLimitNs kFastPeriodNs) fastDone)
        windowDone)
  | loadWindow {now : UInt64} {lateFast windowDone : Bool}
      (hpc : pc = .loadWindow now lateFast windowDone) :
      WatchdogMove clock l pc l (.loadSnapshot now lateFast
        (heartbeatStalled now l.control.heartbeatWindow (stallLimitNs kWindowPeriodNs) windowDone))
  | late {now : UInt64} {lateFast lateWindow : Bool}
      (hpc : pc = .loadSnapshot now lateFast lateWindow)
      (hlate : lateFast = true ∨ lateWindow = true
        ∨ heartbeatStalled now l.control.heartbeatSnapshot (stallLimitNs kSnapshotPeriodNs) false
            = true) :
      WatchdogMove clock l pc l .storeFault
  | well {now : UInt64} {lateFast lateWindow : Bool}
      (hpc : pc = .loadSnapshot now lateFast lateWindow) :
      WatchdogMove clock l pc l .testSnapshot
  | storeFault (hpc : pc = .storeFault) :
      WatchdogMove clock l pc { l with control := { l.control with fault := 1 } } .testSnapshot

theorem watchdogMove {clock : UInt64} {l l' : Layout} {pc pc' : WatchdogPc}
    (h : watchdogStep clock l pc = some (l', pc')) : WatchdogMove clock l pc l' pc' := by
  unfold watchdogStep at h
  cases hpc : pc with
  | testSnapshot =>
      simp only [hpc] at h
      split at h <;> rename_i hflag <;> simp only [Option.some.injEq, Prod.mk.injEq] at h <;>
        obtain ⟨rfl, rfl⟩ := h
      · exact .sawSnapshot rfl hflag
      · exact .notSnapshot rfl (not_not.mp hflag)
  | testStop =>
      simp only [hpc] at h
      split at h <;> rename_i hflag <;> simp only [Option.some.injEq, Prod.mk.injEq] at h <;>
        obtain ⟨rfl, rfl⟩ := h
      · exact .sawStop rfl hflag
      · exact .go rfl (not_not.mp hflag)
  | loadSnapshot now lateFast lateWindow =>
      simp only [hpc] at h
      split at h <;> rename_i hlate <;> simp only [Option.some.injEq, Prod.mk.injEq] at h <;>
        obtain ⟨rfl, rfl⟩ := h
      · simp only [Bool.or_eq_true, or_assoc] at hlate
        exact .late rfl hlate
      · exact .well rfl
  | done => simp [hpc] at h
  | _ =>
      simp only [hpc, Option.some.injEq, Prod.mk.injEq] at h
      obtain ⟨rfl, rfl⟩ := h
      first
      | exact .now rfl
      | exact .loadFastDone rfl
      | exact .loadWindowDone rfl
      | exact .loadFast rfl
      | exact .loadWindow rfl
      | exact .storeFault rfl

end RateHub
