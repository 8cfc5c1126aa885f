import RateHub.Process.Ingest
import RateHub.Sync.SpscRingProof

/-!
# Everything ingest's threads can do

As for the whole system: `SourceMove` and `FramesMove` list the ways a step of either
thread can come about, and the facts about one step are proved by cases on them. The
first such fact is that every step but one brings the process closer to its end; the
exception is the frames thread trying once more to push into a full ring.
-/

namespace RateHub

/-! ## The queue's operations -/

namespace BoundedQueue

variable {α : Type} {c : Nat} {q q' : BoundedQueue α}

/-- A push adds one value to an open queue with room, or finds it closed. -/
theorem push_spec {v : α} {ok : Bool} (h : q.push c v = some (ok, q')) :
    (ok = false ∧ q.closed = true ∧ q' = q)
      ∨ (ok = true ∧ q.closed = false ∧ q.size < c ∧ q'.size = q.size + 1 ∧ q'.closed = false) := by
  unfold BoundedQueue.push at h
  split at h
  · rename_i hc
    simp only [Option.some.injEq, Prod.mk.injEq] at h
    exact Or.inl ⟨h.1.symm, hc, h.2.symm⟩
  · rename_i hc
    split at h
    · rename_i hlt
      simp only [Option.some.injEq, Prod.mk.injEq] at h
      obtain ⟨rfl, rfl⟩ := h
      exact Or.inr ⟨rfl, by simpa using hc, hlt, rfl, by simpa using hc⟩
    · exact absurd h (by simp)

/-- A pop takes one value, or finds the queue closed and empty. -/
theorem pop_spec {v : Option α} (h : q.pop c = some (v, q')) :
    (v = none ∧ q.closed = true ∧ q.size = 0 ∧ q' = q)
      ∨ (v = some (q.slots q.head) ∧ 0 < q.size ∧ q'.size = q.size - 1
          ∧ q'.closed = q.closed) := by
  unfold BoundedQueue.pop at h
  split at h
  · rename_i h0
    split at h
    · rename_i hc
      simp only [Option.some.injEq, Prod.mk.injEq] at h
      exact Or.inl ⟨h.1.symm, hc, h0, h.2.symm⟩
    · exact absurd h (by simp)
  · rename_i h0
    simp only [Option.some.injEq, Prod.mk.injEq] at h
    obtain ⟨rfl, rfl⟩ := h
    exact Or.inr ⟨rfl, by omega, rfl, rfl⟩

/-- An open queue with room takes a push. -/
theorem push_room (v : α) (hopen : q.closed = false) (hroom : q.size < c) :
    ∃ q', q.push c v = some (true, q') ∧ q'.size = q.size + 1 ∧ q'.closed = false
      ∧ q'.head = q.head ∧ q'.slots ((q.head + q.size) % c) = v := by
  unfold BoundedQueue.push
  rw [hopen, if_neg (by simp), if_pos hroom]
  exact ⟨_, rfl, rfl, rfl, rfl, Function.update_self ..⟩

/-- A queue that is not empty yields its head. -/
theorem pop_some (hc : 0 < c) (hsize : 0 < q.size) :
    ∃ q', q.pop c = some (some (q.slots q.head), q') ∧ q'.size = q.size - 1
      ∧ q'.closed = q.closed ∧ q'.head < c := by
  unfold BoundedQueue.pop
  rw [if_neg (by omega)]
  exact ⟨_, rfl, rfl, rfl, Nat.mod_lt _ hc⟩

end BoundedQueue

/-! ## The inversions -/

/-- The ways a step of the source thread can come about. -/
inductive SourceMove (l : Layout) (p : Ingest) : Layout → Ingest → Prop
  | short (hpc : p.source.pc = .read) (hlen : p.source.rest.length < kFrameBytes) :
      SourceMove l p l { p with source := { p.source with pc := .close, rest := [] } }
  | read (hpc : p.source.pc = .read) (hlen : ¬ p.source.rest.length < kFrameBytes) :
      SourceMove l p l { p with source := { p.source with
                                  pc := .testStop (p.source.rest.take kFrameBytes)
                                  rest := p.source.rest.drop kFrameBytes } }
  | stop {frame : List UInt8} (hpc : p.source.pc = .testStop frame)
      (hflag : l.control.shutdown ≠ 0) :
      SourceMove l p l { p with source := { p.source with pc := .close } }
  | go {frame : List UInt8} (hpc : p.source.pc = .testStop frame)
      (hflag : l.control.shutdown = 0) :
      SourceMove l p l { p with source := { p.source with pc := .push frame } }
  | push {frame : List UInt8} {q' : BoundedQueue (List UInt8)} (hpc : p.source.pc = .push frame)
      (hpush : p.queue.push kQueueCapacity frame = some (true, q')) :
      SourceMove l p l { p with queue := q', source := { p.source with pc := .beat } }
  | refused {frame : List UInt8} {q' : BoundedQueue (List UInt8)}
      (hpc : p.source.pc = .push frame)
      (hpush : p.queue.push kQueueCapacity frame = some (false, q')) :
      SourceMove l p l { p with queue := q', source := { p.source with pc := .close } }
  | beat (hpc : p.source.pc = .beat) :
      SourceMove l p
        { l with control := { l.control with heartbeatIngest := p.source.beats + 1 } }
        { p with source := { p.source with pc := .read, beats := p.source.beats + 1 } }
  | close (hpc : p.source.pc = .close) :
      SourceMove l p l { p with queue := p.queue.close, source := { p.source with pc := .done } }

theorem Ingest.sourceMove {l l' : Layout} {p p' : Ingest} (h : p.stepSource l = some (l', p')) :
    SourceMove l p l' p' := by
  simp only [Ingest.stepSource, Option.map_eq_some_iff, Prod.mk.injEq] at h
  obtain ⟨⟨l₁, q₁, t₁⟩, hstep, rfl, rfl⟩ := h
  unfold sourceStep at hstep
  cases hpc : p.source.pc with
  | read =>
      simp only [hpc] at hstep
      split at hstep <;> rename_i hlen <;> simp only [Option.some.injEq, Prod.mk.injEq] at hstep <;>
        obtain ⟨rfl, rfl, rfl⟩ := hstep
      · exact .short hpc hlen
      · exact .read hpc hlen
  | testStop frame =>
      simp only [hpc] at hstep
      split at hstep <;> rename_i hflag <;> simp only [Option.some.injEq, Prod.mk.injEq] at hstep <;>
        obtain ⟨rfl, rfl, rfl⟩ := hstep
      · exact .stop hpc hflag
      · exact .go hpc (not_not.mp hflag)
  | push frame =>
      simp only [hpc] at hstep
      split at hstep
      · exact absurd hstep (by simp)
      · rename_i hpush
        simp only [Option.some.injEq, Prod.mk.injEq] at hstep
        obtain ⟨rfl, rfl, rfl⟩ := hstep
        exact .push hpc hpush
      · rename_i hpush
        simp only [Option.some.injEq, Prod.mk.injEq] at hstep
        obtain ⟨rfl, rfl, rfl⟩ := hstep
        exact .refused hpc hpush
  | beat =>
      simp only [hpc, Option.some.injEq, Prod.mk.injEq] at hstep
      obtain ⟨rfl, rfl, rfl⟩ := hstep
      exact .beat hpc
  | close =>
      simp only [hpc, Option.some.injEq, Prod.mk.injEq] at hstep
      obtain ⟨rfl, rfl, rfl⟩ := hstep
      exact .close hpc
  | done => simp [hpc] at hstep

/-- The ways a step of the frames thread can come about. -/
inductive FramesMove (l : Layout) (p : Ingest) : Layout → Ingest → Prop
  | last {q' : BoundedQueue (List UInt8)} (hpc : p.frames = .pop)
      (hpop : p.queue.pop kQueueCapacity = some (none, q')) :
      FramesMove l p l { p with queue := q', frames := .done }
  | pop {frame : List UInt8} {q' : BoundedQueue (List UInt8)} (hpc : p.frames = .pop)
      (hpop : p.queue.pop kQueueCapacity = some (some frame, q')) :
      FramesMove l p l { p with queue := q', frames := .decode frame }
  | record {frame : List UInt8} {record : Record} (hpc : p.frames = .decode frame)
      (hd : decodeFrame frame {} = (.ok, record)) :
      FramesMove l p l { p with frames := .push record (.loadWrite record) }
  | skip {frame : List UInt8} (hpc : p.frames = .decode frame)
      (hd : (decodeFrame frame {}).1 ≠ .ok) :
      FramesMove l p l { p with frames := .pop }
  | access {record : Record} {call call' : SpscRing.PushPc Record}
      {ring : SpscRing Record kRingCapacity} (hpc : p.frames = .push record call)
      (hr : SpscRing.pushStep l.ring call = (ring, call', none)) :
      FramesMove l p { l with ring := ring } { p with frames := .push record call' }
  | pushed {record : Record} {call call' : SpscRing.PushPc Record}
      {ring : SpscRing Record kRingCapacity} (hpc : p.frames = .push record call)
      (hr : SpscRing.pushStep l.ring call = (ring, call', some true)) :
      FramesMove l p { l with ring := ring } { p with frames := .pop }
  | full {record : Record} {call call' : SpscRing.PushPc Record}
      {ring : SpscRing Record kRingCapacity} (hpc : p.frames = .push record call)
      (hr : SpscRing.pushStep l.ring call = (ring, call', some false)) :
      FramesMove l p { l with ring := ring } { p with frames := .testStop record }
  | stop {record : Record} (hpc : p.frames = .testStop record)
      (hflag : l.control.shutdown ≠ 0) : FramesMove l p l { p with frames := .done }
  | retry {record : Record} (hpc : p.frames = .testStop record)
      (hflag : l.control.shutdown = 0) :
      FramesMove l p l { p with frames := .push record (.loadWrite record) }

theorem Ingest.framesMove {l l' : Layout} {p p' : Ingest} (h : p.stepFrames l = some (l', p')) :
    FramesMove l p l' p' := by
  simp only [Ingest.stepFrames, Option.map_eq_some_iff, Prod.mk.injEq] at h
  obtain ⟨⟨l₁, q₁, f₁⟩, hstep, rfl, rfl⟩ := h
  unfold framesStep at hstep
  cases hpc : p.frames with
  | pop =>
      simp only [hpc] at hstep
      split at hstep
      · exact absurd hstep (by simp)
      · rename_i hpop
        simp only [Option.some.injEq, Prod.mk.injEq] at hstep
        obtain ⟨rfl, rfl, rfl⟩ := hstep
        exact .last hpc hpop
      · rename_i hpop
        simp only [Option.some.injEq, Prod.mk.injEq] at hstep
        obtain ⟨rfl, rfl, rfl⟩ := hstep
        exact .pop hpc hpop
  | decode frame =>
      simp only [hpc] at hstep
      split at hstep
      · rename_i hd
        simp only [Option.some.injEq, Prod.mk.injEq] at hstep
        obtain ⟨rfl, rfl, rfl⟩ := hstep
        exact .record hpc hd
      · rename_i hd
        simp only [Option.some.injEq, Prod.mk.injEq] at hstep
        obtain ⟨rfl, rfl, rfl⟩ := hstep
        exact .skip hpc fun hok => hd _ (Prod.ext hok rfl)
  | push record call =>
      simp only [hpc] at hstep
      split at hstep <;> rename_i hr <;> simp only [Option.some.injEq, Prod.mk.injEq] at hstep <;>
        obtain ⟨rfl, rfl, rfl⟩ := hstep
      · exact .access hpc hr
      · exact .pushed hpc hr
      · exact .full hpc hr
  | testStop record =>
      simp only [hpc] at hstep
      split at hstep <;> rename_i hflag <;> simp only [Option.some.injEq, Prod.mk.injEq] at hstep <;>
        obtain ⟨rfl, rfl, rfl⟩ := hstep
      · exact .stop hpc hflag
      · exact .retry hpc (not_not.mp hflag)
  | done => simp [hpc] at hstep

/-! ## The queue and its two threads -/

/-- The source thread is inside `queue.push`. -/
def Ingest.pushing (p : Ingest) : Bool :=
  match p.source.pc with
  | .push _ => true
  | _ => false

/-- The queue is full and open. -/
def Ingest.queueFull (p : Ingest) : Bool :=
  decide (p.queue.size = kQueueCapacity) && !p.queue.closed

/-- The frames thread, finding the flag, would give up on a full ring. -/
def Ingest.givingUp (p : Ingest) : Bool :=
  match p.frames with
  | .testStop _ => true
  | _ => false

/-- Closing is the source thread's last act, and a frames thread that is gone without it has
seen the flag. -/
structure QueueInv (flag : UInt32) (p : Ingest) : Prop where
  closed_iff : p.queue.closed = true ↔ p.source.pc = .done
  gone : p.frames = .done → p.queue.closed = true ∨ flag ≠ 0
  size_le : p.queue.size ≤ kQueueCapacity

theorem queueInv_init (flag : UInt32) (replay : List UInt8) :
    QueueInv flag (Ingest.init replay) where
  closed_iff := by simp [Ingest.init, BoundedQueue.init]
  gone := by intro h; simp [Ingest.init] at h
  size_le := Nat.zero_le _

namespace QueueInv

variable {flag : UInt32} {l l' : Layout} {p p' : Ingest}

/-- While the source runs, a frames thread that is gone has seen the flag. -/
theorem flag_of_gone (h : QueueInv flag p) (hpc : p.source.pc ≠ .done) (hf : p.frames = .done) :
    flag ≠ 0 := by
  rcases h.gone hf with hc | hflag
  · exact absurd (h.closed_iff.mp hc) hpc
  · exact hflag

theorem not_closed (h : QueueInv flag p) (hpc : p.source.pc ≠ .done) : p.queue.closed = false := by
  cases hc : p.queue.closed with
  | false => rfl
  | true => exact absurd (h.closed_iff.mp hc) hpc

/-- The flag is only ever set. -/
theorem set_flag {flag' : UInt32} (h : QueueInv flag p) (hset : flag ≠ 0 → flag' ≠ 0) :
    QueueInv flag' p :=
  ⟨h.closed_iff, fun hf => (h.gone hf).imp_right hset, h.size_le⟩

/-- The source moves to another place, leaving the queue alone. -/
theorem move_source (h : QueueInv flag p) (hpc : p.source.pc ≠ .done) {t : Source}
    (ht : t.pc ≠ .done) : QueueInv flag { p with source := t } where
  closed_iff := by simp [h.not_closed hpc, ht]
  gone hf := Or.inr (h.flag_of_gone hpc hf)
  size_le := h.size_le

/-- The frames thread moves to another place, leaving the queue alone. -/
theorem move_frames (h : QueueInv flag p) {f : FramesPc} (hf : f ≠ .done) :
    QueueInv flag { p with frames := f } :=
  ⟨h.closed_iff, fun hd => absurd hd hf, h.size_le⟩

/-- **The source thread keeps it.** -/
theorem source (h : QueueInv l.control.shutdown p) (hm : SourceMove l p l' p') :
    QueueInv l.control.shutdown p' := by
  cases hm with
  | push hpc hpush =>
      have hne : p.source.pc ≠ .done := by simp [hpc]
      rcases BoundedQueue.push_spec hpush with ⟨hok, _⟩ | ⟨_, _, hlt, hsz, hcl⟩
      · exact absurd hok (by simp)
      · exact ⟨by simp [hcl], fun hf => Or.inr (h.flag_of_gone hne hf), by simp only; omega⟩
  | refused hpc hpush =>
      rcases BoundedQueue.push_spec hpush with ⟨_, hc, _⟩ | ⟨hok, _⟩
      · exact absurd hc (by simp [h.not_closed (by simp [hpc])])
      · exact absurd hok (by simp)
  | close hpc => exact ⟨by simp [BoundedQueue.close], fun _ => Or.inl rfl, h.size_le⟩
  | _ => exact h.move_source (by simp [*]) (by simp)

/-- **The frames thread keeps it.** -/
theorem frames (h : QueueInv l.control.shutdown p) (hm : FramesMove l p l' p') :
    QueueInv l.control.shutdown p' := by
  cases hm with
  | last hpc hpop =>
      -- the queue is closed and empty
      rcases BoundedQueue.pop_spec hpop with ⟨_, hc, _, rfl⟩ | ⟨hv, _⟩
      · exact ⟨h.closed_iff, fun _ => Or.inl hc, h.size_le⟩
      · exact absurd hv (by simp)
  | pop hpc hpop =>
      rcases BoundedQueue.pop_spec hpop with ⟨hv, _⟩ | ⟨_, _, hsz, hcl⟩
      · exact absurd hv (by simp)
      · have := h.size_le
        exact ⟨by rw [hcl]; exact h.closed_iff, fun hd => absurd hd (by simp),
          by simp only [hsz]; omega⟩
  | stop hpc hflag => exact ⟨h.closed_iff, fun _ => Or.inr hflag, h.size_le⟩
  | _ => exact h.move_frames (by simp)

theorem main (h : QueueInv flag p) (hs : p.stepMain l = some (l', p')) : QueueInv flag p' := by
  simp only [Ingest.stepMain, Option.map_eq_some_iff, Prod.mk.injEq] at hs
  obtain ⟨⟨l₁, m₁⟩, _, _, rfl⟩ := hs
  exact ⟨h.closed_iff, h.gone, h.size_le⟩

end QueueInv

/-! ## Closer to the end -/

/-- How far a `try_push` is from its end. -/
def pushRank : SpscRing.PushPc Record → Nat
  | .idle => 2
  | .storeWrite _ _ => 3
  | .copy _ _ => 4
  | .loadRead _ _ => 6
  | .loadWrite _ => 7

theorem pushStep_busy {C : Capacity} {r r' : SpscRing Record C}
    {call call' : SpscRing.PushPc Record} (h : SpscRing.pushStep r call = (r', call', none))
    (hbusy : call ≠ .idle) : call' ≠ .idle ∧ pushRank call' < pushRank call := by
  cases call with
  | idle => exact absurd rfl hbusy
  | loadWrite v =>
      simp only [SpscRing.pushStep, Prod.mk.injEq] at h
      rw [← h.2.1]
      exact ⟨by simp, Nat.lt_succ_self _⟩
  | loadRead v w =>
      simp only [SpscRing.pushStep] at h
      split at h
      · simp at h
      · simp only [Prod.mk.injEq] at h
        rw [← h.2.1]
        exact ⟨by simp, by simp [pushRank]⟩
  | copy v w =>
      simp only [SpscRing.pushStep, Prod.mk.injEq] at h
      rw [← h.2.1]
      exact ⟨by simp, Nat.lt_succ_self _⟩
  | storeWrite v w => simp [SpscRing.pushStep] at h

/-- Inside `try_push`, the call is at one of its accesses. -/
def FramesPc.engaged : FramesPc → Prop
  | .push _ call => call ≠ .idle
  | _ => True

theorem FramesMove.engaged {l l' : Layout} {p p' : Ingest} (he : p.frames.engaged)
    (hm : FramesMove l p l' p') : p'.frames.engaged := by
  cases hm with
  | access hpc hr =>
      rw [hpc] at he
      exact (pushStep_busy hr he).1
  | _ => simp [FramesPc.engaged]

/-- What the source thread has left, in steps; reading on costs less than a frame's bytes. -/
def Source.rank (t : Source) : Nat :=
  t.rest.length + match t.pc with
    | .done => 0
    | .close => 1
    | .read => 2
    | .beat => 3
    | .push _ => 12
    | .testStop _ => 13

/-- What the frames thread has left of the frame it is on. -/
def FramesPc.rank : FramesPc → Nat
  | .done => 0
  | .pop => 1
  | .testStop _ => 5
  | .push _ call => pushRank call
  | .decode _ => 8

/-- What the main thread has left. -/
def IngestMainPc.rank : IngestMainPc → Nat
  | .exit => 0
  | .storeDone => 1
  | .joinFrames => 2
  | .joinSource => 3
  | .attach => 4

/-- What ingest has left: every queued frame costs the frames thread one round. -/
def Ingest.rank (p : Ingest) : Nat :=
  p.source.rank + p.queue.size * 8 + p.frames.rank + p.main.rank

theorem SourceMove.rank_lt {l l' : Layout} {p p' : Ingest} (hm : SourceMove l p l' p') :
    p'.rank < p.rank := by
  cases hm with
  | short hpc hlen =>
      simp only [Ingest.rank, Source.rank, hpc, List.length_nil]
      omega
  | read hpc hlen =>
      have hbytes : kFrameBytes = 38 := rfl
      simp only [Ingest.rank, Source.rank, hpc, List.length_drop]
      omega
  | push hpc hpush =>
      -- the frame moves from the source's account to the queue's
      rcases BoundedQueue.push_spec hpush with ⟨hok, _⟩ | ⟨_, _, _, hsz, _⟩
      · cases hok
      · simp only [Ingest.rank, Source.rank, hpc, hsz]
        omega
  | refused hpc hpush =>
      rcases BoundedQueue.push_spec hpush with ⟨_, _, rfl⟩ | ⟨hok, _⟩
      · simp only [Ingest.rank, Source.rank, hpc]
        omega
      · cases hok
  | close hpc =>
      simp only [Ingest.rank, Source.rank, hpc, BoundedQueue.close]
      omega
  | stop hpc hflag =>
      simp only [Ingest.rank, Source.rank, hpc]
      omega
  | go hpc hflag =>
      simp only [Ingest.rank, Source.rank, hpc]
      omega
  | beat hpc =>
      simp only [Ingest.rank, Source.rank, hpc]
      omega

/-- **Only the retry on a full ring leads back.** -/
theorem FramesMove.rank_lt {l l' : Layout} {p p' : Ingest} (he : p.frames.engaged)
    (hm : FramesMove l p l' p') (hretry : p.givingUp = true → l.control.shutdown ≠ 0) :
    p'.rank < p.rank := by
  cases hm with
  | last hpc hpop =>
      rcases BoundedQueue.pop_spec hpop with ⟨_, _, _, rfl⟩ | ⟨hv, _⟩
      · simp only [Ingest.rank, FramesPc.rank, hpc]
        omega
      · cases hv
  | pop hpc hpop =>
      rcases BoundedQueue.pop_spec hpop with ⟨hv, _⟩ | ⟨_, hpos, hsz, _⟩
      · cases hv
      · simp only [Ingest.rank, FramesPc.rank, hpc, hsz]
        omega
  | record hpc hd =>
      simp only [Ingest.rank, FramesPc.rank, hpc, pushRank]
      omega
  | skip hpc hd =>
      simp only [Ingest.rank, FramesPc.rank, hpc]
      omega
  | access hpc hr =>
      rw [hpc] at he
      have hlt := (pushStep_busy hr he).2
      simp only [Ingest.rank, FramesPc.rank, hpc]
      omega
  | @pushed record call call' ring hpc hr =>
      have hpos : 2 ≤ pushRank call := by cases call <;> simp [pushRank]
      simp only [Ingest.rank, FramesPc.rank, hpc]
      omega
  | @full record call call' ring hpc hr =>
      -- only the check against `read_` can fail
      cases call with
      | loadRead v w =>
          simp only [Ingest.rank, FramesPc.rank, hpc, pushRank]
          omega
      | _ => simp [SpscRing.pushStep] at hr
  | stop hpc hflag =>
      simp only [Ingest.rank, FramesPc.rank, hpc]
      omega
  | retry hpc hflag => exact absurd hflag (hretry (by simp [Ingest.givingUp, hpc]))

theorem Ingest.stepMain_rank_lt {l l' : Layout} {p p' : Ingest}
    (hs : p.stepMain l = some (l', p')) : p'.rank < p.rank := by
  simp only [Ingest.stepMain, Option.map_eq_some_iff, Prod.mk.injEq] at hs
  obtain ⟨⟨l₁, m₁⟩, hmain, rfl, rfl⟩ := hs
  unfold ingestMainStep at hmain
  cases hm : p.main with
  | attach => simp [hm] at hmain
  | exit => simp [hm] at hmain
  | _ =>
      simp only [hm] at hmain
      (try split at hmain) <;>
        simp only [Option.some.injEq, Prod.mk.injEq, reduceCtorEq] at hmain
      all_goals
        obtain ⟨rfl, rfl⟩ := hmain
        simp only [Ingest.rank, IngestMainPc.rank, hm]
        omega

/-! ## Who can move -/

/-- The source thread moves unless it is done or waits in `queue.push`. -/
theorem QueueInv.source_moves {flag : UInt32} {p : Ingest} (l : Layout) (h : QueueInv flag p)
    (hnd : p.source.pc ≠ .done) (hfull : ¬ (p.pushing = true ∧ p.queueFull = true)) :
    (p.stepSource l).isSome = true := by
  unfold Ingest.stepSource sourceStep
  rw [Option.isSome_map]
  cases hpc : p.source.pc with
  | done => exact absurd hpc hnd
  | push frame =>
      have hopen := h.not_closed hnd
      have hsize := h.size_le
      have hroom : p.queue.size < kQueueCapacity := by
        by_contra hge
        refine hfull ⟨by simp [Ingest.pushing, hpc], ?_⟩
        simp only [Ingest.queueFull, hopen, Bool.not_false, Bool.and_true, decide_eq_true_eq]
        omega
      obtain ⟨q', hpush, _⟩ := BoundedQueue.push_room frame hopen hroom
      simp [hpush]
  | read =>
      simp only
      split <;> rfl
  | testStop frame =>
      simp only
      split <;> rfl
  | _ => rfl

/-- The frames thread moves unless it is done or waits for a frame. -/
theorem Ingest.frames_moves {p : Ingest} (l : Layout) (hnd : p.frames ≠ .done)
    (hwait : p.frames = .pop → 0 < p.queue.size ∨ p.queue.closed = true) :
    (p.stepFrames l).isSome = true := by
  unfold Ingest.stepFrames framesStep
  rw [Option.isSome_map]
  cases hpc : p.frames with
  | done => exact absurd hpc hnd
  | pop =>
      by_cases hpos : 0 < p.queue.size
      · obtain ⟨q', hpop, _⟩ := BoundedQueue.pop_some (c := kQueueCapacity) (by decide) hpos
        simp [hpop]
      · have hclosed := (hwait hpc).resolve_left hpos
        have hzero : p.queue.size = 0 := by omega
        simp [BoundedQueue.pop, hzero, hclosed]
  | decode frame =>
      simp only
      split <;> rfl
  | push record call =>
      simp only
      split <;> rfl
  | testStop record =>
      simp only
      split <;> rfl

/-- What keeps ingest from moving at all: the source thread waits in `queue.push` for a
frames thread that is gone. -/
theorem QueueInv.moves {flag : UInt32} {p : Ingest} (l : Layout) (h : QueueInv flag p)
    (ha : p.main ≠ .attach) (hx : p.main ≠ .exit)
    (hstuck : ¬ (p.pushing = true ∧ p.queueFull = true ∧ p.frames = .done)) :
    (p.stepSource l).isSome = true ∨ (p.stepFrames l).isSome = true
      ∨ (p.stepMain l).isSome = true := by
  by_cases hnd : p.source.pc = .done
  · -- the queue is closed: the frames thread drains it, and after that the joins go through
    have hclosed := h.closed_iff.mpr hnd
    by_cases hf : p.frames = .done
    · right; right
      unfold Ingest.stepMain ingestMainStep
      rw [Option.isSome_map]
      cases hm : p.main with
      | attach => exact absurd hm ha
      | exit => exact absurd hm hx
      | joinSource => simp [hnd]
      | joinFrames => simp [hf]
      | storeDone => rfl
    · right; left
      exact Ingest.frames_moves l hf fun _ => Or.inr hclosed
  · by_cases hfull : p.pushing = true ∧ p.queueFull = true
    · -- a full queue has something to pop
      right; left
      have hsize : p.queue.size = kQueueCapacity := by
        have := hfull.2
        simp only [Ingest.queueFull, Bool.and_eq_true, decide_eq_true_eq] at this
        exact this.1
      refine Ingest.frames_moves l (fun hf => hstuck ⟨hfull.1, hfull.2, hf⟩) fun _ => Or.inl ?_
      rw [hsize]
      decide
    · left
      exact h.source_moves l hnd hfull

end RateHub
