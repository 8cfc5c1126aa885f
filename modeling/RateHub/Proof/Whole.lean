import RateHub.Proof.Orderly
import RateHub.Proof.Result

/-!
# The output file is never torn

The snapshot threads of the compute attempts and the publish processes, taken together, use
the triple buffer the way its own two-sided model does: `buffer` maps a state of the system
to a state of `TripleBuffer.State`, every step of the system is a few steps of the two
sides or none, and the death of a process is a kill. So what is known of the two sides
holds of the system, as long as no process is killed between an exchange and the
index store that follows it: while publish copies its slot out, nobody stores to it, and
the text it writes is that of one snapshot that was handed over, whole.

The file is empty from publish's open to its close. A publish killed in between leaves it so,
for as long as no other opens it; `noteTorn` remembers that this has happened.
-/

namespace RateHub

namespace TripleBuffer

variable {T : Type} {zero : T} {b : TripleBuffer T} {p : PubPc} {c : ConsumePc}

/-- The last publish that a consume has adopted is `x`. -/
def Adopted (b : TripleBuffer T) (x : T) : Prop :=
  ∃ k, k + 1 = b.seen ∧ b.published[k]? = some x

theorem Adopted.frame {b' : TripleBuffer T} {x : T} (h : b.Adopted x)
    (hpub : b.published <+: b'.published) (hcon : b'.consumed = b.consumed) : b'.Adopted x := by
  obtain ⟨k, hk, hx⟩ := h
  refine ⟨k, ?_, ?_⟩
  · unfold seen at hk ⊢
    rw [hcon]
    exact hk
  · obtain ⟨more, hmore⟩ := hpub
    rw [← hmore, List.getElem?_append_left (List.getElem?_eq_some_iff.mp hx).1]
    exact hx

/-- The writer is gone, outside the span from its exchange to its index store. -/
theorem ReachableClean.dropWriter (h : ReachableClean zero ⟨b, p, c⟩)
    (hp : ∀ old, p ≠ .update old) : ReachableClean zero ⟨b, .idle, c⟩ := by
  refine Transition.Reachable.tail (a := .killWriter) h ?_ rfl
  cases p with
  | update old => exact absurd rfl (hp old)
  | idle => rfl
  | exchange => rfl

theorem ReachableClean.dropReader (h : ReachableClean zero ⟨b, p, c⟩)
    (hc : ∀ old, c ≠ .update old) : ReachableClean zero ⟨b, p, .idle⟩ := by
  refine Transition.Reachable.tail (a := .killReader) h ?_ rfl
  cases c with
  | update old => exact absurd rfl (hc old)
  | idle => rfl
  | loadFresh => rfl
  | exchange => rfl

theorem ReachableClean.publishStep (h : ReachableClean zero ⟨b, p, c⟩) :
    ReachableClean zero ⟨(publishStep b p).1, (publishStep b p).2, c⟩ := by
  cases p with
  | idle => exact h
  | exchange => exact Transition.Reachable.tail (a := .writer) h rfl rfl
  | update old => exact Transition.Reachable.tail (a := .writer) h rfl rfl

theorem ReachableClean.consumeStep (h : ReachableClean zero ⟨b, p, c⟩) :
    ReachableClean zero ⟨(consumeStep b c).1, p, (consumeStep b c).2.1⟩ := by
  cases c with
  | idle => exact h
  | loadFresh => exact Transition.Reachable.tail (a := .reader) h rfl rfl
  | exchange => exact Transition.Reachable.tail (a := .reader) h rfl rfl
  | update old => exact Transition.Reachable.tail (a := .reader) h rfl rfl

/-- A fill leaves the reader's slot alone. -/
theorem ReachableClean.fill_reader (h : ReachableClean zero ⟨b, .idle, c⟩) (part : T → T) :
    (b.fill part).slots (readerSlot b c) = b.slots (readerSlot b c) := by
  obtain ⟨w, m, r, fresh, hown⟩ := inv_reachable h
  have hw : b.write = slotIx w := hown.writer
  have hr : readerSlot b c = slotIx r := hown.reader
  simp [fill, hw, hr, Function.update_of_ne (slotIx_ne hown.wr.symm)]

/-- The reader's slot holds the publish adopted last. -/
theorem ReachableClean.adopted (h : ReachableClean zero ⟨b, p, c⟩) (hs : 0 < b.seen) :
    b.Adopted (b.slots (readerSlot b c)) := by
  obtain ⟨w, m, r, fresh, hown⟩ := inv_reachable h
  have hr : readerSlot b c = slotIx r := hown.reader
  exact ⟨b.seen - 1, by omega, by rw [hr]; exact hown.held hs⟩

/-- A consume that reaches its exchange has something to adopt. -/
theorem ReachableClean.seen_exchange (h : ReachableClean zero ⟨b, p, .exchange⟩) :
    0 < (TripleBuffer.consumeStep b .exchange).1.seen := by
  obtain ⟨w, m, r, fresh, hown⟩ := inv_reachable h
  have hlt := hown.fresh_iff.mp (hown.passed rfl)
  have hseen : (TripleBuffer.consumeStep b .exchange).1.seen = b.published.length := by
    simp [TripleBuffer.consumeStep, seen]
  have hlt' : b.seen < b.published.length := hlt
  omega

end TripleBuffer

/-! ## The snapshot thread as the writer -/

/-- What a step of the snapshot thread does to the buffer. -/
inductive BufferMove (b : TripleBuffer Snapshot) (pc pc' : SnapshotPc) :
    TripleBuffer Snapshot → Prop
  | rest (hpc : pc.pubCall = .idle) (hpc' : pc'.pubCall = .idle) : BufferMove b pc pc' b
  | fill (part : Snapshot → Snapshot) (hpc : pc.pubCall = .idle) (hne : pc ≠ .publish .exchange)
      (hpc' : pc'.pubCall = .idle ∨ pc'.pubCall = .exchange) : BufferMove b pc pc' (b.fill part)
  | call (call : TripleBuffer.PubPc) (hpc : pc = .publish call)
      (hpc' : pc'.pubCall = (TripleBuffer.publishStep b call).2) :
      BufferMove b pc pc' (TripleBuffer.publishStep b call).1

theorem snapshotStep_bufferMove {clock : UInt64} {l l' : Layout} {t t' : SnapshotThread}
    (hs : snapshotStep clock l t = some (l', t')) :
    BufferMove l.snapshots t.pc t'.pc l'.snapshots := by
  unfold snapshotStep at hs
  cases hpc : t.pc with
  | publish call =>
      simp only [hpc] at hs
      cases call with
      | _ =>
          simp only [TripleBuffer.publishStep, Option.some.injEq, Prod.mk.injEq] at hs
          obtain ⟨rfl, rfl⟩ := hs
          exact .call _ rfl rfl
  | fill k =>
      simp only [hpc, Option.some.injEq, Prod.mk.injEq] at hs
      obtain ⟨rfl, rfl⟩ := hs
      refine @BufferMove.fill _ (.fill k) _ (fun slot => t.snap.copyPart slot k) rfl (by simp) ?_
      simp only
      split
      · exact Or.inl rfl
      · exact Or.inr rfl
  | load id row call =>
      simp only [hpc] at hs
      split at hs <;> simp only [Option.some.injEq, Prod.mk.injEq] at hs <;>
        obtain ⟨rfl, rfl⟩ := hs
      · exact .rest rfl rfl
      · exact .rest rfl (snapshotPc_next_pubCall id)
      · exact .rest rfl (snapshotPc_next_pubCall id)
  | _ =>
      simp only [hpc] at hs
      (try split at hs) <;> try simp only [Option.some.injEq, Prod.mk.injEq, reduceCtorEq] at hs
      all_goals
        obtain ⟨rfl, rfl⟩ := hs
        exact .rest rfl rfl

namespace BufferMove

variable {b b' : TripleBuffer Snapshot} {pc pc' : SnapshotPc} {zero : Snapshot}
  {c : TripleBuffer.ConsumePc}

/-- **The writer's side of the simulation.** -/
theorem simulates (hm : BufferMove b pc pc' b')
    (h : TripleBuffer.ReachableClean zero ⟨b, pc.pubCall, c⟩) :
    TripleBuffer.ReachableClean zero ⟨b', pc'.pubCall, c⟩ := by
  cases hm with
  | rest hpc hpc' =>
      rw [hpc] at h
      rw [hpc']
      exact h
  | fill part hpc hne hpc' =>
      rw [hpc] at h
      have hfill : TripleBuffer.ReachableClean zero ⟨b.fill part, .idle, c⟩ :=
        Transition.Reachable.tail (a := .fill part) h rfl rfl
      rcases hpc' with hidle | hexch
      · rw [hidle]
        exact hfill
      · rw [hexch]
        exact Transition.Reachable.tail (a := .callPublish) hfill rfl rfl
  | call call hpc hpc' =>
      rw [hpc] at h
      rw [hpc']
      exact TripleBuffer.ReachableClean.publishStep h

/-- What the reader holds stays as it is. -/
theorem keeps (hm : BufferMove b pc pc' b')
    (h : TripleBuffer.ReachableClean zero ⟨b, pc.pubCall, c⟩) :
    b'.read = b.read ∧ b'.consumed = b.consumed ∧ b.published <+: b'.published
      ∧ b'.slots (TripleBuffer.readerSlot b c) = b.slots (TripleBuffer.readerSlot b c) := by
  cases hm with
  | rest hpc hpc' => exact ⟨rfl, rfl, List.prefix_refl _, rfl⟩
  | fill part hpc hne hpc' =>
      rw [hpc] at h
      exact ⟨rfl, rfl, List.prefix_refl _, h.fill_reader part⟩
  | call call hpc hpc' =>
      cases call with
      | idle => exact ⟨rfl, rfl, List.prefix_refl _, rfl⟩
      | exchange => exact ⟨rfl, rfl, List.prefix_append _ _, rfl⟩
      | update old => exact ⟨rfl, rfl, List.prefix_refl _, rfl⟩

theorem published (hm : BufferMove b pc pc' b') (hpc : pc ≠ .publish .exchange) :
    b'.published = b.published := by
  cases hm with
  | rest hpc hpc' => rfl
  | fill part hpc hne hpc' => rfl
  | call call hcall hpc' =>
      cases call with
      | exchange => exact absurd hcall hpc
      | idle => rfl
      | update old => rfl

theorem published_exchange (hm : BufferMove b pc pc' b') (hpc : pc = .publish .exchange) :
    b'.published = b.published ++ [b.slots b.write] := by
  cases hm with
  | rest hidle hpc' =>
      rw [hpc] at hidle
      cases hidle
  | fill part hidle hne hpc' => exact absurd hpc hne
  | call call hcall hpc' =>
      rw [hpc] at hcall
      obtain rfl := SnapshotPc.publish.inj hcall
      rfl

end BufferMove

/-! ## Publish as the reader -/

/-- Between the exchange and the end of the copy. -/
def PublishPc.adopting : PublishPc → Bool
  | .consume (.update _) => true
  | .copy _ => true
  | _ => false

theorem PublishPc.adopting_of_filing {pc : PublishPc} (h : pc.filing = true) :
    pc.adopting = false := by
  cases pc <;> first | rfl | cases h

/-- What publish has of the buffer. -/
structure Reads (b : TripleBuffer Snapshot) (q : Publish) : Prop where
  seen : q.pc.adopting = true → 0 < b.seen
  copying : ∀ k, q.pc = .copy k → k < Snapshot.parts ∧ Copied k (b.slots b.read) q.last
  kept : q.have_ = true → q.pc.adopting = false → b.Adopted q.last
  writes : q.pc.filing = true → q.have_ = true

theorem reads_init (b : TripleBuffer Snapshot) : Reads b Publish.init where
  seen h := by cases h
  copying k h := by cases h
  kept h := by cases h
  writes h := by cases h

/-- The writer moves. -/
theorem Reads.frame {b b' : TripleBuffer Snapshot} {q : Publish} (h : Reads b q)
    (hread : b'.read = b.read) (hcon : b'.consumed = b.consumed)
    (hpub : b.published <+: b'.published)
    (hslot : b'.slots (TripleBuffer.readerSlot b q.pc.conCall)
      = b.slots (TripleBuffer.readerSlot b q.pc.conCall)) : Reads b' q where
  seen ha := by
    have := h.seen ha
    unfold TripleBuffer.seen at this ⊢
    rw [hcon]
    exact this
  copying k hk := by
    rw [hk] at hslot
    have hslot' : b'.slots b.read = b.slots b.read := hslot
    rw [hread, hslot']
    exact h.copying k hk
  kept hh ha := (h.kept hh ha).frame hpub hcon
  writes := h.writes

/-- Publish moves with the snapshot it has. -/
theorem Reads.move {b : TripleBuffer Snapshot} {q q' : Publish} (h : Reads b q)
    (hlast : q'.last = q.last) (hhave : q'.have_ = q.have_) (ha : q.pc.adopting = false)
    (ha' : q'.pc.adopting = false) (hw : q'.pc.filing = true → q.have_ = true) :
    Reads b q' where
  seen hno := by rw [ha'] at hno; cases hno
  copying k hk := by rw [hk] at ha'; cases ha'
  kept hh _ := by
    rw [hlast]
    exact h.kept (hhave ▸ hh) ha
  writes hpc := hhave.trans (hw hpc)

/-- Publish leaves its loop with the snapshot it has. -/
theorem Reads.leave {b : TripleBuffer Snapshot} {q : Publish} (h : Reads b q)
    (ha : q.pc.adopting = false) : Reads b q.leave := by
  unfold Publish.leave
  split
  · rename_i hhave
    exact h.move rfl rfl ha rfl (fun _ => hhave)
  · exact h.move rfl rfl ha rfl (by simp [PublishPc.filing])

theorem Publish.step_simulates {l l' : Layout} {q q' : Publish} {zero : Snapshot}
    {p : TripleBuffer.PubPc}
    (h : TripleBuffer.ReachableClean zero ⟨l.snapshots, p, q.pc.conCall⟩)
    (hs : q.step l = some (l', q')) :
    TripleBuffer.ReachableClean zero ⟨l'.snapshots, p, q'.pc.conCall⟩ := by
  have hleave : q.leave.pc.conCall = .idle := by
    unfold Publish.leave
    split <;> rfl
  unfold Publish.step at hs
  cases hpc : q.pc with
  | consume call =>
      rw [hpc] at h
      have hcon := TripleBuffer.ReachableClean.consumeStep (c := call) h
      simp only [hpc] at hs
      cases call with
      | loadFresh =>
          by_cases hf : l.snapshots.middle &&& TripleBuffer.kFresh = 0
          · simp only [TripleBuffer.consumeStep, if_pos hf, Option.some.injEq,
              Prod.mk.injEq] at hs hcon
            obtain ⟨rfl, rfl⟩ := hs
            exact hcon
          · simp only [TripleBuffer.consumeStep, if_neg hf, Option.some.injEq,
              Prod.mk.injEq] at hs hcon
            obtain ⟨rfl, rfl⟩ := hs
            exact hcon
      | _ =>
          simp only [TripleBuffer.consumeStep, Option.some.injEq, Prod.mk.injEq] at hs hcon
          obtain ⟨rfl, rfl⟩ := hs
          exact hcon
  | test =>
      rw [hpc] at h
      simp only [hpc] at hs
      split at hs <;> simp only [Option.some.injEq, Prod.mk.injEq] at hs <;>
        obtain ⟨rfl, rfl⟩ := hs
      · exact Transition.Reachable.tail (a := .callConsume) h rfl rfl
      · rw [hleave]
        exact h
  | testDone =>
      rw [hpc] at h
      simp only [hpc] at hs
      split at hs <;> simp only [Option.some.injEq, Prod.mk.injEq] at hs <;>
        obtain ⟨rfl, rfl⟩ := hs
      · rw [hleave]
        exact h
      · exact h
  | _ =>
      rw [hpc] at h
      simp only [hpc] at hs
      (try split at hs) <;> try simp only [Option.some.injEq, Prod.mk.injEq, reduceCtorEq] at hs
      all_goals
        obtain ⟨rfl, rfl⟩ := hs
        exact h

/-- **The reader's copy.** -/
theorem Publish.step_reads {l l' : Layout} {q q' : Publish} {zero : Snapshot}
    {p : TripleBuffer.PubPc} (h : Reads l.snapshots q)
    (hb : TripleBuffer.ReachableClean zero ⟨l.snapshots, p, q.pc.conCall⟩)
    (hs : q.step l = some (l', q')) : Reads l'.snapshots q' := by
  unfold Publish.step at hs
  cases hpc : q.pc with
  | attach =>
      simp only [hpc, Option.some.injEq, Prod.mk.injEq] at hs
      obtain ⟨rfl, rfl⟩ := hs
      exact h.move rfl rfl (by rw [hpc]; rfl) rfl (by simp [PublishPc.filing])
  | test =>
      simp only [hpc] at hs
      split at hs <;> simp only [Option.some.injEq, Prod.mk.injEq] at hs <;>
        obtain ⟨rfl, rfl⟩ := hs
      · exact h.move rfl rfl (by rw [hpc]; rfl) rfl (by simp [PublishPc.filing])
      · exact h.leave (by rw [hpc]; rfl)
  | consume call =>
      rw [hpc] at hb
      cases call with
      | idle =>
          simp only [hpc, TripleBuffer.consumeStep, Option.some.injEq, Prod.mk.injEq] at hs
          obtain ⟨rfl, rfl⟩ := hs
          exact h.move rfl rfl (by rw [hpc]; rfl) rfl (by simp [PublishPc.filing])
      | loadFresh =>
          by_cases hf : l.snapshots.middle &&& TripleBuffer.kFresh = 0
          · simp only [hpc, TripleBuffer.consumeStep, if_pos hf, Option.some.injEq,
              Prod.mk.injEq] at hs
            obtain ⟨rfl, rfl⟩ := hs
            exact h.move rfl rfl (by rw [hpc]; rfl) rfl (by simp [PublishPc.filing])
          · simp only [hpc, TripleBuffer.consumeStep, if_neg hf, Option.some.injEq,
              Prod.mk.injEq] at hs
            obtain ⟨rfl, rfl⟩ := hs
            exact h.move rfl rfl (by rw [hpc]; rfl) rfl (by simp [PublishPc.filing])
      | exchange =>
          simp only [hpc, TripleBuffer.consumeStep, Option.some.injEq, Prod.mk.injEq] at hs
          obtain ⟨rfl, rfl⟩ := hs
          have hseen := TripleBuffer.ReachableClean.seen_exchange hb
          exact ⟨fun _ => hseen, by simp, fun _ ha => absurd ha (by simp [PublishPc.adopting]),
            by simp [PublishPc.filing]⟩
      | update old =>
          have hseen := h.seen (by rw [hpc]; rfl)
          simp only [hpc, TripleBuffer.consumeStep, Option.some.injEq, Prod.mk.injEq] at hs
          obtain ⟨rfl, rfl⟩ := hs
          refine ⟨fun _ => hseen, ?_, fun _ ha => absurd ha (by simp [PublishPc.adopting]),
            by simp [PublishPc.filing]⟩
          intro k hk
          obtain rfl := PublishPc.copy.inj hk
          exact ⟨by decide, copied_zero _ _⟩
  | copy k =>
      obtain ⟨hk, hcopied⟩ := h.copying k hpc
      have hpart := hcopied.part
      have hseen := h.seen (by rw [hpc]; rfl)
      simp only [hpc] at hs
      split at hs <;> rename_i hlt <;> simp only [Option.some.injEq, Prod.mk.injEq] at hs <;>
        obtain ⟨rfl, rfl⟩ := hs
      · refine ⟨fun _ => hseen, ?_, fun _ ha => absurd ha (by simp [PublishPc.adopting]),
          by simp [PublishPc.filing]⟩
        intro j hj
        obtain rfl := PublishPc.copy.inj hj
        exact ⟨hlt, hpart⟩
      · -- the copy is complete: it is what the reader's slot holds
        have hall : k + 1 = Snapshot.parts := by omega
        refine ⟨fun ha => absurd ha (by simp [PublishPc.adopting]), by simp, fun _ _ => ?_,
          by simp [PublishPc.filing]⟩
        rw [hall] at hpart
        rw [hpart.eq]
        rw [hpc] at hb
        exact TripleBuffer.ReachableClean.adopted hb hseen
  | beat =>
      simp only [hpc, Option.some.injEq, Prod.mk.injEq] at hs
      obtain ⟨rfl, rfl⟩ := hs
      exact h.move rfl rfl (by rw [hpc]; rfl) rfl (by simp [PublishPc.filing])
  | testDone =>
      simp only [hpc] at hs
      split at hs <;> simp only [Option.some.injEq, Prod.mk.injEq] at hs <;>
        obtain ⟨rfl, rfl⟩ := hs
      · exact h.leave (by rw [hpc]; rfl)
      · exact h.move rfl rfl (by rw [hpc]; rfl) rfl (by simp [PublishPc.filing])
  | openFile =>
      simp only [hpc, Option.some.injEq, Prod.mk.injEq] at hs
      obtain ⟨rfl, rfl⟩ := hs
      exact h.move rfl rfl (by rw [hpc]; rfl) rfl (fun _ => h.writes (by rw [hpc]; rfl))
  | write =>
      simp only [hpc, Option.some.injEq, Prod.mk.injEq] at hs
      obtain ⟨rfl, rfl⟩ := hs
      exact h.move rfl rfl (by rw [hpc]; rfl) rfl (by simp [PublishPc.filing])
  | exit code => simp [hpc] at hs

/-- Publish opens the file nowhere but at its open. -/
theorem Publish.step_not_open {l l' : Layout} {q q' : Publish} (hs : q.step l = some (l', q'))
    (hw : q.pc.filing = false) : q'.pc ≠ .write := by
  have hleave : q.leave.pc ≠ .write := by
    unfold Publish.leave
    split <;> simp
  unfold Publish.step at hs
  cases hpc : q.pc <;> simp only [hpc, PublishPc.filing, reduceCtorEq] at hs hw
  all_goals (try split at hs)
  all_goals simp only [Option.some.injEq, Prod.mk.injEq] at hs
  all_goals
    obtain ⟨-, rfl⟩ := hs
    first | exact hleave | simp

/-- A text that publish writes is not empty. -/
theorem Snapshot.render_ne_empty (snap : Snapshot) : snap.render ≠ "" := by
  intro h
  have hlen := congrArg String.length h
  simp [Snapshot.render] at hlen

/-- Publish hands nothing over. -/
theorem Publish.step_published {l l' : Layout} {q q' : Publish} (hs : q.step l = some (l', q')) :
    l'.snapshots.published = l.snapshots.published := by
  unfold Publish.step at hs
  cases hpc : q.pc with
  | consume call =>
      cases call with
      | loadFresh =>
          by_cases hf : l.snapshots.middle &&& TripleBuffer.kFresh = 0
          · simp only [hpc, TripleBuffer.consumeStep, if_pos hf, Option.some.injEq,
              Prod.mk.injEq] at hs
            obtain ⟨rfl, _⟩ := hs
            rfl
          · simp only [hpc, TripleBuffer.consumeStep, if_neg hf, Option.some.injEq,
              Prod.mk.injEq] at hs
            obtain ⟨rfl, _⟩ := hs
            rfl
      | _ =>
          simp only [hpc, TripleBuffer.consumeStep, Option.some.injEq, Prod.mk.injEq] at hs
          obtain ⟨rfl, _⟩ := hs
          rfl
  | _ =>
      simp only [hpc] at hs
      (try split at hs) <;> try simp only [Option.some.injEq, Prod.mk.injEq, reduceCtorEq] at hs
      all_goals
        obtain ⟨rfl, _⟩ := hs
        rfl

/-! ## The system -/

/-- The wait for publish has returned. -/
def SupPc.reaped : SupPc → Bool
  | .storePublishExit _ _ _ => true
  | .returned _ => true
  | _ => false

/-- The main thread never goes back before its attach. -/
theorem begun_of_computeMain {l l' : Layout} {p : Compute} {pc' : ComputeMainPc}
    (hs : computeMainStep l p = some (l', pc')) :
    ({ p with main := pc' } : Compute).begun = p.begun
      ∨ ({ p with main := pc' } : Compute).begun = true := by
  unfold computeMainStep at hs
  unfold Compute.begun
  cases hm : p.main <;> simp only [hm, reduceCtorEq] at hs
  all_goals (try split at hs)
  all_goals simp only [Option.some.injEq, Prod.mk.injEq, reduceCtorEq] at hs
  all_goals rw [← hs.2]; simp

namespace Pipeline

/-- The triple buffer with the calls in progress on it. -/
def buffer (s : Pipeline) : TripleBuffer.State Snapshot :=
  { buf := s.layout.snapshots, writer := s.pubCall, reader := s.conCall }

/-- The step kills no process between an exchange and its index store. -/
def killsClean (s : Pipeline) : Act → Bool
  | .killCompute => TripleBuffer.cleanKill s.buffer .killWriter
  | .killPublish => TripleBuffer.cleanKill s.buffer .killReader
  | _ => true

/-- The states of the runs whose kills spare the calls on the buffer. -/
def ReachableSpared : Pipeline → Prop :=
  Transition.Reachable step (fun s a => s.killsClean a = true) Start

/-- The way of the snapshots, in a run whose kills spare the calls on the buffer. -/
structure Whole (s : Pipeline) : Prop where
  buffer : TripleBuffer.ReachableClean {} s.buffer
  handed : s.layout.snapshots.published = s.handed.map Prod.snd
  filling : ∀ p, s.compute = .running p → FillOk s.layout.snapshots p.snapshot
  waits : ∀ p, s.compute = .running p → p.begun = false → p.snapshot.pc.pubCall = .idle
  reads : ∀ q, s.publish = .running q → Reads s.layout.snapshots q
  written : ∀ snap, s.written = some snap → s.layout.snapshots.Adopted snap
    ∧ ∀ q, s.publish = .running q → ∃ code, q.pc = .exit code
  unwritten : s.publish = .unborn → s.written = none
  reaped : ∀ q, s.publish = .running q → s.sup.reaped = false

theorem whole_start (replay : List UInt8) (clock : UInt64) : Whole (start replay clock) where
  buffer := .init rfl
  handed := rfl
  filling p hp := by cases hp
  waits p hp := by cases hp
  reads q hq := by cases hq
  written snap hw := by cases hw
  unwritten _ := rfl
  reaped q hq := by cases hq

/-- How a step that leaves the buffer alone may leave compute. -/
inductive WriterKept (s s' : Pipeline) : Prop
  | runs {p p' : Compute} (hp : s.compute = .running p) (hp' : s'.compute = .running p')
      (hsnap : p'.snapshot = p.snapshot) (hbegun : p'.begun = p.begun ∨ p'.begun = true)
  | starts (hidle : ∀ old, s.pubCall ≠ .update old) (hp' : s'.compute = .running Compute.init)
  | gone (hidle : ∀ old, s.pubCall ≠ .update old) (hp' : ∀ p, s'.compute ≠ .running p)

theorem pubCall_running {s : Pipeline} {p : Compute} (hp : s.compute = .running p) :
    s.pubCall = p.snapshot.pc.pubCall := by simp [pubCall, hp]

theorem pubCall_gone {s : Pipeline} (hp : ∀ p, s.compute ≠ .running p) : s.pubCall = .idle := by
  unfold pubCall
  split
  · rename_i p hp'
    exact absurd hp' (hp p)
  · rfl

theorem conCall_running {s : Pipeline} {q : Publish} (hq : s.publish = .running q) :
    s.conCall = q.pc.conCall := by simp [conCall, hq]

theorem conCall_gone {s : Pipeline} (hq : ∀ q, s.publish ≠ .running q) : s.conCall = .idle := by
  unfold conCall
  split
  · rename_i q hq'
    exact absurd hq' (hq q)
  · rfl

/-- A child that is as it was. -/
theorem writerKept_same {s s' : Pipeline} (h : s'.compute = s.compute) : WriterKept s s' := by
  cases hc : s.compute with
  | running p => exact .runs hc (h.trans hc) rfl (Or.inl rfl)
  | _ =>
      have hno : ∀ p, s.compute ≠ .running p := by
        intro p hp
        rw [hc] at hp
        cases hp
      exact .gone (by rw [pubCall_gone hno]; simp) (by rw [h]; exact hno)

/-- A step that leaves the buffer, publish and the file alone. -/
theorem Whole.calm {s s' : Pipeline} (h : Whole s)
    (hb : s'.layout.snapshots = s.layout.snapshots) (hcom : WriterKept s s')
    (hpub : s'.publish = s.publish) (hh : s'.handed = s.handed) (hw : s'.written = s.written)
    (hsup : s'.sup.reaped = true → s.sup.reaped = true ∨ ∀ q, s.publish ≠ .running q) :
    Whole s' := by
  have hcon : s'.conCall = s.conCall := by unfold conCall; rw [hpub]
  have hbuf := h.buffer
  unfold Pipeline.buffer at hbuf
  refine ⟨?_, by rw [hb, hh]; exact h.handed, ?_, ?_, by rw [hb, hpub]; exact h.reads,
    by rw [hb, hpub, hw]; exact h.written, by rw [hpub, hw]; exact h.unwritten, ?_⟩
  · unfold Pipeline.buffer
    rw [hb, hcon]
    cases hcom with
    | runs hp hp' hsnap _ =>
        rw [pubCall_running hp', hsnap, ← pubCall_running hp]
        exact hbuf
    | starts hidle hp' =>
        rw [pubCall_running hp']
        exact TripleBuffer.ReachableClean.dropWriter hbuf hidle
    | gone hidle hp' =>
        rw [pubCall_gone hp']
        exact TripleBuffer.ReachableClean.dropWriter hbuf hidle
  · intro p' hrun
    rw [hb]
    cases hcom with
    | runs hp hp' hsnap _ =>
        obtain rfl := Child.running_unique hp' hrun
        rw [hsnap]
        exact h.filling _ hp
    | starts hidle hp' =>
        obtain rfl := Child.running_unique hp' hrun
        trivial
    | gone hidle hp' => exact absurd hrun (hp' p')
  · intro p' hrun hbegun
    cases hcom with
    | runs hp hp' hsnap hkeep =>
        obtain rfl := Child.running_unique hp' hrun
        rw [hsnap]
        rcases hkeep with hsame | htrue
        · exact h.waits _ hp (hsame ▸ hbegun)
        · rw [htrue] at hbegun
          cases hbegun
    | starts hidle hp' =>
        obtain rfl := Child.running_unique hp' hrun
        rfl
    | gone hidle hp' => exact absurd hrun (hp' p')
  · intro q hq
    rw [hpub] at hq
    cases hre : s'.sup.reaped with
    | false => rfl
    | true =>
        rcases hsup hre with hold | hnot
        · rw [h.reaped q hq] at hold
          cases hold
        · exact absurd hq (hnot q)

/-- Publish starts, ends, or gives up writing. -/
theorem Whole.newPublish {s s' : Pipeline} (h : Whole s) (hl : s'.layout = s.layout)
    (hcom : s'.compute = s.compute) (hh : s'.handed = s.handed) (hw : s'.written = s.written)
    (hidle : ∀ old, s.conCall ≠ .update old) (hborn : s'.publish ≠ .unborn)
    (hsup : s'.sup.reaped = false ∨ ∀ q, s'.publish ≠ .running q)
    (hnew : ∀ q', s'.publish = .running q' → q'.pc.conCall = .idle ∧ Reads s.layout.snapshots q'
      ∧ (s.written ≠ none → ∃ code, q'.pc = .exit code)) : Whole s' := by
  have hpub : s'.pubCall = s.pubCall := by unfold pubCall; rw [hcom]
  refine ⟨?_, by rw [hl, hh]; exact h.handed, by rw [hl, hcom]; exact h.filling,
    by rw [hcom]; exact h.waits, ?_, ?_, fun hu => absurd hu hborn, ?_⟩
  · have hcon : s'.conCall = .idle := by
      unfold conCall
      split
      · rename_i q' hq'
        exact (hnew q' hq').1
      · rfl
    unfold Pipeline.buffer
    rw [hl, hpub, hcon]
    exact TripleBuffer.ReachableClean.dropReader h.buffer hidle
  · intro q' hq'
    rw [hl]
    exact (hnew q' hq').2.1
  · intro snap hsnap
    rw [hl]
    rw [hw] at hsnap
    refine ⟨(h.written snap hsnap).1, ?_⟩
    intro q' hq'
    exact (hnew q' hq').2.2 (by rw [hsnap]; simp)
  · intro q' hq'
    rcases hsup with hno | hnot
    · exact hno
    · exact absurd hq' (hnot q')

/-- The snapshot thread moves; what it hands over is told apart. -/
theorem Whole.snapshotMoves {s s' : Pipeline} (h : Whole s) {p : Compute} {l' : Layout}
    {t' : SnapshotThread} (hp : s.compute = .running p) (ha : p.attached = true)
    (hs : snapshotStep s.clock s.layout p.snapshot = some (l', t'))
    (hl : s'.layout = l') (hcom : s'.compute = .running { p with snapshot := t' })
    (hpub : s'.publish = s.publish) (hw : s'.written = s.written) (hsup : s'.sup = s.sup)
    (hh : l'.snapshots.published = s'.handed.map Prod.snd) : Whole s' := by
  subst hl
  have hmove := snapshotStep_bufferMove hs
  have hbuf := h.buffer
  unfold Pipeline.buffer at hbuf
  rw [pubCall_running hp] at hbuf
  obtain ⟨hread, hcon, hprefix, hslot⟩ := hmove.keeps hbuf
  have hcall : s'.conCall = s.conCall := by unfold conCall; rw [hpub]
  refine ⟨?_, hh, ?_, ?_, ?_, ?_, by rw [hpub, hw]; exact h.unwritten,
    by rw [hpub, hsup]; exact h.reaped⟩
  · unfold Pipeline.buffer
    rw [pubCall_running hcom, hcall]
    exact hmove.simulates hbuf
  · intro p' hp'
    obtain rfl := Child.running_unique hcom hp'
    exact snapshotStep_fillOk (h.filling p hp) hs
  · intro p' hp' hbegun
    obtain rfl := Child.running_unique hcom hp'
    have hyes : p.begun = true := Compute.begun_of_attached ha
    exact Bool.noConfusion (hyes.symm.trans hbegun)
  · intro q hq
    rw [hpub] at hq
    rw [conCall_running hq] at hslot
    exact (h.reads q hq).frame hread hcon hprefix hslot
  · intro snap hsnap
    rw [hpub]
    rw [hw] at hsnap
    obtain ⟨hadopted, hexit⟩ := h.written snap hsnap
    exact ⟨hadopted.frame hprefix hcon, hexit⟩

/-- The snapshot thread, outside its exchange. -/
theorem Whole.withSnapshot {s : Pipeline} (h : Whole s) {p : Compute} {l' : Layout}
    {t' : SnapshotThread} (hp : s.compute = .running p) (ha : p.attached = true)
    (hpc : p.snapshot.pc ≠ .publish .exchange)
    (hs : snapshotStep s.clock s.layout p.snapshot = some (l', t')) :
    Whole (s.withCompute (l', { p with snapshot := t' })) := by
  have hmove := snapshotStep_bufferMove hs
  exact h.snapshotMoves hp ha hs rfl rfl rfl rfl rfl ((hmove.published hpc).trans h.handed)

/-- The exchange hands over what the write slot holds, which is the thread's snapshot. -/
theorem Whole.handOver {s : Pipeline} (h : Whole s) {p : Compute} {l' : Layout}
    {t' : SnapshotThread} (hp : s.compute = .running p) (ha : p.attached = true)
    (hpc : p.snapshot.pc = .publish .exchange)
    (hs : snapshotStep s.clock s.layout p.snapshot = some (l', t')) :
    Whole ((s.withCompute (l', { p with snapshot := t' })).hand p.snapshot.snap) := by
  have hmove := snapshotStep_bufferMove hs
  have hfull : s.layout.snapshots.slots s.layout.snapshots.write = p.snapshot.snap := by
    simpa only [FillOk, hpc] using h.filling p hp
  refine h.snapshotMoves hp ha hs rfl rfl rfl rfl rfl ?_
  show l'.snapshots.published = (s.handed ++ [(s.attempt, p.snapshot.snap)]).map Prod.snd
  rw [hmove.published_exchange hpc, h.handed, hfull, List.map_append]
  rfl

/-- A step of publish away from the output file. -/
theorem Whole.withPublish {s : Pipeline} (h : Whole s) {q q' : Publish} {l' : Layout}
    (hq : s.publish = .running q) (hs : q.step s.layout = some (l', q')) :
    Whole (s.withPublish (l', q')) := by
  have hbuf := h.buffer
  unfold Pipeline.buffer at hbuf
  rw [conCall_running hq] at hbuf
  obtain ⟨hslots, hwrite⟩ := Publish.step_slots hs
  refine ⟨Publish.step_simulates hbuf hs, (Publish.step_published hs).trans h.handed, ?_, h.waits,
    ?_, ?_, ?_, ?_⟩
  · intro p hp
    have hfill := h.filling p hp
    show FillOk l'.snapshots p.snapshot
    unfold FillOk at hfill ⊢
    rw [hslots, hwrite]
    exact hfill
  · intro q'' hq''
    obtain rfl := Child.running.inj hq''
    exact Publish.step_reads (h.reads q hq) hbuf hs
  · -- after its write publish takes no such step
    intro snap hw
    obtain ⟨code, hexit⟩ := (h.written snap hw).2 q hq
    simp [Publish.step, hexit] at hs
  · intro hu
    cases hu
  · intro q'' _
    exact h.reaped q hq

/-- **The open.** Nothing of the snapshot is in the file yet. -/
theorem Whole.openOut {s : Pipeline} (h : Whole s) {q : Publish} (hq : s.publish = .running q)
    (hc : q.pc = .openFile) :
    Whole (s.withPublish (s.layout, { q with pc := .write })).openOut := by
  have hbuf := h.buffer
  unfold Pipeline.buffer at hbuf
  rw [conCall_running hq, hc] at hbuf
  refine ⟨hbuf, h.handed, h.filling, h.waits, ?_, ?_, ?_, ?_⟩
  · intro q' hq'
    obtain rfl := Child.running.inj hq'
    have hhave := (h.reads q hq).writes (by rw [hc]; rfl)
    exact (h.reads q hq).move rfl rfl (by rw [hc]; rfl) rfl (fun _ => hhave)
  · intro snap hw
    cases hw
  · intro hu
    cases hu
  · intro q' _
    exact h.reaped q hq

/-- **The close.** The text that gets into the file is the adopted snapshot's. -/
theorem Whole.write {s : Pipeline} (h : Whole s) {q : Publish} (hq : s.publish = .running q)
    (hw : q.pc = .write) :
    Whole ((s.withPublish (s.layout, { q with pc := .exit 0 })).write q.last) := by
  have hadopted := (h.reads q hq).kept ((h.reads q hq).writes (by rw [hw]; rfl)) (by rw [hw]; rfl)
  have hbuf := h.buffer
  unfold Pipeline.buffer at hbuf
  rw [conCall_running hq, hw] at hbuf
  refine ⟨hbuf, h.handed, h.filling, h.waits, ?_, ?_, ?_, ?_⟩
  · intro q' hq'
    obtain rfl := Child.running.inj hq'
    exact (h.reads q hq).move rfl rfl (by rw [hw]; rfl) rfl (by simp [PublishPc.filing])
  · intro snap hsnap
    obtain rfl := Option.some.inj hsnap
    refine ⟨hadopted, ?_⟩
    intro q' hq'
    obtain rfl := Child.running.inj hq'
    exact ⟨0, rfl⟩
  · intro hu
    cases hu
  · intro q' _
    exact h.reaped q hq

/-- A supervisor's store past the wait for publish follows one. -/
theorem reaped_of_store {l l' : Layout} {pc pc' : SupPc} (hs : supStep l pc = some (l', pc'))
    (h : pc'.reaped = true) : pc.reaped = true := by
  cases pc with
  | storeComputeExit n status =>
      simp only [supStep, Option.some.injEq, Prod.mk.injEq] at hs
      rw [← hs.2] at h
      unfold SupPc.afterCompute at h
      split at h
      · cases h
      · split at h <;> cases h
  | _ =>
      simp only [supStep, Option.some.injEq, Prod.mk.injEq, reduceCtorEq] at hs
      all_goals
        rw [← hs.2] at h
        first | rfl | cases h

/-- **Every step keeps the way of the snapshots.** -/
theorem whole_step {s s' : Pipeline} {a : Act} (h : Whole s) (hsound : Sound s)
    (hok : s.killsClean a = true) (hs : s.step a = some s') : Whole s' := by
  have hsk := hsound.skeleton
  have hidle : (∀ p, s.compute ≠ .running p) → ∀ old, s.pubCall ≠ .update old := by
    intro hno old
    rw [pubCall_gone hno]
    simp
  cases move_of_step hs with
  | spawnPublish hsup =>
      have hborn := hsk.publish.mpr (by rw [hsup]; rfl)
      refine h.newPublish rfl rfl rfl rfl ?_ (by simp) (Or.inl rfl) ?_
      · rw [conCall_gone (by rw [hborn]; simp)]
        simp
      · intro q' hq'
        obtain rfl := Child.running.inj hq'
        exact ⟨rfl, reads_init _, fun hne => absurd (h.unwritten hborn) hne⟩
  | noPublish hsup =>
      have hborn := hsk.publish.mpr (by rw [hsup]; rfl)
      refine h.newPublish rfl rfl rfl rfl ?_ (by simp) (Or.inl rfl) ?_
      · rw [conCall_gone (by rw [hborn]; simp)]
        simp
      · intro q' hq'
        cases hq'
  | spawnCompute hsup =>
      have hno := hsk.not_running (by rw [hsup]; rfl)
      exact h.calm rfl (.starts (hidle hno) rfl) rfl rfl rfl (by simp [SupPc.reaped])
  | noCompute hsup =>
      have hno := hsk.not_running (by rw [hsup]; rfl)
      exact h.calm rfl (.gone (hidle hno) (by simp)) rfl rfl rfl (by simp [SupPc.reaped])
  | reapPublish hsup hw =>
      refine h.calm rfl (writerKept_same rfl) rfl rfl rfl (fun _ => Or.inr ?_)
      intro q hq
      rw [hq] at hw
      cases hw
  | rerun hsup =>
      have hno := hsk.not_running (by rw [hsup]; rfl)
      have hnopub : ∀ q, s.publish ≠ .running q := by
        intro q hq
        have := h.reaped q hq
        rw [hsup] at this
        cases this
      have hbuf := h.buffer
      unfold Pipeline.buffer at hbuf
      rw [pubCall_gone hno, conCall_gone hnopub] at hbuf
      refine ⟨hbuf, h.handed, ?_, ?_, ?_, ?_, fun _ => rfl, ?_⟩
      · intro p hp
        cases hp
      · intro p hp
        cases hp
      · intro q hq
        cases hq
      · intro snap hw
        cases hw
      · intro q hq
        cases hq
  | store hst =>
      obtain ⟨sh, g, sv, rfl⟩ := (supStep_stored hst).layout
      exact h.calm rfl (writerKept_same rfl) rfl rfl rfl
        (fun hre => Or.inl (reaped_of_store hst hre))
  | source hp hm hst =>
      obtain ⟨n, rfl⟩ := Ingest.stepSource_layout hst
      exact h.calm rfl (writerKept_same rfl) rfl rfl rfl Or.inl
  | frames hp hm hst =>
      obtain ⟨r, rfl⟩ := Ingest.stepFrames_layout hst
      exact h.calm rfl (writerKept_same rfl) rfl rfl rfl Or.inl
  | ingestMain hp hst =>
      obtain ⟨n, rfl⟩ := Ingest.stepMain_layout hst
      exact h.calm rfl (writerKept_same rfl) rfl rfl rfl Or.inl
  | fast hp ha hst =>
      obtain ⟨hb, hc, ov, fd, r, la, rfl⟩ := fastStep_layout hst
      exact h.calm rfl (.runs hp rfl rfl (Or.inl rfl)) rfl rfl rfl Or.inl
  | window hp ha hst =>
      obtain ⟨hb, ov, wd, wi, rfl⟩ := windowStep_layout hst
      exact h.calm rfl (.runs hp rfl rfl (Or.inl rfl)) rfl rfl rfl Or.inl
  | snapshot hp ha hpc hst => exact h.withSnapshot hp ha hpc hst
  | handOver hp ha hpc hst => exact h.handOver hp ha hpc hst
  | watchdog hp ha hst =>
      obtain ⟨f, rfl⟩ := watchdogStep_layout hst
      exact h.calm rfl (.runs hp rfl rfl (Or.inl rfl)) rfl rfl rfl Or.inl
  | @computeMain p l' pc' hp hst =>
      have hkeep := begun_of_computeMain hst
      obtain ⟨cd, rfl⟩ := computeMainStep_layout hst
      exact h.calm rfl (.runs hp rfl rfl hkeep) rfl rfl rfl Or.inl
  | @computeExit p code hp hm =>
      have hd := (hsound.stages p hp).joinedSnapshot (by rw [hm]; exact Nat.le_add_left 3 1)
      refine h.calm rfl (.gone ?_ (by simp)) rfl rfl rfl Or.inl
      intro old
      rw [pubCall_running hp]
      cases hpc : p.snapshot.pc with
      | done => simp [SnapshotPc.pubCall]
      | _ => rw [hpc] at hd; cases hd
  | computeCrash hp hm =>
      refine h.calm rfl (.gone ?_ (by simp)) rfl rfl rfl Or.inl
      rw [pubCall_running hp, h.waits _ hp (by simp [Compute.begun, hm])]
      simp
  | computeRefused hp hm =>
      refine h.calm rfl (.gone ?_ (by simp)) rfl rfl rfl Or.inl
      rw [pubCall_running hp, h.waits _ hp (by simp [Compute.begun, hm])]
      simp
  | killCompute hp =>
      refine h.calm rfl (.gone ?_ (by simp)) rfl rfl rfl Or.inl
      intro old hold
      simp [killsClean, TripleBuffer.cleanKill, buffer, hold] at hok
  | publish hp hw hst => exact h.withPublish hp hst
  | publishOpen hp hc => exact h.openOut hp hc
  | publishWrite hp hw => exact h.write hp hw
  | publishExit hp hc =>
      refine h.newPublish rfl rfl rfl rfl ?_ (by simp) (Or.inr (by simp)) (by simp)
      rw [conCall_running hp, hc]
      simp [PublishPc.conCall]
  | publishRefused hp hc =>
      refine h.newPublish rfl rfl rfl rfl ?_ (by simp) (Or.inr (by simp)) (by simp)
      rw [conCall_running hp, hc]
      simp [PublishPc.conCall]
  | openFails hp hc =>
      refine h.newPublish rfl rfl rfl rfl ?_ (by simp) (Or.inl (h.reaped _ hp)) ?_
      · rw [conCall_running hp, hc]
        simp [PublishPc.conCall]
      · intro q' hq'
        obtain rfl := Child.running.inj hq'
        exact ⟨rfl, (h.reads _ hp).move rfl rfl (by rw [hc]; rfl) rfl (by simp [PublishPc.filing]),
          fun _ => ⟨1, rfl⟩⟩
  | killPublish hp =>
      refine h.newPublish rfl rfl rfl rfl ?_ (by simp) (Or.inr (by simp)) (by simp)
      intro old hold
      simp [killsClean, TripleBuffer.cleanKill, buffer, hold] at hok
  | tick hle => exact h.calm rfl (writerKept_same rfl) rfl rfl rfl Or.inl
  | ingestAttach hp hm => exact h.calm rfl (writerKept_same rfl) rfl rfl rfl Or.inl
  | ingestExit hp hm => exact h.calm rfl (writerKept_same rfl) rfl rfl rfl Or.inl
  | ingestRefused hp hm => exact h.calm rfl (writerKept_same rfl) rfl rfl rfl Or.inl
  | killIngest hp => exact h.calm rfl (writerKept_same rfl) rfl rfl rfl Or.inl
  | _ => exact h.calm rfl (writerKept_same rfl) rfl rfl rfl (by simp [SupPc.reaped])

theorem whole_reachable {s : Pipeline} (h : ReachableSpared s) : Whole s := by
  induction h with
  | init hstart =>
      obtain ⟨replay, clock, rfl⟩ := hstart
      exact whole_start replay clock
  | tail hr hok hs ih => exact whole_step ih (sound_reachable hr) hok hs

/-! ## The output file -/

/-- Publish has the output file open. -/
def fileOpen (s : Pipeline) : Bool :=
  match s.publish with
  | .running q => decide (q.pc = .write)
  | _ => false

/-- Whether some publish was killed with the output file open and none has opened it since. -/
def noteTorn (torn : Bool) (s : Pipeline) (a : Act) (s' : Pipeline) : Bool :=
  match a with
  | .killPublish => torn || s.fileOpen
  | .publish => torn && !s'.fileOpen
  | _ => torn

/-- The runs whose kills spare the calls on the buffer, with the kills that leave the output file
open noted. -/
def ReachableNoting (x : Transition.Noted Pipeline Bool) : Prop :=
  Transition.ReachableNoted step noteTorn (fun x a => x.now.killsClean a = true) Start false x

theorem ReachableNoting.spared {x : Transition.Noted Pipeline Bool} (h : ReachableNoting x) :
    ReachableSpared x.now :=
  Transition.ReachableNoted.now_of (fun _ _ ha => ha) h

/-- What is in the output file. -/
structure Filed (s : Pipeline) (torn : Bool) : Prop where
  /-- No publish opens it before a snapshot was handed over. -/
  source : ∀ text, s.outFile = some text →
    s.handed ≠ [] ∧ (text = "" ∨ ∃ handover ∈ s.handed, text = handover.2.render)
  empty : s.outFile = some "" ↔ s.fileOpen = true ∨ torn = true
  whole : s.fileOpen = true → torn = false

theorem filed_start (replay : List UInt8) (clock : UInt64) : Filed (start replay clock) false where
  source text ht := by cases ht
  empty := by simp [start, fileOpen]
  whole _ := rfl

/-- A step that leaves the output file alone, and publish as far from it as it was. -/
theorem Filed.frame {s s' : Pipeline} {torn : Bool} (h : Filed s torn)
    (hfile : s'.outFile = s.outFile) (hhanded : s.handed <+: s'.handed)
    (hopen : s'.fileOpen = s.fileOpen) : Filed s' torn where
  source text ht := by
    obtain ⟨hne, htext⟩ := h.source text (hfile ▸ ht)
    refine ⟨fun hnil => hne (List.prefix_nil.mp (hnil ▸ hhanded)), htext.imp_right ?_⟩
    rintro ⟨handover, hmem, rfl⟩
    exact ⟨handover, hhanded.subset hmem, rfl⟩
  empty := by rw [hfile, hopen]; exact h.empty
  whole := by rw [hopen]; exact h.whole

/-- What publish has adopted was handed over. -/
theorem Whole.handed_adopted {s : Pipeline} (h : Whole s) {snap : Snapshot}
    (ha : s.layout.snapshots.Adopted snap) :
    ∃ k n, s.handed[k]? = some (n, snap) ∧ k + 1 = s.layout.snapshots.seen := by
  obtain ⟨k, hk, hx⟩ := ha
  rw [h.handed, List.getElem?_map, Option.map_eq_some_iff] at hx
  obtain ⟨⟨n, snap'⟩, hget, rfl⟩ := hx
  exact ⟨k, n, hget, hk⟩

/-- Publish past its loop holds a snapshot that was handed over. -/
theorem Whole.handed_last {s : Pipeline} (h : Whole s) {q : Publish} (hq : s.publish = .running q)
    (hf : q.pc.filing = true) : ∃ n, (n, q.last) ∈ s.handed := by
  have hreads := h.reads q hq
  have hkept := hreads.kept (hreads.writes hf) (PublishPc.adopting_of_filing hf)
  obtain ⟨k, n, hget, _⟩ := h.handed_adopted hkept
  exact ⟨n, List.mem_of_getElem? hget⟩

/-- **Every step keeps the output file empty or whole.** -/
theorem filed_step {s s' : Pipeline} {a : Act} {torn : Bool} (h : Filed s torn) (hw : Whole s)
    (hsk : Skeleton s) (hs : s.step a = some s') : Filed s' (noteTorn torn s a s') := by
  have hshut : ∀ {q : Publish}, s.publish = .running q → q.pc ≠ .write → s.fileOpen = false := by
    intro q hq hpc
    simp [fileOpen, hq, hpc]
  have hunborn : s.sup = .spawnPublish → s.fileOpen = false := by
    intro hsup
    have hborn := hsk.publish.mpr (by rw [hsup]; rfl)
    simp [fileOpen, hborn]
  cases move_of_step hs with
  | @publish q q' l' hq hpc hst =>
      have hnot := Publish.step_not_open hst hpc
      have hshut' : (s.withPublish (l', q')).fileOpen = false := by
        simp [fileOpen, withPublish, hnot]
      have hnow : s.fileOpen = false := by
        refine hshut hq ?_
        intro hwrite
        simp [hwrite, PublishPc.filing] at hpc
      simp only [noteTorn, hshut', Bool.not_false, Bool.and_true]
      exact h.frame rfl (List.prefix_refl _) (hshut'.trans hnow.symm)
  | @publishOpen q hq hc =>
      -- whatever was in the file is gone, and this publish has a snapshot to put there
      obtain ⟨n, hmem⟩ := hw.handed_last hq (by rw [hc]; rfl)
      refine ⟨?_, ?_, ?_⟩
      · rintro text ht
        obtain rfl := Option.some.inj ht
        exact ⟨List.ne_nil_of_mem hmem, Or.inl rfl⟩
      · simp [openOut, fileOpen, withPublish]
      · simp [noteTorn, openOut, fileOpen, withPublish]
  | @publishWrite q hq hc =>
      obtain ⟨n, hmem⟩ := hw.handed_last hq (by rw [hc]; rfl)
      have hkept : torn = false := h.whole (by simp [fileOpen, hq, hc])
      refine ⟨?_, ?_, ?_⟩
      · rintro text ht
        obtain rfl := Option.some.inj ht
        exact ⟨List.ne_nil_of_mem hmem, Or.inr ⟨_, hmem, rfl⟩⟩
      · simp [write, noteTorn, fileOpen, withPublish, hkept, Snapshot.render_ne_empty]
      · simp [write, fileOpen, withPublish]
  | publishExit hq hc =>
      have hnow := hshut hq (by simp [hc])
      simp only [noteTorn, fileOpen, Bool.not_false, Bool.and_true]
      exact h.frame rfl (List.prefix_refl _) hnow.symm
  | publishRefused hq hc =>
      exact h.frame rfl (List.prefix_refl _) (hshut hq (by simp [hc])).symm
  | openFails hq hc =>
      exact h.frame rfl (List.prefix_refl _) (hshut hq (by simp [hc])).symm
  | killPublish hq =>
      -- the only way for the file to stay empty with nobody to fill it
      refine ⟨h.source, ?_, by simp [fileOpen]⟩
      have hgone : ({ s with publish := .ended .signaled } : Pipeline).fileOpen = false := rfl
      rw [hgone]
      simp only [noteTorn, Bool.or_eq_true, Bool.false_eq_true, false_or]
      rw [or_comm]
      exact h.empty
  | spawnPublish hsup => exact h.frame rfl (List.prefix_refl _) (hunborn hsup).symm
  | noPublish hsup => exact h.frame rfl (List.prefix_refl _) (hunborn hsup).symm
  | rerun hsup =>
      refine h.frame rfl (List.prefix_refl _) (Eq.symm ?_)
      cases hp : s.publish with
      | running q =>
          have hnot := hw.reaped q hp
          rw [hsup] at hnot
          cases hnot
      | _ => simp [fileOpen, hp]
  | handOver hp ha hpc hst => exact h.frame rfl (List.prefix_append _ _) rfl
  | _ => exact h.frame rfl (List.prefix_refl _) rfl

theorem filed_reachable {x : Transition.Noted Pipeline Bool} (h : ReachableNoting x) :
    Whole x.now ∧ Filed x.now x.past := by
  refine Transition.ReachableNoted.invariant (I := fun s torn => Whole s ∧ Filed s torn) ?_ ?_ h
  · rintro _ ⟨replay, clock, rfl⟩
    exact ⟨whole_start replay clock, filed_start replay clock⟩
  · intro x a s' hr hi hok hs
    have hsound := sound_reachable hr
    exact ⟨whole_step hi.1 hsound hok hs, filed_step hi.2 hi.1 hsound.skeleton hs⟩

/--
**The output file is never torn.**

For every replay file and every run, over any number of pipelines on one mapping, with
attempts that fault, crash or are killed and replaced, in which no process is killed between
an exchange on the triple buffer and its index store: the output file is empty exactly while a
publish has it open, and after a publish that had it open was killed until another one opens
it; otherwise its text is that of one snapshot that a compute attempt handed over, generation
and all rows. Once the publish of the pipeline in progress has closed it, that is the latest
snapshot handed over before this publish took a snapshot for the last time.
-/
theorem output_is_whole {x : Transition.Noted Pipeline Bool} (h : ReachableNoting x) {text : String}
    (ht : x.now.outFile = some text) :
    (text = "" ↔ x.now.fileOpen = true ∨ x.past = true)
      ∧ (text ≠ "" → ∃ (k n : Nat) (snap : Snapshot),
        x.now.handed[k]? = some (n, snap) ∧ text = snap.render)
      ∧ ∀ snap, x.now.written = some snap → text = snap.render
        ∧ ∃ k n, x.now.handed[k]? = some (n, snap)
          ∧ k + 1 = x.now.layout.snapshots.seen := by
  obtain ⟨hw, hfiled⟩ := filed_reachable h
  refine ⟨?_, ?_, ?_⟩
  · rw [← hfiled.empty, ht, Option.some.injEq]
  · intro hne
    obtain ⟨⟨n, snap⟩, hmem, rfl⟩ := (hfiled.source text ht).2.resolve_left hne
    obtain ⟨k, hget⟩ := List.mem_iff_getElem?.mp hmem
    exact ⟨k, n, snap, hget, rfl⟩
  · intro snap hsnap
    have hfile := outFile_written h.spared hsnap
    rw [ht, Option.some.injEq] at hfile
    exact ⟨hfile, hw.handed_adopted (hw.written snap hsnap).1⟩

/-- The first attempt is killed while it copies its snapshot into the write slot; the second
one hands a snapshot over. -/
def killedFilling : List Act :=
  List.replicate 6 (Act.sup 7) ++ [Act.ingestMain, .source, .source, .frames]
    ++ List.replicate 4 Act.ingestMain ++ List.replicate 2 Act.computeMain
    ++ List.replicate 9 Act.fast ++ List.replicate 452 Act.window
    ++ List.replicate 300 Act.snapshot ++ [Act.killCompute] ++ List.replicate 5 (Act.sup 7)
    ++ List.replicate 2 Act.computeMain ++ List.replicate 9 Act.fast
    ++ List.replicate 452 Act.window ++ List.replicate 328 Act.snapshot ++ [Act.watchdog]
    ++ List.replicate 7 Act.computeMain

theorem output_is_whole_after_kill :
    ∃ x, ReachableNoting x ∧ x.now.exits.length = 1
      ∧ ∃ (k n : Nat) (snap : Snapshot), x.now.handed[k]? = some (n, snap)
        ∧ k + 1 = x.now.layout.snapshots.seen ∧ x.now.outFile = some snap.render := by
  have h : (Transition.execWhen (Transition.notedStep step noteTorn)
      (fun x a => x.now.killsClean a) ⟨start [] 1, false⟩
      (killedFilling ++ List.replicate 75 Act.publish)).any
      (fun x => decide (x.now.exits.length = 1) && x.now.written.isSome) = true := by
    decide +kernel
  obtain ⟨x, hrun, hx⟩ := Option.any_eq_true _ _ |>.mp h
  simp only [Bool.and_eq_true, decide_eq_true_eq] at hx
  have hr : ReachableNoting x :=
    Transition.ReachableNoted.execWhen (fun _ _ hg => hg) ⟨_, _, rfl⟩ hrun
  obtain ⟨snap, hw⟩ := Option.isSome_iff_exists.mp hx.2
  have hfile := outFile_written hr.spared hw
  obtain ⟨-, -, hclosed⟩ := output_is_whole hr hfile
  obtain ⟨-, k, n, hget, hk⟩ := hclosed snap hw
  exact ⟨x, hr, hx.1, k, n, snap, hget, hk, hfile⟩

end Pipeline

end RateHub
