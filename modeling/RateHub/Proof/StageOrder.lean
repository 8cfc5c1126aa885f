import RateHub.Lib.History
import RateHub.Proof.Attempts

/-!
# The order of the stages

The window thread waits for `fast_done`, the snapshot thread for `window_done`, publish for
`compute_done`. The flags live in the mapping and nobody clears them between two attempts
of one pipeline, so what a thread finds may be an earlier attempt's. An attempt that
starts with `fast_done` clear is safe: none of the flags is set then, and from there on
each is set by this attempt's own thread.

`StageLog` remembers what the order is about: whether the pass of `publish_windows` in
progress began after the attempt's own fast thread had left its loop, and whether
such a pass was completed.
-/

namespace RateHub

/-! ## Where the threads stand -/

/-- Inside `publish_windows`. -/
def WindowPc.inPass : WindowPc → Bool
  | .load _ _ _ _ => true
  | .publish _ _ _ => true
  | _ => false

/-- Inside the pass after the loop. -/
def WindowPc.inLast : WindowPc → Bool
  | .load last _ _ _ => last
  | .publish last _ _ => last
  | _ => false

/-- Past the pass after the loop. -/
def WindowPc.pastLast : WindowPc → Bool
  | .lastBeat => true
  | .storeLastBeat _ => true
  | .storeDone => true
  | .done => true
  | _ => false

/-- Past the loop that waits for `window_done`. -/
def SnapshotPc.pastLoop : SnapshotPc → Bool
  | .loadGeneration => true
  | .load _ _ _ => true
  | .fill _ => true
  | .publish _ => true
  | .lastBeat => true
  | .storeLastBeat _ => true
  | .storeDone => true
  | .done => true
  | _ => false

/-- Past the store of `compute_done`. -/
def ComputeMainPc.stored : ComputeMainPc → Bool
  | .loadFault => true
  | .exit _ => true
  | _ => false

theorem WindowPc.next_pass (last : Bool) (id : Fin kMaxSources) :
    ((WindowPc.next last id).inPass = true ∧ (WindowPc.next last id).inLast = last
        ∧ (WindowPc.next last id).pastLast = false)
      ∨ ((WindowPc.next last id).inPass = false ∧ (WindowPc.next last id).inLast = false
        ∧ (WindowPc.next last id).pastLast = last) := by
  unfold WindowPc.next
  split
  · exact Or.inl ⟨rfl, rfl, rfl⟩
  · cases last <;> exact Or.inr ⟨rfl, rfl, rfl⟩

theorem FastPc.left_of_isDone {pc : FastPc} (h : pc.isDone = true) : pc.left = true := by
  cases pc with
  | done => rfl
  | _ => cases h

theorem WindowPc.pastLast_of_isDone {pc : WindowPc} (h : pc.isDone = true) :
    pc.pastLast = true := by
  cases pc with
  | done => rfl
  | _ => cases h

/-! ## The flags of one pipeline -/

namespace Pipeline

/-- Behind every flag is `fast_done`: whoever set it, in whatever attempt, had seen it. -/
structure FlagChain (s : Pipeline) : Prop where
  window : s.layout.control.windowDone ≠ 0 → s.layout.control.fastDone ≠ 0
  compute : s.layout.control.computeDone ≠ 0 → s.layout.control.fastDone ≠ 0
  last : ∀ p, s.compute = .running p → p.window.pc.inLast = true ∨ p.window.pc.pastLast = true →
    s.layout.control.fastDone ≠ 0

theorem flagChain_start (replay : List UInt8) (clock : UInt64) : FlagChain (start replay clock) :=
  ⟨fun h => absurd rfl h, fun h => absurd rfl h, by intro p hp; cases hp⟩

theorem FlagChain.frame {s s' : Pipeline} (h : FlagChain s)
    (hf : s.layout.control.fastDone ≠ 0 → s'.layout.control.fastDone ≠ 0)
    (hw : s'.layout.control.windowDone = s.layout.control.windowDone)
    (hc : s'.layout.control.computeDone = s.layout.control.computeDone)
    (hp : ∀ p', s'.compute = .running p' → p'.window.pc.inLast = true ∨ p'.window.pc.pastLast = true →
      ∃ p, s.compute = .running p ∧ p'.window = p.window) : FlagChain s' where
  window hne := hf (h.window (hw ▸ hne))
  compute hne := hf (h.compute (hc ▸ hne))
  last p' hp' hl := by
    obtain ⟨p, hrun, hwin⟩ := hp p' hp' hl
    exact hf (h.last p hrun (hwin ▸ hl))

end Pipeline

/-- The fast thread stores its own flag only. -/
theorem FastMove.flags {clock : UInt64} {l l' : Layout} {t t' : Fast}
    (h : FastMove clock l t l' t') :
    (l.control.fastDone ≠ 0 → l'.control.fastDone ≠ 0)
      ∧ (l'.control.fastDone ≠ 0 → l.control.fastDone ≠ 0 ∨ t'.pc.isDone = true)
      ∧ t.pc.isDone = false ∧ l'.control.windowDone = l.control.windowDone
      ∧ l'.control.computeDone = l.control.computeDone := by
  cases h with
  | storeDone hpc => exact ⟨fun _ => by simp, fun _ => Or.inr rfl, by rw [hpc]; rfl, rfl, rfl⟩
  | _ hpc => exact ⟨id, Or.inl, by rw [hpc]; rfl, rfl, rfl⟩

/-- The window thread: what it may have found, where it goes and what it stores. -/
theorem WindowMove.flags {clock : UInt64} {l l' : Layout} {t t' : Window}
    (h : WindowMove clock l t l' t') :
    l'.control.fastDone = l.control.fastDone ∧ l'.control.computeDone = l.control.computeDone
      ∧ (l.control.windowDone ≠ 0 → l'.control.windowDone ≠ 0)
      ∧ (l'.control.windowDone ≠ 0 →
          l.control.windowDone ≠ 0 ∨ (t.pc.pastLast = true ∧ t'.pc.isDone = true))
      ∧ t.pc.isDone = false := by
  cases h with
  | storeDone hpc =>
      exact ⟨rfl, rfl, fun _ => by simp, fun _ => Or.inr ⟨by rw [hpc]; rfl, rfl⟩, by rw [hpc]; rfl⟩
  | _ hpc => exact ⟨rfl, rfl, id, Or.inl, by rw [hpc]; rfl⟩

/-- How the window thread gets into its last pass and past it. -/
theorem WindowMove.last {clock : UInt64} {l l' : Layout} {t t' : Window}
    (h : WindowMove clock l t l' t') (hflag : l.control.shutdown = 0) :
    (t'.pc.inLast = true →
        (t.pc.inLast = true ∧ t'.pc.inPass = true)
          ∨ (t.pc.inPass = false ∧ t'.pc.inPass = true ∧ l.control.fastDone ≠ 0))
      ∧ (t'.pc.pastLast = true → t.pc.pastLast = true ∨ (t.pc.inLast = true ∧ t'.pc.inPass = false))
      ∧ (t.pc.inLast = true → t.pc.inPass = true) := by
  have hin : ∀ pc : WindowPc, pc.inLast = true → pc.inPass = true := by
    intro pc hl
    cases pc with
    | load last id source call => rfl
    | publish last id call => rfl
    | _ => cases hl
  refine ⟨?_, ?_, hin _⟩
  · intro hl
    cases h with
    | sawFast hpc hf => exact Or.inr ⟨by rw [hpc]; rfl, rfl, hf⟩
    | sawStop hpc hf => exact absurd hflag hf
    | loading hpc hr => exact Or.inl ⟨by rw [hpc]; exact hl, rfl⟩
    | sample hpc hr hv => exact Or.inl ⟨by rw [hpc]; exact hl, rfl⟩
    | storing hpc hr hi => exact Or.inl ⟨by rw [hpc]; exact hl, rfl⟩
    | @skip last id _ _ _ _ _ hpc hr hno =>
        have hl' : (WindowPc.next last id).inLast = true := hl
        rcases WindowPc.next_pass last id with ⟨_, h2, _⟩ | ⟨_, h2, _⟩
        · exact Or.inl ⟨by rw [hpc]; exact h2.symm.trans hl', hin _ hl⟩
        · rw [h2] at hl'
          cases hl'
    | @stored last id _ _ hpc hr =>
        have hl' : (WindowPc.next last id).inLast = true := hl
        rcases WindowPc.next_pass last id with ⟨_, h2, _⟩ | ⟨_, h2, _⟩
        · exact Or.inl ⟨by rw [hpc]; exact h2.symm.trans hl', hin _ hl⟩
        · rw [h2] at hl'
          cases hl'
    | _ => cases hl
  · intro hl
    cases h with
    | @skip last id _ _ _ _ _ hpc hr hno =>
        have hl' : (WindowPc.next last id).pastLast = true := hl
        rcases WindowPc.next_pass last id with ⟨_, _, h3⟩ | ⟨h1, _, h3⟩
        · rw [h3] at hl'
          cases hl'
        · exact Or.inr ⟨by rw [hpc]; exact h3.symm.trans hl', h1⟩
    | @stored last id _ _ hpc hr =>
        have hl' : (WindowPc.next last id).pastLast = true := hl
        rcases WindowPc.next_pass last id with ⟨_, _, h3⟩ | ⟨h1, _, h3⟩
        · rw [h3] at hl'
          cases hl'
        · exact Or.inr ⟨by rw [hpc]; exact h3.symm.trans hl', h1⟩
    | lastBeat hpc => exact Or.inl (by rw [hpc]; rfl)
    | storeLastBeat hpc => exact Or.inl (by rw [hpc]; rfl)
    | storeDone hpc => exact Or.inl (by rw [hpc]; rfl)
    | _ => cases hl

/-- The snapshot thread leaves its loop on `window_done` and stores none of these flags. -/
theorem SnapshotMove.flags {clock : UInt64} {l l' : Layout} {t t' : SnapshotThread}
    (h : SnapshotMove clock l t l' t') (hflag : l.control.shutdown = 0) :
    l'.control.fastDone = l.control.fastDone ∧ l'.control.windowDone = l.control.windowDone
      ∧ l'.control.computeDone = l.control.computeDone
      ∧ (t'.pc.pastLoop = true → t.pc.pastLoop = true ∨ l.control.windowDone ≠ 0) := by
  cases h with
  | sawWindow hpc hf => exact ⟨rfl, rfl, rfl, fun _ => Or.inr hf⟩
  | sawStop hpc hf => exact absurd hflag hf
  | notWindow hpc => exact ⟨rfl, rfl, rfl, fun hl => by cases hl⟩
  | go hpc => exact ⟨rfl, rfl, rfl, fun hl => by cases hl⟩
  | beat hpc => exact ⟨rfl, rfl, rfl, fun hl => by cases hl⟩
  | storeBeat hpc => exact ⟨rfl, rfl, rfl, fun hl => by cases hl⟩
  | start hpc => exact ⟨rfl, rfl, rfl, fun hl => by cases hl⟩
  | work hpc => exact ⟨rfl, rfl, rfl, fun hl => by cases hl⟩
  | finish hpc => exact ⟨rfl, rfl, rfl, fun hl => by cases hl⟩
  | _ hpc => exact ⟨rfl, rfl, rfl, fun _ => Or.inl (by rw [hpc]; rfl)⟩

/-- The main thread stores `compute_done` past its joins. -/
theorem computeMainStep_flags {l l' : Layout} {p : Compute} {pc' : ComputeMainPc}
    (h : computeMainStep l p = some (l', pc')) :
    l'.control.fastDone = l.control.fastDone ∧ l'.control.windowDone = l.control.windowDone
      ∧ (l'.control.computeDone ≠ 0 →
          (l.control.computeDone ≠ 0 ∧ (p.main.stored = true → pc'.stored = true))
            ∨ (p.main = .storeDone ∧ pc'.stored = true)) := by
  unfold computeMainStep at h
  cases hm : p.main with
  | storeDone =>
      simp only [hm, Option.some.injEq, Prod.mk.injEq] at h
      obtain ⟨rfl, rfl⟩ := h
      exact ⟨rfl, rfl, fun _ => Or.inr ⟨rfl, rfl⟩⟩
  | loadFault =>
      simp only [hm, Option.some.injEq, Prod.mk.injEq] at h
      obtain ⟨rfl, rfl⟩ := h
      exact ⟨rfl, rfl, fun hne => Or.inl ⟨hne, fun _ => rfl⟩⟩
  | exit code => simp [hm] at h
  | _ =>
      simp only [hm] at h
      (try split at h) <;> try simp only [Option.some.injEq, Prod.mk.injEq, reduceCtorEq] at h
      all_goals
        obtain ⟨rfl, rfl⟩ := h
        exact ⟨rfl, rfl, fun hne => Or.inl ⟨hne, fun hst => by cases hst⟩⟩

/-- The watchdog stores none of the done flags. -/
theorem WatchdogMove.flags {clock : UInt64} {l l' : Layout} {pc pc' : WatchdogPc}
    (h : WatchdogMove clock l pc l' pc') :
    l'.control.fastDone = l.control.fastDone ∧ l'.control.windowDone = l.control.windowDone
      ∧ l'.control.computeDone = l.control.computeDone := by
  cases h <;> exact ⟨rfl, rfl, rfl⟩

namespace Pipeline

/-- **The chain holds in every run.** -/
theorem flagChain_step {s s' : Pipeline} {a : Act} (h : FlagChain s) (hi : Sound s)
    (hs : s.step a = some s') : FlagChain s' := by
  cases attemptMove hs with
  | unseen hu =>
      refine h.frame (by rw [hu.fastDone]; exact id) hu.windowDone hu.computeDone ?_
      intro p hp _
      exact ⟨p, hu.compute ▸ hp, rfl⟩
  | rerun hl hc hx hh hk =>
      refine ⟨?_, ?_, ?_⟩
      · intro hne
        exact absurd (by rw [hl]; rfl) hne
      · intro hne
        exact absurd (by rw [hl]; rfl) hne
      · intro p hp
        rw [hc] at hp
        cases hp
  | spawn hact hsup hl hc hx hh hk =>
      refine h.frame (by rw [hl]; exact id) (by rw [hl]) (by rw [hl]) ?_
      intro p hp hw
      obtain rfl := Child.running_unique hc hp
      rcases hw with hw | hw <;> cases hw
  | noSpawn hsup hl hc hx hh hk =>
      refine h.frame (by rw [hl]; exact id) (by rw [hl]) (by rw [hl]) ?_
      intro p hp
      rw [hc] at hp
      cases hp
  | reap hw hl hc hx hh hk =>
      refine h.frame (by rw [hl]; exact id) (by rw [hl]) (by rw [hl]) ?_
      intro p hp _
      exact ⟨p, hc ▸ hp, rfl⟩
  | fast hact hp ha hm hc hx hh hk =>
      obtain ⟨hf, _, _, hw, hcd⟩ := hm.flags
      refine h.frame hf hw hcd ?_
      intro q hq _
      obtain rfl := Child.running_unique hc hq
      exact ⟨_, hp, rfl⟩
  | window hact hp ha hm hc hx hh hk =>
      have hflag := hi.skeleton.no_shutdown hp
      obtain ⟨hf, hcd, _, hw, _⟩ := hm.flags
      obtain ⟨hin, hpast, _⟩ := hm.last hflag
      refine ⟨?_, ?_, ?_⟩
      · intro hne
        rw [hf]
        rcases hw hne with hold | ⟨hlast, _⟩
        · exact h.window hold
        · exact h.last _ hp (Or.inr hlast)
      · rw [hf, hcd]
        exact h.compute
      · intro q hq hl
        obtain rfl := Child.running_unique hc hq
        rw [hf]
        rcases hl with hl | hl
        · rcases hin hl with ⟨hl', _⟩ | ⟨_, _, hne⟩
          · exact h.last _ hp (Or.inl hl')
          · exact hne
        · rcases hpast hl with hl' | ⟨hl', _⟩
          · exact h.last _ hp (Or.inr hl')
          · exact h.last _ hp (Or.inl hl')
  | snapshot hact hp ha hm hc hx hh hk =>
      obtain ⟨hf, hw, hcd, _⟩ := hm.flags (hi.skeleton.no_shutdown hp)
      refine h.frame (by rw [hf]; exact id) hw hcd ?_
      intro q hq _
      obtain rfl := Child.running_unique hc hq
      exact ⟨_, hp, rfl⟩
  | watchdog hact hp ha hm hc hx hh hk =>
      obtain ⟨hf, hw, hcd⟩ := hm.flags
      refine h.frame (by rw [hf]; exact id) hw hcd ?_
      intro q hq _
      obtain rfl := Child.running_unique hc hq
      exact ⟨_, hp, rfl⟩
  | main hact hp hm hc hx hh hk =>
      obtain ⟨hf, hw, hcd⟩ := computeMainStep_flags hm
      refine ⟨by rw [hf, hw]; exact h.window, ?_, ?_⟩
      · intro hne
        rw [hf]
        rcases hcd hne with ⟨hold, _⟩ | ⟨hm', _⟩
        · exact h.compute hold
        · -- the main thread has joined the fast thread
          have hst := hi.stages _ hp
          exact hst.fastDone (hst.joinedFast (by rw [hm']; exact Nat.le_add_left 1 3))
      · intro q hq hl
        obtain rfl := Child.running_unique hc hq
        rw [hf]
        exact h.last _ hp hl
  | ended hp hcode hl hc hx hh hk =>
      refine h.frame (by rw [hl]; exact id) (by rw [hl]) (by rw [hl]) ?_
      intro q hq
      rw [hc] at hq
      cases hq

theorem flagChain_reachable {s : Pipeline} (h : Reachable s) : FlagChain s := by
  have hboth : Sound s ∧ FlagChain s := by
    refine Transition.Reachable.invariant (I := fun s => Sound s ∧ FlagChain s) ?_ ?_ h
    · rintro _ ⟨replay, clock, rfl⟩
      exact ⟨sound_start replay clock, flagChain_start replay clock⟩
    · intro s a s' hi _ hs
      exact ⟨sound_step hi.1 hs, flagChain_step hi.2 hi.1 hs⟩
  exact hboth.2

end Pipeline

/-! ## What is remembered of an attempt -/

/-- What a run remembers of its latest compute attempt. -/
structure StageLog where
  /-- `fast_done` was clear when it was spawned. -/
  fresh : Bool
  /-- Its latest pass of `publish_windows` began after its fast thread had left the loop. -/
  late : Bool
  /-- Such a pass has been completed. -/
  full : Bool
  deriving DecidableEq, Repr

/-- Before any attempt. -/
def StageLog.empty : StageLog := { fresh := false, late := false, full := false }

/-- A step within an attempt: a pass begins, a pass ends, or neither. -/
def StageLog.next (g : StageLog) (p p' : Compute) : StageLog :=
  { g with
    late :=
      if p.window.pc.inPass = false ∧ p'.window.pc.inPass = true then p.fast.pc.left else g.late
    full := g.full || (p.window.pc.inPass && !p'.window.pc.inPass && g.late) }

theorem StageLog.next_of_window {p p' : Compute} (g : StageLog) (h : p'.window = p.window) :
    g.next p p' = g := by
  cases hin : p.window.pc.inPass <;> simp [StageLog.next, h, hin]

namespace Pipeline

/-- How a step of the system changes it. -/
def noteStages (g : StageLog) (s : Pipeline) (_ : Act) (s' : Pipeline) : StageLog :=
  match s.compute, s'.compute with
  | .running p, .running p' => g.next p p'
  | _, .running _ =>
      { fresh := decide (s.layout.control.fastDone = 0), late := false, full := false }
  | _, _ => g

theorem noteStages_running {g : StageLog} {s s' : Pipeline} {a : Act} {p p' : Compute}
    (hp : s.compute = .running p) (hp' : s'.compute = .running p') :
    noteStages g s a s' = g.next p p' := by
  simp only [noteStages, hp, hp']

theorem noteStages_of_window {g : StageLog} {s s' : Pipeline} {a : Act} {p p' : Compute}
    (hp : s.compute = .running p) (hp' : s'.compute = .running p') (hw : p'.window = p.window) :
    noteStages g s a s' = g := by
  rw [noteStages_running hp hp', StageLog.next_of_window g hw]

/-- The runs, with what they remember. -/
def ReachableStaged (x : Transition.Noted Pipeline StageLog) : Prop :=
  Transition.ReachableNoted step noteStages (fun _ _ => True) Start .empty x

end Pipeline

/-- In an attempt that started with `fast_done` clear, each flag is the own thread's, and
what a thread has passed on the strength of it has happened in this attempt. -/
structure OwnOrder (l : Layout) (p : Compute) (g : StageLog) : Prop where
  fast : l.control.fastDone ≠ 0 → p.fast.pc.isDone = true
  window : l.control.windowDone ≠ 0 → p.window.pc.isDone = true
  compute : l.control.computeDone ≠ 0 → p.main.stored = true
  late : p.window.pc.inLast = true → g.late = true
  full : p.window.pc.pastLast = true → g.full = true
  snapshot : p.snapshot.pc.pastLoop = true → g.full = true

theorem ownOrder_init {l : Layout} {g : StageLog} (hf : l.control.fastDone = 0)
    (hw : l.control.windowDone = 0) (hc : l.control.computeDone = 0) :
    OwnOrder l Compute.init g where
  fast hne := absurd hf hne
  window hne := absurd hw hne
  compute hne := absurd hc hne
  late hl := by cases hl
  full hl := by cases hl
  snapshot hl := by cases hl

namespace OwnOrder

variable {clock : UInt64} {l l' : Layout} {p : Compute} {g : StageLog}

theorem frame (h : OwnOrder l p g) (hf : l'.control.fastDone = l.control.fastDone)
    (hw : l'.control.windowDone = l.control.windowDone)
    (hc : l'.control.computeDone = l.control.computeDone) : OwnOrder l' p g where
  fast hne := h.fast (hf ▸ hne)
  window hne := h.window (hw ▸ hne)
  compute hne := h.compute (hc ▸ hne)
  late := h.late
  full := h.full
  snapshot := h.snapshot

theorem fastMove {t' : Fast} (h : OwnOrder l p g) (hm : FastMove clock l p.fast l' t') :
    OwnOrder l' { p with fast := t' } g := by
  obtain ⟨_, hf, hnd, hw, hc⟩ := hm.flags
  refine ⟨?_, hw ▸ h.window, hc ▸ h.compute, h.late, h.full, h.snapshot⟩
  intro hne
  rcases hf hne with hold | hdone
  · rw [h.fast hold] at hnd
    cases hnd
  · exact hdone

/-- The window thread enters its last pass on `fast_done`, which is the own fast thread's:
the pass that ends with it is a late one. -/
theorem windowMove {t' : Window} (h : OwnOrder l p g) (hflag : l.control.shutdown = 0)
    (hm : WindowMove clock l p.window l' t') :
    OwnOrder l' { p with window := t' } (g.next p { p with window := t' }) := by
  obtain ⟨hf, hc, _, hw, hnd⟩ := hm.flags
  obtain ⟨hin, hpast, hpass⟩ := hm.last hflag
  have hmono : g.full = true → (g.next p { p with window := t' }).full = true := by
    intro hg
    simp [StageLog.next, hg]
  refine ⟨hf ▸ h.fast, ?_, hc ▸ h.compute, ?_, ?_, fun hl => hmono (h.snapshot hl)⟩
  · intro hne
    rcases hw hne with hold | ⟨_, hdone⟩
    · rw [h.window hold] at hnd
      cases hnd
    · exact hdone
  · intro hl
    rcases hin hl with ⟨hl', _⟩ | ⟨hout, henter, hne⟩
    · have hg := h.late hl'
      have hp := hpass hl'
      simp [StageLog.next, hg, hp]
    · have hleft := FastPc.left_of_isDone (h.fast hne)
      simp [StageLog.next, hout, henter, hleft]
  · intro hl
    rcases hpast hl with hl' | ⟨hl', hout⟩
    · exact hmono (h.full hl')
    · have hg := h.late hl'
      have hp := hpass hl'
      simp [StageLog.next, hg, hp, hout]

theorem snapshotMove {t' : SnapshotThread} (h : OwnOrder l p g) (hflag : l.control.shutdown = 0)
    (hm : SnapshotMove clock l p.snapshot l' t') : OwnOrder l' { p with snapshot := t' } g := by
  obtain ⟨hf, hw, hc, hloop⟩ := hm.flags hflag
  refine ⟨hf ▸ h.fast, hw ▸ h.window, hc ▸ h.compute, h.late, h.full, ?_⟩
  intro hl
  rcases hloop hl with hl' | hne
  · exact h.snapshot hl'
  · exact h.full (WindowPc.pastLast_of_isDone (h.window hne))

theorem mainStep {pc' : ComputeMainPc} (h : OwnOrder l p g)
    (hm : computeMainStep l p = some (l', pc')) : OwnOrder l' { p with main := pc' } g := by
  obtain ⟨hf, hw, hc⟩ := computeMainStep_flags hm
  refine ⟨hf ▸ h.fast, hw ▸ h.window, ?_, h.late, h.full, h.snapshot⟩
  intro hne
  rcases hc hne with ⟨hold, hst⟩ | ⟨_, hst⟩
  · exact hst (h.compute hold)
  · exact hst

end OwnOrder

namespace Pipeline

/-- The order, for the attempt that runs if it started with `fast_done` clear. -/
def Ordered (s : Pipeline) (g : StageLog) : Prop :=
  ∀ p, s.compute = .running p → g.fresh = true → OwnOrder s.layout p g

theorem ordered_step {s s' : Pipeline} {a : Act} {g : StageLog} (h : Ordered s g) (hi : Sound s)
    (hch : FlagChain s) (hs : s.step a = some s') : Ordered s' (noteStages g s a s') := by
  intro q hq hfresh
  cases runningMove hs hq with
  | unseen hp hu =>
      rw [noteStages_of_window hp hq rfl] at hfresh ⊢
      exact (h q hp hfresh).frame hu.fastDone hu.windowDone hu.computeDone
  | spawn hact hsup hl hc =>
      have hno : ∀ p, s.compute ≠ .running p := hi.skeleton.not_running (by rw [hsup]; rfl)
      have hclear : s.layout.control.fastDone = 0 := by
        cases hcom : s.compute with
        | running p => exact absurd hcom (hno p)
        | _ => simpa [noteStages, hcom, hc] using hfresh
      rw [hl]
      exact ownOrder_init hclear (by_contra fun hne => hch.window hne hclear)
        (by_contra fun hne => hch.compute hne hclear)
  | fast hact hp hm hc =>
      rw [noteStages_of_window hp hc rfl] at hfresh ⊢
      exact (h _ hp hfresh).fastMove hm
  | window hact hp hm hc =>
      rw [noteStages_running hp hc] at hfresh ⊢
      exact (h _ hp hfresh).windowMove (hi.skeleton.no_shutdown hp) hm
  | snapshot hact hp hm hc =>
      rw [noteStages_of_window hp hc rfl] at hfresh ⊢
      exact (h _ hp hfresh).snapshotMove (hi.skeleton.no_shutdown hp) hm
  | watchdog hact hp hm hc =>
      obtain ⟨hf, hw, hcd⟩ := hm.flags
      rw [noteStages_of_window hp hc rfl] at hfresh ⊢
      have ho := h _ hp hfresh
      exact ⟨hf ▸ ho.fast, hw ▸ ho.window, hcd ▸ ho.compute, ho.late, ho.full, ho.snapshot⟩
  | main hact hp hm hc =>
      rw [noteStages_of_window hp hc rfl] at hfresh ⊢
      exact (h _ hp hfresh).mainStep hm

theorem ordered_reachable {x : Transition.Noted Pipeline StageLog} (h : ReachableStaged x) :
    Ordered x.now x.past := by
  refine Transition.ReachableNoted.invariant ?_ ?_ h
  · rintro _ ⟨replay, clock, rfl⟩ p hp
    cases hp
  · intro x a s' hr hi _ hs
    exact ordered_step hi (sound_reachable hr) (flagChain_reachable hr) hs

/--
**The order of the stages, in an attempt that starts with `fast_done` clear.**

In every run over any number of attempts and pipelines: when the snapshot thread of such an
attempt calls `snapshots.publish()`, and at every point after it, the attempt's own window
thread has completed a pass of `publish_windows` that began after the attempt's own fast
thread had left its loop; and while the attempt runs, a `compute_done` that is set was
stored by the attempt itself.
-/
theorem stage_order_of_clear {x : Transition.Noted Pipeline StageLog} (h : ReachableStaged x)
    {p : Compute} (hp : x.now.compute = .running p) (hfresh : x.past.fresh = true) :
    (p.snapshot.pc.pastLoop = true → x.past.full = true)
      ∧ (x.now.layout.control.computeDone ≠ 0 → p.main.stored = true) := by
  have ho := ordered_reachable h p hp hfresh
  exact ⟨ho.snapshot, ho.compute⟩

/-- The process, when its snapshot thread is at the exchange in `snapshots.publish()`. -/
def atExchange (s : Pipeline) : Option Compute :=
  match s.compute with
  | .running p =>
      match p.snapshot.pc with
      | .publish .exchange => some p
      | _ => none
  | _ => none

theorem running_of_atExchange {s : Pipeline} {p : Compute} (h : s.atExchange = some p) :
    s.compute = .running p ∧ p.snapshot.pc = .publish .exchange := by
  unfold atExchange at h
  split at h
  · rename_i p' hp
    split at h
    · rename_i hpc
      obtain rfl := Option.some.inj h
      exact ⟨hp, hpc⟩
    · cases h
  · cases h

/-- The publish process, when it is at its test of `compute_done`. -/
def atTestDone (s : Pipeline) : Option Publish :=
  match s.publish with
  | .running q => if q.pc = .testDone then some q else none
  | _ => none

theorem running_of_atTestDone {s : Pipeline} {q : Publish} (h : s.atTestDone = some q) :
    s.publish = .running q ∧ q.pc = .testDone := by
  unfold atTestDone at h
  split at h
  · rename_i q' hq
    by_cases hpc : q'.pc = .testDone
    · rw [if_pos hpc] at h
      obtain rfl := Option.some.inj h
      exact ⟨hq, hpc⟩
    · rw [if_neg hpc] at h
      cases h
  · cases h

/-- An attempt over an empty replay file, up to where its window thread has ended. Publish
has been through its loop once and stands at its test of `compute_done`. -/
def windowEnds : List Act :=
  List.flatten [List.replicate 6 (.sup 7), List.replicate 4 .publish,
    [.ingestMain, .source, .source, .frames], List.replicate 4 .ingestMain,
    List.replicate 2 .computeMain, List.replicate 9 .fast, List.replicate 452 .window]

theorem stage_order_of_clear_first_attempt :
    ∃ x p, ReachableStaged x ∧ x.now.compute = .running p ∧ x.past.fresh = true
      ∧ p.snapshot.pc = .publish .exchange ∧ x.past.full = true := by
  have h : (Transition.execWhen (Transition.notedStep step noteStages) (fun _ _ => true)
      ⟨start [] 1, .empty⟩ (windowEnds ++ List.replicate 323 Act.snapshot)).any
      (fun x => x.now.atExchange.isSome && x.past.fresh) = true := by
    decide +kernel
  obtain ⟨x, hrun, hx⟩ := Option.any_eq_true _ _ |>.mp h
  simp only [Bool.and_eq_true, Option.isSome_iff_exists] at hx
  obtain ⟨⟨p, hex⟩, hfresh⟩ := hx
  obtain ⟨hp, hpc⟩ := running_of_atExchange hex
  have hr : ReachableStaged x :=
    Transition.ReachableNoted.execWhen (fun _ _ _ => trivial) ⟨_, _, rfl⟩ hrun
  have hpast : p.snapshot.pc.pastLoop = true := by rw [hpc]; rfl
  exact ⟨x, p, hr, hp, hfresh, hpc, (stage_order_of_clear hr hp hfresh).1 hpast⟩

/-- From there the first attempt goes on to store every flag; then it is killed, and a second
one is started. -/
def endsLate : List Act :=
  List.flatten [List.replicate 328 .snapshot, [.watchdog], List.replicate 5 .computeMain,
    [.killCompute], List.replicate 4 (.sup 8), List.replicate 2 .computeMain]

/-- The attempt ends late: every flag is stored, then compute is killed and started again.
The new attempt's snapshot thread finds `window_done` set and goes on to publish before the
new fast and window threads have moved, and publish is about to load the first
attempt's `compute_done`. -/
theorem old_flags_pass :
    ∃ x p q, ReachableStaged x ∧ x.now.compute = .running p
      ∧ p.snapshot.pc = .publish .exchange ∧ x.past.full = false
      ∧ x.now.publish = .running q ∧ q.pc = .testDone
      ∧ x.now.layout.control.computeDone = 1 ∧ p.main.stored = false := by
  have h : (Transition.execWhen (Transition.notedStep step noteStages) (fun _ _ => true)
      ⟨start [] 1, .empty⟩ (windowEnds ++ endsLate ++ List.replicate 323 Act.snapshot)).any
      (fun x => x.now.atExchange.any (fun p => !p.main.stored) && !x.past.full
        && decide (x.now.layout.control.computeDone = 1)
        && x.now.atTestDone.isSome) = true := by
    decide +kernel
  obtain ⟨x, hrun, hx⟩ := Option.any_eq_true _ _ |>.mp h
  simp only [Bool.and_eq_true, decide_eq_true_eq, Bool.not_eq_true', Option.any_eq_true,
    Option.isSome_iff_exists] at hx
  obtain ⟨⟨⟨⟨p, hex, hst⟩, hfull⟩, hdone⟩, q, htest⟩ := hx
  obtain ⟨hp, hpc⟩ := running_of_atExchange hex
  obtain ⟨hq, hqpc⟩ := running_of_atTestDone htest
  have hr : ReachableStaged x :=
    Transition.ReachableNoted.execWhen (fun _ _ _ => trivial) ⟨_, _, rfl⟩ hrun
  exact ⟨x, p, q, hr, hp, hpc, hfull, hq, hqpc, hdone, hst⟩

end Pipeline

end RateHub
