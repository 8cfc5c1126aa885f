import RateHub.Lib.History
import RateHub.Proof.System

/-!
# Counting attempts

Two places increment `generation`: the attempt loop, between two attempts, and
`reset_control`, between two pipelines. The loop skips the increment after its last
attempt and the first pipeline skips the reset, so each attempt the supervisor ever
makes finds the counter one higher than the attempt before it, and no other step
touches the counter. The numbers come out right because every pipeline makes at least
one attempt.
-/

namespace RateHub

/-- The attempt in progress, or the one being prepared, has not been waited for. -/
def SupPc.uncounted : SupPc → Bool
  | .spawnIngest => true
  | .storeIngestPid _ => true
  | .spawnPublish => true
  | .storePublishPid _ => true
  | .spawnCompute _ => true
  | .storeComputePid _ _ => true
  | .waitCompute _ => true
  | _ => false

/-- The labels that move the supervisor. -/
def Act.bySupervisor : Act → Bool
  | .sup _ => true
  | .spawnFails => true
  | .rerun => true
  | _ => false

namespace Pipeline

/-- What a step of anybody else leaves alone. -/
structure Aside (s s' : Pipeline) : Prop where
  sup : s'.sup = s.sup
  exits : s'.exits = s.exits
  generation : s'.layout.control.generation = s.layout.control.generation
  /-- A child that has ended stays as it is. -/
  ingest : ∀ status, s.ingest.wait = some status → s'.ingest.wait = some status
  publish : ∀ status, s.publish.wait = some status → s'.publish.wait = some status

theorem aside_of_move {s s' : Pipeline} {a : Act} (ha : a.bySupervisor = false)
    (h : Move s a s') : Aside s s' := by
  cases h with
  | tick _ => exact ⟨rfl, rfl, rfl, fun _ => id, fun _ => id⟩
  | source hp hm hst =>
      obtain ⟨n, rfl⟩ := Ingest.stepSource_layout hst
      exact ⟨rfl, rfl, rfl, by simp [hp, Child.wait], fun _ => id⟩
  | frames hp hm hst =>
      obtain ⟨r, rfl⟩ := Ingest.stepFrames_layout hst
      exact ⟨rfl, rfl, rfl, by simp [hp, Child.wait], fun _ => id⟩
  | ingestMain hp hst =>
      obtain ⟨n, rfl⟩ := Ingest.stepMain_layout hst
      exact ⟨rfl, rfl, rfl, by simp [hp, Child.wait], fun _ => id⟩
  | ingestAttach hp hm => exact ⟨rfl, rfl, rfl, by simp [hp, Child.wait], fun _ => id⟩
  | ingestExit hp hm => exact ⟨rfl, rfl, rfl, by simp [hp, Child.wait], fun _ => id⟩
  | ingestRefused hp hm => exact ⟨rfl, rfl, rfl, by simp [hp, Child.wait], fun _ => id⟩
  | killIngest hp => exact ⟨rfl, rfl, rfl, by simp [hp, Child.wait], fun _ => id⟩
  | fast hp hat hst =>
      obtain ⟨hb, hc, ov, fd, r, la, rfl⟩ := fastStep_layout hst
      exact ⟨rfl, rfl, rfl, fun _ => id, fun _ => id⟩
  | window hp hat hst =>
      obtain ⟨hb, ov, wd, wi, rfl⟩ := windowStep_layout hst
      exact ⟨rfl, rfl, rfl, fun _ => id, fun _ => id⟩
  | snapshot hp hat hpc hst =>
      obtain ⟨hb, ov, sd, b, rfl⟩ := snapshotStep_layout hst
      exact ⟨rfl, rfl, rfl, fun _ => id, fun _ => id⟩
  | handOver hp hat hpc hst =>
      obtain ⟨hb, ov, sd, b, rfl⟩ := snapshotStep_layout hst
      exact ⟨rfl, rfl, rfl, fun _ => id, fun _ => id⟩
  | watchdog hp hat hst =>
      obtain ⟨f, rfl⟩ := watchdogStep_layout hst
      exact ⟨rfl, rfl, rfl, fun _ => id, fun _ => id⟩
  | computeMain hp hst =>
      obtain ⟨cd, rfl⟩ := computeMainStep_layout hst
      exact ⟨rfl, rfl, rfl, fun _ => id, fun _ => id⟩
  | computeExit hp hm => exact ⟨rfl, rfl, rfl, fun _ => id, fun _ => id⟩
  | computeCrash hp hm => exact ⟨rfl, rfl, rfl, fun _ => id, fun _ => id⟩
  | computeRefused hp hm => exact ⟨rfl, rfl, rfl, fun _ => id, fun _ => id⟩
  | killCompute hp => exact ⟨rfl, rfl, rfl, fun _ => id, fun _ => id⟩
  | publish hp hw hst =>
      obtain ⟨hb, b, rfl⟩ := Publish.step_layout hst
      exact ⟨rfl, rfl, rfl, fun _ => id, by simp [hp, Child.wait]⟩
  | publishOpen hp hc => exact ⟨rfl, rfl, rfl, fun _ => id, by simp [hp, Child.wait]⟩
  | publishWrite hp hw => exact ⟨rfl, rfl, rfl, fun _ => id, by simp [hp, Child.wait]⟩
  | publishExit hp hc => exact ⟨rfl, rfl, rfl, fun _ => id, by simp [hp, Child.wait]⟩
  | publishRefused hp hc => exact ⟨rfl, rfl, rfl, fun _ => id, by simp [hp, Child.wait]⟩
  | openFails hp hc => exact ⟨rfl, rfl, rfl, fun _ => id, by simp [hp, Child.wait]⟩
  | killPublish hp => exact ⟨rfl, rfl, rfl, fun _ => id, by simp [hp, Child.wait]⟩
  | _ => cases ha

/-! ## The statuses of one pipeline -/

/-- History: the wait statuses of the attempts of the pipeline in progress. -/
def noteStatuses (past : List UInt32) (s : Pipeline) : Act → Pipeline → List UInt32
  | .rerun, _ => []
  | _, s' => past ++ s'.exits.drop s.exits.length

/-- The runs, with the statuses of the pipeline in progress. -/
def ReachableCounting : Transition.Noted Pipeline (List UInt32) → Prop :=
  Transition.ReachableNoted step noteStatuses (fun _ _ => True) Start []

/-- The attempts of a loop that has been left: all but the last failed, and it was left on
a success or after the third. -/
structure Finished (statuses : List UInt32) (ok : Bool) : Prop where
  most : statuses.length ≤ kMaxComputeAttempts
  failed : ∀ status ∈ statuses.dropLast, status ≠ 0
  last : ok = true ↔ statuses.getLast? = some 0
  limit : ok = false → statuses.length = kMaxComputeAttempts

/-- What the supervisor knows of the attempts, and of ingest and publish, where it stands. -/
def Knows (s : Pipeline) (statuses : List UInt32) : Prop :=
  match s.sup with
  | .spawnCompute n => statuses.length + 1 = n ∧ ∀ status ∈ statuses, status ≠ 0
  | .storeComputePid n _ => statuses.length + 1 = n ∧ ∀ status ∈ statuses, status ≠ 0
  | .waitCompute n => statuses.length + 1 = n ∧ ∀ status ∈ statuses, status ≠ 0
  | .storeComputeExit n status =>
      ∃ earlier, statuses = earlier ++ [status] ∧ earlier.length + 1 = n
        ∧ ∀ status ∈ earlier, status ≠ 0
  | .addGeneration n => statuses.length = n ∧ ∀ status ∈ statuses, status ≠ 0
  | .storeShutdown ok => Finished statuses ok
  | .waitIngest ok => Finished statuses ok
  | .storeIngestExit ok ist => Finished statuses ok ∧ s.ingest.wait = some ist
  | .waitPublish ok ist => Finished statuses ok ∧ s.ingest.wait = some ist
  | .storePublishExit ok ist pst =>
      Finished statuses ok ∧ s.ingest.wait = some ist ∧ s.publish.wait = some pst
  | .returned code =>
      ∃ ok ist pst, Finished statuses ok ∧ s.ingest.wait = some ist ∧ s.publish.wait = some pst
        ∧ code = pipelineResult ok ist pst
  | _ => statuses = []

/-- The counter and the statuses. -/
structure Counting (s : Pipeline) (statuses : List UInt32) : Prop where
  generation : s.layout.control.generation
    = UInt32.ofNat (if s.sup.uncounted then s.attempt else s.exits.length)
  knows : s.Knows statuses

theorem counting_start (replay : List UInt8) (clock : UInt64) :
    Counting (start replay clock) [] :=
  ⟨rfl, rfl⟩

/-- A step of anybody but the supervisor. -/
theorem Counting.aside {s s' : Pipeline} {statuses : List UInt32} (h : Counting s statuses)
    (ha : Aside s s') : Counting s' (statuses ++ s'.exits.drop s.exits.length) := by
  have hnone : statuses ++ s'.exits.drop s.exits.length = statuses := by
    rw [ha.exits, List.drop_length, List.append_nil]
  rw [hnone]
  refine ⟨?_, ?_⟩
  · rw [ha.generation, ha.sup, attempt, ha.exits]
    exact h.generation
  · have hk := h.knows
    unfold Knows at hk ⊢
    rw [ha.sup]
    cases hsup : s.sup with
    | storeIngestExit ok ist =>
        simp only [hsup] at hk ⊢
        exact ⟨hk.1, ha.ingest _ hk.2⟩
    | waitPublish ok ist =>
        simp only [hsup] at hk ⊢
        exact ⟨hk.1, ha.ingest _ hk.2⟩
    | storePublishExit ok ist pst =>
        simp only [hsup] at hk ⊢
        exact ⟨hk.1, ha.ingest _ hk.2.1, ha.publish _ hk.2.2⟩
    | returned code =>
        simp only [hsup] at hk ⊢
        obtain ⟨ok, ist, pst, hfin, hi, hp, hcode⟩ := hk
        exact ⟨ok, ist, pst, hfin, ha.ingest _ hi, ha.publish _ hp, hcode⟩
    | _ =>
        simp only [hsup] at hk ⊢
        exact hk

theorem finished_of_success {earlier : List UInt32} {n : Nat} (hn : earlier.length + 1 = n)
    (hle : n ≤ kMaxComputeAttempts) (hfail : ∀ status ∈ earlier, status ≠ 0) :
    Finished (earlier ++ [0]) true :=
  ⟨by simp; omega, by simpa using hfail, by simp, by simp⟩

theorem finished_of_limit {earlier : List UInt32} {status : UInt32}
    (hn : earlier.length + 1 = kMaxComputeAttempts) (hfail : ∀ status ∈ earlier, status ≠ 0)
    (hst : status ≠ 0) : Finished (earlier ++ [status]) false :=
  ⟨by simp; omega, by simpa using hfail, by simp [hst], fun _ => by simp; omega⟩

/-- A store of the supervisor. -/
theorem Counting.store {s : Pipeline} {statuses : List UInt32} (h : Counting s statuses)
    (hsk : Skeleton s) {l' : Layout} {pc' : SupPc}
    (hs : supStep s.layout s.sup = some (l', pc')) :
    Counting { s with layout := l', sup := pc' } statuses := by
  have hgen := h.generation
  have hk := h.knows
  have hcounts := hsk.counts
  unfold Knows at hk
  cases hsup : s.sup with
  | storeComputeExit n status =>
      simp only [hsup, supStep, Option.some.injEq, Prod.mk.injEq] at hs hk hgen hcounts
      obtain ⟨rfl, rfl⟩ := hs
      obtain ⟨earlier, rfl, hn, hfail⟩ := hk
      unfold SupPc.afterCompute
      -- the three ways out of the loop's body
      split
      · rename_i h0
        rw [h0]
        exact ⟨hgen, finished_of_success hn hcounts.2 hfail⟩
      · rename_i hne
        split
        · rename_i hmax
          exact ⟨hgen, finished_of_limit (hn.trans hmax) hfail hne⟩
        · refine ⟨hgen, by simp; omega, ?_⟩
          intro status' hmem
          rcases List.mem_append.mp hmem with hm | hm
          · exact hfail _ hm
          · rw [List.mem_singleton.mp hm]
            exact hne
  | addGeneration n =>
      simp only [hsup, supStep, Option.some.injEq, Prod.mk.injEq] at hs hk hgen
      obtain ⟨rfl, rfl⟩ := hs
      refine ⟨?_, congrArg (· + 1) hk.1, hk.2⟩
      show s.layout.control.generation + 1 = UInt32.ofNat (s.exits.length + 1)
      rw [hgen]
      exact (UInt32.ofNat_add s.exits.length 1).symm
  | storePublishPid pid =>
      simp only [hsup, supStep, Option.some.injEq, Prod.mk.injEq] at hs hk hgen
      obtain ⟨rfl, rfl⟩ := hs
      rw [hk]
      exact ⟨hgen, rfl, by simp⟩
  | storePublishExit ok ist pst =>
      simp only [hsup, supStep, Option.some.injEq, Prod.mk.injEq] at hs hk hgen
      obtain ⟨rfl, rfl⟩ := hs
      exact ⟨hgen, ok, ist, pst, hk.1, hk.2.1, hk.2.2, rfl⟩
  | _ =>
      simp only [hsup, supStep, Option.some.injEq, Prod.mk.injEq, reduceCtorEq] at hs hk hgen
      all_goals
        obtain ⟨rfl, rfl⟩ := hs
        exact ⟨hgen, hk⟩

/-- **The counter and the statuses hold in every run.** -/
theorem counting_step {s s' : Pipeline} {a : Act} {statuses : List UInt32}
    (h : Counting s statuses) (hsk : Skeleton s) (hs : s.step a = some s') :
    Counting s' (noteStatuses statuses s a s') := by
  have hmove := move_of_step hs
  cases ha : a.bySupervisor with
  | false =>
      have hnote : noteStatuses statuses s a s' = statuses ++ s'.exits.drop s.exits.length := by
        cases a with
        | rerun => cases ha
        | _ => rfl
      rw [hnote]
      exact h.aside (aside_of_move ha hmove)
  | true =>
      have hgen := h.generation
      have hk := h.knows
      unfold Knows at hk
      cases hmove with
      | reapCompute hsup hw =>
          simp only [hsup] at hk hgen
          refine ⟨?_, ?_⟩
          · show s.layout.control.generation = UInt32.ofNat (s.exits ++ [_]).length
            rw [List.length_append]
            exact hgen
          · exact ⟨statuses, by simp [noteStatuses], hk.1, hk.2⟩
      | reapIngest hsup hw =>
          simp only [hsup] at hk hgen
          exact ⟨hgen, by simpa [Knows, noteStatuses] using ⟨hk, hw⟩⟩
      | reapPublish hsup hw =>
          simp only [hsup] at hk hgen
          exact ⟨hgen, by simpa [Knows, noteStatuses] using ⟨hk.1, hk.2, hw⟩⟩
      | store hst =>
          simp only [noteStatuses, List.drop_length, List.append_nil]
          exact h.store hsk hst
      | rerun hsup =>
          -- the reset prepares the next attempt
          simp only [hsup] at hgen
          refine ⟨?_, rfl⟩
          show s.layout.control.generation + 1 = UInt32.ofNat (s.exits.length + 1)
          rw [hgen]
          exact (UInt32.ofNat_add s.exits.length 1).symm
      | spawnCompute hsup =>
          simp only [hsup] at hk hgen
          exact ⟨hgen, by simpa [Knows, noteStatuses] using hk⟩
      | noCompute hsup =>
          simp only [hsup] at hk hgen
          exact ⟨hgen, by simpa [Knows, noteStatuses] using hk⟩
      | spawnIngest hsup =>
          simp only [hsup] at hk hgen
          exact ⟨hgen, by simpa [Knows, noteStatuses] using hk⟩
      | noIngest hsup =>
          simp only [hsup] at hk hgen
          exact ⟨hgen, by simpa [Knows, noteStatuses] using hk⟩
      | spawnPublish hsup =>
          simp only [hsup] at hk hgen
          exact ⟨hgen, by simpa [Knows, noteStatuses] using hk⟩
      | noPublish hsup =>
          simp only [hsup] at hk hgen
          exact ⟨hgen, by simpa [Knows, noteStatuses] using hk⟩
      | _ => cases ha

theorem counting_reachable {x : Transition.Noted Pipeline (List UInt32)}
    (h : ReachableCounting x) : Counting x.now x.past := by
  refine Transition.ReachableNoted.invariant ?_ ?_ h
  · rintro _ ⟨replay, clock, rfl⟩
    exact counting_start replay clock
  · intro x a s' hr hi _ hs
    exact counting_step hi (sound_reachable hr).skeleton hs

/-- A compute attempt is being started, runs, or is being waited for. -/
def attempting (s : Pipeline) : Bool :=
  match s.sup with
  | .spawnCompute _ => true
  | .storeComputePid _ _ => true
  | .waitCompute _ => true
  | _ => false

theorem attempting_of_running {s : Pipeline} (h : Skeleton s) {p : Compute}
    (hp : s.compute = .running p) : s.attempting = true := by
  have ha := h.running p hp
  unfold attempting
  cases hsup : s.sup <;> simp [hsup, SupPc.awaiting] at ha ⊢

/-- A loop that has been left after at least one attempt. -/
theorem Finished.returns {statuses : List UInt32} {ok : Bool} (h : Finished statuses ok)
    (ist pst : UInt32) :
    pipelineResult ok ist pst = 0 ↔ statuses.getLast? = some 0 ∧ ist = 0 ∧ pst = 0 := by
  rw [← h.last]
  unfold pipelineResult
  cases ok <;> by_cases hi : ist = 0 <;> by_cases hp : pst = 0 <;> simp [hi, hp]

/-- At most three attempts, all but the last of which failed. -/
def Bounded (statuses : List UInt32) : Prop :=
  statuses.length ≤ kMaxComputeAttempts ∧ ∀ status ∈ statuses.dropLast, status ≠ 0

theorem bounded_of_failed {statuses : List UInt32} (hlen : statuses.length ≤ kMaxComputeAttempts)
    (hfail : ∀ status ∈ statuses, status ≠ 0) : Bounded statuses :=
  ⟨hlen, fun status hmem => hfail status (List.dropLast_subset _ hmem)⟩

theorem Finished.bounded {statuses : List UInt32} {ok : Bool} (h : Finished statuses ok) :
    Bounded statuses := ⟨h.most, h.failed⟩

theorem Counting.bounded {s : Pipeline} {statuses : List UInt32} (h : Counting s statuses)
    (hsk : Skeleton s) : Bounded statuses := by
  have hk := h.knows
  have hcounts := hsk.counts
  unfold Knows at hk
  cases hsup : s.sup <;> simp only [hsup] at hk hcounts
  case spawnCompute => exact bounded_of_failed (by have := hcounts.2; omega) hk.2
  case storeComputePid => exact bounded_of_failed (by have := hcounts.2; omega) hk.2
  case waitCompute => exact bounded_of_failed (by have := hcounts.2; omega) hk.2
  case storeComputeExit =>
      obtain ⟨earlier, rfl, hn, hne⟩ := hk
      have := hcounts.2
      exact ⟨by simp; omega, by simpa using hne⟩
  case addGeneration => exact bounded_of_failed (by have := hcounts.2; omega) hk.2
  case storeShutdown => exact hk.bounded
  case waitIngest => exact hk.bounded
  case storeIngestExit => exact hk.1.bounded
  case waitPublish => exact hk.1.bounded
  case storePublishExit => exact hk.1.bounded
  case returned =>
      obtain ⟨ok, ist, pst, hfin, _⟩ := hk
      exact hfin.bounded
  -- before the first attempt
  all_goals
    rw [hk]
    exact bounded_of_failed (Nat.zero_le _) (by simp)

/-- An attempt is made only after fewer than three, none of which succeeded. -/
theorem Counting.attempting {s : Pipeline} {statuses : List UInt32} (h : Counting s statuses)
    (hsk : Skeleton s) (ha : s.attempting = true) :
    s.layout.control.generation = UInt32.ofNat s.attempt
      ∧ statuses.length < kMaxComputeAttempts ∧ ∀ status ∈ statuses, status ≠ 0 := by
  have hgen := h.generation
  have hk := h.knows
  have hcounts := hsk.counts
  unfold Knows at hk
  unfold Pipeline.attempting at ha
  cases hsup : s.sup <;> simp only [hsup, reduceCtorEq] at ha
  all_goals
    simp only [hsup] at hgen hk hcounts
    have hle := hcounts.2
    have hlt : statuses.length < kMaxComputeAttempts := by omega
    exact ⟨hgen, hlt, hk.2⟩

/--
**Attempts are numbered by their generation.**

In every run over any number of pipelines, with any statuses and with spawns failing, and
as long as fewer than `2^32 - 1` attempts have been made: the `n`-th attempt ever made
has `generation = n` from its spawn to the end of the wait for it; a pipeline goes on to
another attempt only after fewer than three, none of which returned 0, and it is left
with at most three, all but the last of which failed; and it returns 0 exactly when its
last attempt, ingest and publish all returned 0.
-/
theorem generation_numbering {x : Transition.Noted Pipeline (List UInt32)}
    (h : ReachableCounting x) (hfew : x.now.exits.length < 2 ^ 32 - 1) :
    (∀ p, x.now.compute = .running p → x.now.attempting = true)
      ∧ (x.now.attempting = true →
          x.now.layout.control.generation.toNat = x.now.exits.length + 1
            ∧ x.past.length < kMaxComputeAttempts ∧ ∀ status ∈ x.past, status ≠ 0)
      ∧ x.past.length ≤ kMaxComputeAttempts ∧ (∀ status ∈ x.past.dropLast, status ≠ 0)
      ∧ (∀ code, x.now.sup = .returned code →
          (x.past.getLast? = some 0 ∨ x.past.length = kMaxComputeAttempts)
            ∧ (code = 0 ↔ x.past.getLast? = some 0 ∧ x.now.ingest.wait = some 0
                ∧ x.now.publish.wait = some 0)) := by
  have hc := counting_reachable h
  have hsk := (sound_reachable (Transition.ReachableNoted.now h)).skeleton
  have hbound := hc.bounded hsk
  refine ⟨fun p hp => attempting_of_running hsk hp, ?_, hbound.1, hbound.2, ?_⟩
  · intro ha
    obtain ⟨hgen, hlt, hfail⟩ := hc.attempting hsk ha
    refine ⟨?_, hlt, hfail⟩
    rw [hgen, UInt32.toNat_ofNat', attempt, Nat.mod_eq_of_lt (by omega)]
  · intro code hsup
    have hk := hc.knows
    simp only [Knows, hsup] at hk
    obtain ⟨ok, ist, pst, hfin, hi, hp, rfl⟩ := hk
    refine ⟨?_, ?_⟩
    · cases ok with
      | true => exact Or.inl (hfin.last.mp rfl)
      | false => exact Or.inr (hfin.limit rfl)
    · rw [hfin.returns, hi, hp]
      simp

/-- Nothing can be spawned: one attempt of the loop. -/
def failedAttempt : List Act := [.spawnFails, .sup 0, .sup 0, .sup 0, .sup 0]

/-- A pipeline in which nothing can be spawned, then another one in which compute can: its
attempt is the fourth. -/
def secondPipeline : List Act :=
  [Act.spawnFails, .sup 0, .spawnFails, .sup 0] ++ failedAttempt ++ failedAttempt ++ failedAttempt
    ++ [Act.sup 0, .sup 0, .sup 0, .sup 0, .rerun, .spawnFails, .sup 0, .spawnFails, .sup 0, .sup 7]

theorem generation_numbering_fourth :
    ∃ x, ReachableCounting x ∧ x.now.exits = [1, 1, 1] ∧ x.now.attempting = true
      ∧ x.now.layout.control.generation.toNat = 4 ∧ x.past.length < kMaxComputeAttempts := by
  have h : (Transition.execWhen (Transition.notedStep step noteStatuses) (fun _ _ => true)
      ⟨start [] 1, []⟩ secondPipeline).any
      (fun x => decide (x.now.exits = [1, 1, 1]) && x.now.attempting) = true := by
    decide +kernel
  obtain ⟨x, hrun, hx⟩ := Option.any_eq_true _ _ |>.mp h
  simp only [Bool.and_eq_true, decide_eq_true_eq] at hx
  have hr : ReachableCounting x :=
    Transition.ReachableNoted.execWhen (fun _ _ _ => trivial) ⟨_, _, rfl⟩ hrun
  obtain ⟨hgen, hlt, _⟩ := (generation_numbering hr (by rw [hx.1]; decide)).2.1 hx.2
  exact ⟨x, hr, hx.1, hx.2, by rw [hgen, hx.1]; rfl, hlt⟩

end Pipeline

end RateHub
