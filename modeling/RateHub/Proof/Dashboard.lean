import RateHub.Http.Text
import RateHub.Proof.LiveRows
import RateHub.Proof.Output

/-!
# From the replay file to the dashboard

A compute attempt that ends with 0 leaves in the window slots the rows of the records it
popped, every slot between two publishes, and nobody writes to them afterwards. So a call of
`collect_telemetry` that begins then finds what is there, whoever else moves: its points are
those of the sources that have a row, the first `kMaxPoints` of them in the order of their
numbers.

With ingest's flag kept out of the gap the records popped are all of the file's, and every
sample shows the account of the whole replay file.
-/

namespace RateHub

open Seqlock Http

/-! ## The points of some rows -/

/-- The points a sample has of the sources in `ids`, for given rows. -/
def listed (rows : Fin kMaxSources → WindowState) (ids : List (Fin kMaxSources)) :
    List SourcePoint :=
  ((ids.filter fun id => decide ((rows id).publishes ≠ 0)).take kMaxPoints).map
    fun id => pointOf id (rows id)

variable {rows : Fin kMaxSources → WindowState} {ids : List (Fin kMaxSources)}
  {id : Fin kMaxSources}

/-- A source without a row adds no point. -/
theorem listed_skip (h : (rows id).publishes = 0) : listed rows (ids ++ [id]) = listed rows ids := by
  simp [listed, List.filter_append, h]

/-- A source with a row adds its point, as long as there is room. -/
theorem listed_point (h : (rows id).publishes ≠ 0) (hroom : (listed rows ids).length < kMaxPoints) :
    listed rows (ids ++ [id]) = listed rows ids ++ [pointOf id (rows id)] := by
  unfold listed at hroom ⊢
  rw [List.length_map, List.length_take] at hroom
  have hshort : (ids.filter fun id => decide ((rows id).publishes ≠ 0)).length < kMaxPoints := by
    omega
  have hone : [id].filter (fun id => decide ((rows id).publishes ≠ 0)) = [id] := by simp [h]
  rw [List.filter_append, hone, List.take_of_length_le (Nat.le_of_lt hshort),
    List.take_of_length_le (by rw [List.length_append]; exact hshort), List.map_append]
  rfl

/-- Where there is no room left, no source adds a point. -/
theorem listed_full (hfull : kMaxPoints ≤ (listed rows ids).length)
    (more : List (Fin kMaxSources)) : listed rows (ids ++ more) = listed rows ids := by
  unfold listed at hfull ⊢
  rw [List.length_map, List.length_take] at hfull
  rw [List.filter_append, List.take_append_of_le_length (by omega)]

/-- The points of a sample with one more. -/
theorem points_addPoint (snap : TelemetrySnapshot) (id : Fin kMaxSources) (row : WindowState)
    (h : snap.sourceCount < kMaxPoints) :
    points (snap.addPoint id row) = points snap ++ [pointOf id row] := by
  have hlast : (List.finRange kMaxPoints)[snap.sourceCount]? = some ⟨snap.sourceCount, h⟩ := by
    rw [List.getElem?_eq_getElem (by simpa using h), List.getElem_finRange]
    rfl
  unfold points
  show ((List.finRange kMaxPoints).take (snap.sourceCount + 1)).map _ = _
  rw [List.take_add_one, hlast, List.map_append]
  congr 1
  · refine List.map_congr_left fun i hi => ?_
    obtain ⟨j, hj, rfl⟩ := List.mem_take_iff_getElem.mp hi
    have hne : ((List.finRange kMaxPoints)[j]).val ≠ snap.sourceCount := by
      rw [List.getElem_finRange]
      exact Nat.ne_of_lt (Nat.lt_of_lt_of_le hj (Nat.min_le_left _ _))
    exact if_neg hne
  · exact congrArg (fun point => [point]) (if_pos rfl)

/-! ## A call that finds the rows at rest -/

/-- The window slots are between two publishes and hold the rows. -/
def Layout.Holds (l : Layout) (rows : Fin kMaxSources → WindowState) : Prop :=
  ∀ id, LockInv (l.window id) .idle ∧ (l.window id).current = rows id

/-- The sources before `id`. -/
def before (id : Fin kMaxSources) : List (Fin kMaxSources) :=
  (List.finRange kMaxSources).take id.val

theorem take_succ_eq (id : Fin kMaxSources) :
    (List.finRange kMaxSources).take (id.val + 1) = before id ++ [id] := by
  unfold before
  rw [List.take_add_one, List.getElem?_eq_getElem (by simp), List.getElem_finRange]
  rfl

/-- How far a call has come that began on the rows. -/
def Listing (rows : Fin kMaxSources → WindowState) (l : Layout) (o : Observer) : Prop :=
  match o.pc with
  | .idle => True
  | .word _ => o.snap.sourceCount = 0
  | .row id _ call =>
      points o.snap = listed rows (before id)
        ∧ o.snap.sourceCount = (listed rows (before id)).length
        ∧ LoadOk (l.window id) .idle (l.window id).versions.length call ∧ call.live

/-- What a step of a call leaves: the samples it returned, which show the rows, and itself. -/
def Lists (rows : Fin kMaxSources → WindowState) (l : Layout) (o o' : Observer) : Prop :=
  Listing rows l o' ∧ ∃ more, o'.collected = o.collected ++ more
    ∧ ∀ snap ∈ more, points snap = listed rows (List.finRange kMaxSources)

theorem lists_goes {l : Layout} {o o' : Observer} (h : Listing rows l o')
    (hc : o'.collected = o.collected) : Lists rows l o o' :=
  ⟨h, [], by rw [hc, List.append_nil], by simp⟩

theorem lists_finish {l : Layout} {o : Observer} (snap : TelemetrySnapshot)
    (h : points snap = listed rows (List.finRange kMaxSources)) :
    Lists rows l o { o with snap := snap }.finish :=
  ⟨trivial, [snap], rfl, by simpa using h⟩

/-- `++id` after the source's row has been dealt with. -/
theorem lists_next {l : Layout} {o : Observer} (snap : TelemetrySnapshot)
    (hp : points snap = listed rows (before id ++ [id]))
    (hn : snap.sourceCount = (listed rows (before id ++ [id])).length) :
    Lists rows l o ({ o with snap := snap }.next id) := by
  rw [← take_succ_eq] at hp hn
  unfold Observer.next
  split
  · exact lists_goes ⟨hp, hn, trivial, Nat.zero_lt_succ _⟩ rfl
  · rename_i hend
    refine lists_finish snap ?_
    rw [hp, List.take_of_length_le]
    rw [List.length_finRange]
    omega

/-- The loads before the loop leave the points alone. -/
theorem lists_word {l : Layout} {o : Observer} {k : Nat} (hpc : o.pc = .word k)
    (h : Listing rows l o) {o' : Observer} (hs : o.step l = some o') : Lists rows l o o' := by
  have hzero : o.snap.sourceCount = 0 := by
    unfold Listing at h
    rw [hpc] at h
    exact h
  simp only [Observer.step, hpc] at hs
  split at hs
  · rename_i load hload
    obtain ⟨_, hcount, hcollected⟩ := collectWords_points (List.mem_of_getElem? hload) l o
    split at hs <;> obtain rfl := Option.some.inj hs
    · exact lists_goes (hcount.trans hzero) hcollected
    · refine lists_goes ⟨?_, ?_, trivial, Nat.zero_lt_succ _⟩ hcollected
      · simp [points, TelemetrySnapshot.settleIdle, hcount, hzero, before, listed, sourceIndex]
      · simp [TelemetrySnapshot.settleIdle, hcount, hzero, before, listed, sourceIndex]
  · cases hs

/-- **One load of a call that began on the rows.** -/
theorem lists_step {l : Layout} {o o' : Observer} (hrows : l.Holds rows) (h : Listing rows l o)
    (hs : o.step l = some o') : Lists rows l o o' := by
  cases hpc : o.pc with
  | idle => simp [Observer.step, hpc] at hs
  | word k => exact lists_word hpc h hs
  | row id row call =>
      unfold Listing at h
      simp only [hpc] at h
      obtain ⟨hp, hn, hload, hlive⟩ := h
      have hcall : call ≠ .idle := by
        rintro rfl
        exact hlive
      have hquiet := hload.undisturbed row (hrows id).1 rfl hcall
      rw [(hrows id).2] at hquiet
      simp only [Observer.step, hpc] at hs
      split at hs
      · rename_i row' call' hr
        rw [hr] at hquiet
        obtain rfl := Option.some.inj hs
        rcases hquiet with ⟨_, hnext⟩ | ⟨hret, _⟩
        · exact lists_goes ⟨hp, hn, hnext, (loadStep_left hlive hr).1⟩ rfl
        · cases hret
      · rename_i row' call' ok hr
        rw [hr] at hquiet
        rcases hquiet with ⟨hret, _⟩ | ⟨hok, hrow⟩
        · cases hret
        · obtain rfl : ok = true := Option.some.inj hok
          obtain rfl : row' = rows id := hrow
          split at hs
          · rename_i hno
            have hzero : (rows id).publishes = 0 := by simpa using hno
            obtain rfl := Option.some.inj hs
            exact lists_next o.snap (by rw [listed_skip hzero]; exact hp)
              (by rw [listed_skip hzero]; exact hn)
          · rename_i hyes
            have hne : (rows id).publishes ≠ 0 := by simpa using hyes
            split at hs <;> rename_i hroom <;> obtain rfl := Option.some.inj hs
            · refine lists_finish o.snap ?_
              rw [hn] at hroom
              rw [hp, ← List.take_append_drop id.val (List.finRange kMaxSources)]
              exact (listed_full hroom _).symm
            · have hlt : o.snap.sourceCount < kMaxPoints := Nat.lt_of_not_le hroom
              have hadd := listed_point hne (hn ▸ hlt)
              refine lists_next (o.snap.addPoint id (rows id)) ?_ ?_
              · rw [points_addPoint _ _ _ hlt, hadd, hp]
              · rw [hadd, List.length_append, ← hn]
                rfl

namespace Pipeline

/-! ## What a successful attempt leaves -/

/-- A step that leaves what compute has left alone. -/
theorem holds_congr {s s' : Pipeline} (h : s.layout.Holds rows)
    (hw : s'.layout.window = s.layout.window) : s'.layout.Holds rows := by
  intro id
  rw [hw]
  exact h id

/-- Nothing comes after a success: the slots and the ring's history stay. -/
theorem ended_step {s s' : Pipeline} {a : Act} (hend : s.compute = .ended (.exited 0))
    (hb : Between s) (hok : s.orderly a = true) (hs : s.step a = some s') :
    s'.compute = .ended (.exited 0) ∧ s'.layout.window = s.layout.window
      ∧ s'.layout.ring.popped = s.layout.ring.popped ∧ s'.replay = s.replay := by
  have hno : ∀ {p : Compute}, s.compute = .running p → False := by
    intro p hp
    rw [hend] at hp
    cases hp
  have hsp : ∀ n, s.sup ≠ .spawnCompute n := by
    intro n hsup
    unfold Between at hb
    rw [hsup] at hb
    rcases hb with hun | ⟨status, hne, hwait, _⟩
    · rw [hend] at hun
      cases hun
    · rw [hend] at hwait
      exact hne (Option.some.inj hwait).symm
  cases move_of_step hs with
  | rerun hsup => simp [orderly] at hok
  | spawnCompute hsup => exact absurd hsup (hsp _)
  | noCompute hsup => exact absurd hsup (hsp _)
  | fast hp ha hst => exact (hno hp).elim
  | window hp ha hst => exact (hno hp).elim
  | snapshot hp ha hpc hst => exact (hno hp).elim
  | handOver hp ha hpc hst => exact (hno hp).elim
  | watchdog hp ha hst => exact (hno hp).elim
  | computeMain hp hst => exact (hno hp).elim
  | computeExit hp hm => exact (hno hp).elim
  | computeCrash hp hm => exact (hno hp).elim
  | computeRefused hp hm => exact (hno hp).elim
  | killCompute hp => exact (hno hp).elim
  | store hst =>
      obtain ⟨sh, g, sv, rfl⟩ := (supStep_stored hst).layout
      exact ⟨hend, rfl, rfl, rfl⟩
  | source hp hm hst =>
      obtain ⟨n, rfl⟩ := Ingest.stepSource_layout hst
      exact ⟨hend, rfl, rfl, rfl⟩
  | frames hp hm hst =>
      have hpop := Ingest.stepFrames_popped hst
      obtain ⟨r, rfl⟩ := Ingest.stepFrames_layout hst
      exact ⟨hend, rfl, hpop, rfl⟩
  | ingestMain hp hst =>
      obtain ⟨n, rfl⟩ := Ingest.stepMain_layout hst
      exact ⟨hend, rfl, rfl, rfl⟩
  | publish hp hw hst =>
      obtain ⟨hb, b, rfl⟩ := Publish.step_layout hst
      exact ⟨hend, rfl, rfl, rfl⟩
  | _ => exact ⟨hend, rfl, rfl, rfl⟩

/-- An attempt whose main thread is about to leave has filled the window slots. -/
theorem holds_of_exit {s : Pipeline} (hset : ReachableSettled s) (hone : OneWorker s)
    {p : Compute} {code : UInt32} (hp : s.compute = .running p) (hm : p.main = .exit code) :
    s.layout.Holds (replayed s.layout.ring.popped).window := by
  have hst := (sound_reachable hset).stages p hp
  have hhanded := SnapshotPc.handed_of_isDone
    (hst.joinedSnapshot (by rw [hm]; exact Nat.le_add_left 3 1))
  have hwork := hone.works hp (by simp [Compute.begun, hm])
  have hsnap := hwork.worked hset hp hhanded
  have hall := (SnapshotPc.filled_of_handed hhanded).2
  have hlast := lastPass_reachable hset hp
  have hwin := hlast.windowDone (SnapshotPc.pastLoop_of_taken (hall ⟨0, by decide⟩))
  intro id
  refine ⟨?_, ?_⟩
  · have hlock := ((slotsOk_reachable hset).running p hp).window id
    rw [WindowPc.call_of_isDone hwin] at hlock
    exact hlock
  · rw [← hlast.collecting.rows id (hall id), hsnap]
    rfl

/-- **What a successful attempt has left in the window slots.** -/
theorem holds_of_ended {s : Pipeline} (h : ReachableOrderly s) (hx : 3 ∉ s.exits)
    (hend : s.compute = .ended (.exited 0)) :
    s.layout.Holds (replayed s.layout.ring.popped).window := by
  induction h with
  | init hstart =>
      obtain ⟨replay, clock, rfl⟩ := hstart
      cases hend
  | @tail s s' a hr hok hs ih =>
      have hx' : 3 ∉ s.exits := fun hmem => hx (exits_subset hs hmem)
      obtain ⟨hset, hone⟩ := oneWorker_reachable hr hx'
      by_cases hend' : s.compute = .ended (.exited 0)
      · obtain ⟨_, hw, hpop, _⟩ :=
          ended_step hend' (between_reachable hset.reachable) hok hs
        rw [hpop]
        exact holds_congr (ih hx' hend') hw
      · cases move_of_step hs with
        | computeExit hp hm =>
            have hfilled := holds_of_exit hset hone hp hm
            exact hfilled
        | rerun hsup => cases hend
        | spawnCompute hsup => cases hend
        | noCompute hsup => cases hend
        | fast hp ha hst => cases hend
        | window hp ha hst => cases hend
        | snapshot hp ha hpc hst => cases hend
        | handOver hp ha hpc hst => cases hend
        | watchdog hp ha hst => cases hend
        | computeMain hp hst => cases hend
        | computeCrash hp hm => cases hend
        | computeRefused hp hm => cases hend
        | killCompute hp => cases hend
        | _ => exact absurd hend hend'

/-- The step is orderly and keeps ingest's flag out of the gap. -/
def gapless (s : Pipeline) (a : Act) : Bool := s.orderly a && s.keepsOut a

theorem gapless_parts {s : Pipeline} {a : Act} (h : s.gapless a = true) :
    s.orderly a = true ∧ s.keepsOut a = true := by
  simpa only [gapless, Bool.and_eq_true] using h

/-- The states of the runs that lose no record. -/
def ReachableGapless : Pipeline → Prop :=
  Transition.Reachable step (fun s a => s.gapless a = true) Start

end Pipeline

namespace Observed

variable {R : Type} [DecidableEq R]

/-- The pipeline's step loses no record; the observers do what they like. -/
def gapless (x : Observed R) : ObservedAct R → Bool
  | .system a => x.system.gapless a
  | _ => true

/-- The states of the runs that lose no record. -/
def ReachableGapless : Observed R → Prop :=
  Transition.Reachable step (fun x a => x.gapless a = true) Start

/-- `y` is reached from `x` without losing a record. -/
def From (x y : Observed R) : Prop :=
  Transition.Reachable step (fun z a => z.gapless a = true) (· = x) y

theorem ReachableGapless.pipeline {x : Observed R} (h : ReachableGapless x) :
    Pipeline.ReachableGapless x.system := by
  induction h with
  | init hstart => exact .init hstart.1
  | @tail x x' a _ hok hs ih =>
      cases a with
      | system a =>
          simp only [step, Option.map_eq_some_iff] at hs
          obtain ⟨s, hst, rfl⟩ := hs
          exact ih.tail hok hst
      | collect r =>
          simp only [step] at hs
          split at hs
          · obtain rfl := Option.some.inj hs
            exact ih
          · cases hs
      | observe r =>
          simp only [step, Option.map_eq_some_iff] at hs
          obtain ⟨o, _, rfl⟩ := hs
          exact ih

/-- What stays from a success on, seen by one observer that was outside any call. -/
structure Settled (rows : Fin kMaxSources → WindowState) (r : R) (x y : Observed R) : Prop where
  ended : y.system.compute = .ended (.exited 0)
  holds : y.system.layout.Holds rows
  listing : Listing rows y.system.layout (y.observers r)
  samples : ∃ more, (y.observers r).collected = (x.observers r).collected ++ more
    ∧ ∀ snap ∈ more, points snap = listed rows (List.finRange kMaxSources)

variable {r : R} {x y y' : Observed R}

omit [DecidableEq R] in
theorem Settled.start (hend : x.system.compute = .ended (.exited 0))
    (hrows : x.system.layout.Holds rows) (hr : (x.observers r).pc = .idle) :
    Settled rows r x x where
  ended := hend
  holds := hrows
  listing := by
    unfold Listing
    rw [hr]
    trivial
  samples := ⟨[], by rw [List.append_nil], by simp⟩

/-- The observer's sample goes on on the same slots. -/
theorem listing_congr {l l' : Layout} {o : Observer} (h : Listing rows l o)
    (hw : l'.window = l.window) : Listing rows l' o := by
  unfold Listing at h ⊢
  rw [hw]
  exact h

/-- **Whoever moves, a call that began after the success goes on showing the rows.** -/
theorem Settled.step {a : ObservedAct R} (h : Settled rows r x y) (hb : Pipeline.Between y.system)
    (hok : y.gapless a = true) (hs : y.step a = some y') : Settled rows r x y' := by
  cases a with
  | system a =>
      simp only [Observed.step, Option.map_eq_some_iff] at hs
      obtain ⟨s, hst, rfl⟩ := hs
      obtain ⟨hend, hw, _, _⟩ :=
        Pipeline.ended_step h.ended hb (Pipeline.gapless_parts hok).1 hst
      exact ⟨hend, Pipeline.holds_congr h.holds hw, listing_congr h.listing hw, h.samples⟩
  | collect r' =>
      simp only [Observed.step] at hs
      split at hs
      · obtain rfl := Option.some.inj hs
        by_cases hr : r = r'
        · subst hr
          refine ⟨h.ended, h.holds, ?_, ?_⟩
          · simp only [Function.update_self]
            exact rfl
          · simp only [Function.update_self]
            exact h.samples
        · refine ⟨h.ended, h.holds, ?_, ?_⟩
          · simp only [Function.update_of_ne hr]
            exact h.listing
          · simp only [Function.update_of_ne hr]
            exact h.samples
      · cases hs
  | observe r' =>
      simp only [Observed.step, Option.map_eq_some_iff] at hs
      obtain ⟨o, hst, rfl⟩ := hs
      by_cases hr : r = r'
      · subst hr
        obtain ⟨hlisting, new, hnew, hshow⟩ := lists_step h.holds h.listing hst
        obtain ⟨more, hmore, hall⟩ := h.samples
        refine ⟨h.ended, h.holds, ?_, ?_⟩
        · simp only [Function.update_self]
          exact hlisting
        · simp only [Function.update_self]
          refine ⟨more ++ new, by rw [hnew, hmore, List.append_assoc], ?_⟩
          intro snap hsnap
          rcases List.mem_append.mp hsnap with hold | hlast
          · exact hall snap hold
          · exact hshow snap hlast
      · refine ⟨h.ended, h.holds, ?_, ?_⟩
        · simp only [Function.update_of_ne hr]
          exact h.listing
        · simp only [Function.update_of_ne hr]
          exact h.samples

theorem settled_from (hx : ReachableGapless x) (hstart : Settled rows r x x) (hy : From x y) :
    ReachableGapless y ∧ Settled rows r x y := by
  induction hy with
  | init heq =>
      obtain rfl := heq
      exact ⟨hx, hstart⟩
  | tail _ hok hs ih =>
      obtain ⟨hr, hset⟩ := ih
      have hpipe := hr.pipeline.mono fun _ _ _ => trivial
      exact ⟨hr.tail hok hs, hset.step (Pipeline.between_reachable hpipe) hok hs⟩

/-- After a success in a run that lost nothing the slots hold the account of the replay file, and
go on to. -/
theorem settled_of_replay (hx : ReachableGapless x) (hfault : 3 ∉ x.system.exits)
    (hend : x.system.compute = .ended (.exited 0)) (hr : (x.observers r).pc = .idle)
    (hy : From x y) :
    ReachableGapless y ∧ Settled (replayed (replayRecords x.system.replay)).window r x y := by
  have hp := hx.pipeline
  have horderly : Pipeline.ReachableOrderly x.system :=
    hp.mono fun _ _ ha => (Pipeline.gapless_parts ha).1
  have hrows := Pipeline.holds_of_ended horderly hfault hend
  rw [Pipeline.consumed_reachable (fun _ _ ha => Pipeline.gapless_parts ha) hp hend] at hrows
  exact settled_from hx (Settled.start hend hrows hr) hy

/--
**After a success the dashboard shows the whole replay file.**

For every replay file and every interleaving of one pipeline with any number of observers,
with spawns failing and children refused, crashed on request or killed at any point, in which
nobody kills compute, no attempt has ended with a fault and ingest does not store its flag
while the fast thread is in the gap over a ring that holds records: once a compute attempt has
ended with 0, every call of `collect_telemetry` that begins returns the points of the first
`kMaxPoints`, in the order of their ids, of the sources with accepted records in the replay file
whose number is not a multiple of 2^32, each with what passing every good record of the file
through `integrate` makes of it.
-/
theorem dashboard_of_replay (hx : ReachableGapless x) (hfault : 3 ∉ x.system.exits)
    (hend : x.system.compute = .ended (.exited 0)) (hr : (x.observers r).pc = .idle)
    (hy : From x y) :
    ∃ more, (y.observers r).collected = (x.observers r).collected ++ more
      ∧ ∀ snap ∈ more, points snap
          = listed (replayed (replayRecords x.system.replay)).window (List.finRange kMaxSources) :=
  (settled_of_replay hx hfault hend hr hy).2.samples

/-- While only the pipeline moves the observers stay as they are. -/
theorem observers_of_system : ∀ (as : List Act) {x y : Observed R},
    Transition.execWhen step gapless x (as.map .system) = some y → y.observers = x.observers
  | [], x, y, h => by
      obtain rfl := Option.some.inj h
      rfl
  | a :: as, x, y, h => by
      simp only [List.map_cons, Transition.execWhen] at h
      split at h
      · simp only [Option.bind_eq_some_iff, step, Option.map_eq_some_iff] at h
        obtain ⟨_, ⟨s, _, rfl⟩, hrest⟩ := h
        rw [observers_of_system as hrest]
      · cases h

/-- The run `inTurn` up to the end of compute. -/
def untilComputed : List (ObservedAct Unit) := (Pipeline.inTurn.take 872).map .system

/-- One call of the observer. -/
def oneCall : List (ObservedAct Unit) := .collect () :: List.replicate 282 (.observe ())

theorem dashboard_of_replay_two_records :
    ∃ x y : Observed Unit, ReachableGapless x ∧ From x y ∧ x.system.replay = IngestRun.copies 2
      ∧ (y.observers ()).collected.map points
          = [[{ id := 1, x := 1020, y := 0, publishes := 2, sequence := 1 }]] := by
  have h : (Transition.execWhen (step (R := Unit)) gapless
      ⟨Pipeline.start (IngestRun.copies 2) 1, fun _ => Observer.init⟩ untilComputed).any
      (fun x => decide (x.system.compute.wait = some 0) && decide (x.system.exits = [])
        && decide (x.system.replay = IngestRun.copies 2)
        && (Transition.execWhen step gapless x oneCall).any
          fun y => decide ((y.observers ()).collected.length = 1)) = true := by
    decide +kernel
  have hshown : listed (replayed (replayRecords (IngestRun.copies 2))).window
      (List.finRange kMaxSources)
        = [{ id := 1, x := 1020, y := 0, publishes := 2, sequence := 1 }] := by
    decide +kernel
  obtain ⟨x, hrun, hx⟩ := Option.any_eq_true _ _ |>.mp h
  simp only [Bool.and_eq_true, decide_eq_true_eq] at hx
  obtain ⟨⟨⟨hwait, hexits⟩, hre⟩, hcall⟩ := hx
  obtain ⟨y, hcalls, hone⟩ := Option.any_eq_true _ _ |>.mp hcall
  have hr : ReachableGapless x :=
    Transition.Reachable.execWhen (g := gapless) (fun _ _ hg => hg) _
      (.init ⟨⟨_, _, rfl⟩, fun _ => rfl⟩) hrun
  have hfrom : From x y :=
    Transition.Reachable.execWhen (g := gapless) (fun _ _ hg => hg) _ (.init rfl) hcalls
  have hobs : x.observers () = Observer.init := congrFun (observers_of_system _ hrun) ()
  obtain ⟨more, hmore, hshow⟩ := dashboard_of_replay (r := ()) hr (by rw [hexits]; simp)
    (Child.wait_zero hwait) (by rw [hobs]; rfl) hfrom
  rw [hobs] at hmore
  have hmore' : (y.observers ()).collected = more := hmore
  rw [hmore', decide_eq_true_eq] at hone
  obtain ⟨snap, rfl⟩ := List.length_eq_one_iff.mp hone
  refine ⟨x, y, hr, hfrom, hre, ?_⟩
  rw [hmore', List.map_singleton, hshow snap (List.mem_singleton.mpr rfl), hre, hshown]

end Observed

end RateHub
