import RateHub.Http.Page
import RateHub.Proof.Dashboard

/-!
# From the replay file to the page

The two ends put together: what the slots hold after a success, what an observer samples of
them, and what a page receives of the samples. The observer between its samples and the page is the
same process; a sample it has taken is what it formats and hands to the pump.
-/

namespace RateHub

open Http

/-! ## No sample has more points than there is room for -/

/-- The sample in the making and those returned. -/
structure Observer.Bounded (o : Observer) : Prop where
  snap : o.snap.sourceCount ≤ kMaxPoints
  collected : ∀ snap ∈ o.collected, snap.sourceCount ≤ kMaxPoints

namespace Observer

variable {l : Layout} {o o' : Observer}

/-- Nothing has been sampled. -/
theorem bounded_init : Observer.init.Bounded := ⟨Nat.zero_le _, by simp [Observer.init]⟩

/-- A call begins with no source. -/
theorem Bounded.call (h : o.Bounded) (nowNs : UInt64) : (o.call nowNs).Bounded :=
  ⟨Nat.zero_le _, h.collected⟩

/-- The sample in the making joins those returned. -/
theorem Bounded.finish (h : o.Bounded) : o.finish.Bounded := by
  refine ⟨h.snap, ?_⟩
  intro snap hsnap
  rcases List.mem_append.mp hsnap with hold | hnew
  · exact h.collected snap hold
  · obtain rfl := List.mem_singleton.mp hnew
    exact h.snap

/-- The step to the next row, or to the end of the call. -/
theorem Bounded.next (h : o.Bounded) (id : Fin kMaxSources) : (o.next id).Bounded := by
  unfold Observer.next
  split
  · exact ⟨h.snap, h.collected⟩
  · exact h.finish

/-- The loads before the loop list no source. -/
theorem bounded_words (h : o.Bounded) : ∀ load ∈ collectWords, (load l o).Bounded := by
  have hsame : ∀ load ∈ collectWords, (load l o).snap.sourceCount = o.snap.sourceCount
      ∧ (load l o).collected = o.collected := by
    simp [collectWords, Observer.into]
  intro load hload
  obtain ⟨hcount, hcollected⟩ := hsame load hload
  exact ⟨by rw [hcount]; exact h.snap, by rw [hcollected]; exact h.collected⟩

/-- **A step of the observer.** -/
theorem Bounded.step (h : o.Bounded) (hs : o.step l = some o') : o'.Bounded := by
  unfold Observer.step at hs
  split at hs
  · -- idle: no step
    cases hs
  · -- one of the loads before the loop
    split at hs
    · rename_i hload
      have hb := bounded_words (l := l) h _ (List.mem_of_getElem? hload)
      split at hs <;> obtain rfl := Option.some.inj hs
      · exact ⟨hb.snap, hb.collected⟩
      · exact ⟨hb.snap, hb.collected⟩
    · cases hs
  · -- a row's load: not done yet, no row to show, or a point to add
    split at hs
    · obtain rfl := Option.some.inj hs
      exact ⟨h.snap, h.collected⟩
    · split at hs
      · obtain rfl := Option.some.inj hs
        exact h.next _
      · split at hs <;> obtain rfl := Option.some.inj hs
        · -- `source_count >= kMaxPoints` ends the call before the point is added
          exact h.finish
        · rename_i hlt
          refine Bounded.next (o := { o with snap := o.snap.addPoint _ _ }) ⟨?_, h.collected⟩ _
          exact Nat.lt_of_not_le hlt

end Observer

namespace Observed

variable {R : Type} [DecidableEq R] {x y y' : Observed R} {r : R}

/-- Only the observer that moves changes its sample. -/
theorem bounded_step {a : ObservedAct R} (h : ∀ r, (y.observers r).Bounded)
    (hs : y.step a = some y') : ∀ r, (y'.observers r).Bounded := by
  cases a with
  | system a =>
      simp only [step, Option.map_eq_some_iff] at hs
      obtain ⟨s, _, rfl⟩ := hs
      exact h
  | collect r' =>
      simp only [step] at hs
      split at hs
      · obtain rfl := Option.some.inj hs
        intro r
        by_cases hr : r = r'
        · subst hr
          simpa only [Function.update_self] using (h r).call _
        · simpa only [Function.update_of_ne hr] using h r
      · cases hs
  | observe r' =>
      simp only [step, Option.map_eq_some_iff] at hs
      obtain ⟨o, hst, rfl⟩ := hs
      intro r
      by_cases hr : r = r'
      · subst hr
        simpa only [Function.update_self] using (h r).step hst
      · simpa only [Function.update_of_ne hr] using h r

/-- In every run no sample has more points than `kMaxPoints`. -/
theorem bounded_reachable (h : ReachableGapless y) : ∀ r, (y.observers r).Bounded := by
  induction h with
  | init hstart =>
      intro r
      rw [hstart.2 r]
      exact Observer.bounded_init
  | tail _ _ hs ih => exact bounded_step ih hs

/--
**From the replay file to the page.**

For every replay file and every interleaving of one pipeline with any number of observers, with
spawns failing and children refused, crashed on request or killed at any point, in which nobody
kills compute, no attempt has ended with a fault and ingest does not store its flag while the
fast thread is in the gap over a ring that holds records: once a compute attempt has ended
with 0, a page connects to an observer that formats and sends samples it takes from then on,
whatever the kernel replies to its calls. Every message that the page is given is an object
whose sources are the first `kMaxPoints`, in the order of their ids, of those with accepted
records in the replay file whose number is not a multiple of 2^32, each with what passing every
good record of the file through `integrate` makes of it.
-/
theorem page_of_replay (hx : ReachableGapless x) (hfault : 3 ∉ x.system.exits)
    (hend : x.system.compute = .ended (.exited 0)) (hr : (x.observers r).pc = .idle)
    (hy : From x y) {srv : HttpSseServer} {w : World}
    (hsrv : ∀ fd, srv.listenFd = some fd → fd < w.next) (calls : List SnapCall)
    (hcalls : ∀ d ∈ calls,
      d.snap ∈ (y.observers r).collected.drop (x.observers r).collected.length)
    (rs : List Reply) (fd : Fd) (hheld : .hold fd ∈ (snapRun srv calls w rs).trace) :
    ∀ v ∈ Page.objects (delivered fd (snapRun srv calls w rs).trace), ∃ object, v = some object
      ∧ Page.sources object
        = (listed (replayed (replayRecords x.system.replay)).window (List.finRange kMaxSources)).map
            pointObject := by
  obtain ⟨hreach, hsettled⟩ := settled_of_replay hx hfault hend hr hy
  obtain ⟨more, hmore, hshow⟩ := hsettled.samples
  rw [hmore, List.drop_left] at hcalls
  -- the messages are the texts of some of the calls, and each call's text is read back
  obtain ⟨sub, hsub, hmessages⟩ := messages_framed (framed_of_held hsrv calls rs fd hheld)
  intro v hv
  rw [Page.objects, hmessages, List.map_map, List.mem_map] at hv
  obtain ⟨d, hd, hv⟩ := hv
  have hmem := hcalls d (hsub.subset hd)
  have hcount : d.snap.sourceCount ≤ kMaxPoints := by
    refine (bounded_reachable hreach r).collected d.snap ?_
    rw [hmore]
    exact List.mem_append_right _ hmem
  rw [Function.comp_apply, parse_jsonText d.snap hcount] at hv
  refine ⟨_, hv.symm, ?_⟩
  rw [Page.sources_telemetryObject, hshow d.snap hmem]

/-- One call of the pump for each sample. -/
def sendEach (snaps : List TelemetrySnapshot) : List SnapCall :=
  snaps.map fun snap => ⟨snap, [], none, 100, none⟩

/-- The observer's calls, with a page that connects in the first. -/
def onePage (y : Observed Unit) : List Event :=
  (snapRun ⟨some 0⟩ (sendEach (y.observers ()).collected) eventsWorld
    (List.replicate 12 willing)).trace

theorem page_of_replay_two_records :
    ∃ x y : Observed Unit, ReachableGapless x ∧ From x y ∧ x.system.replay = IngestRun.copies 2
      ∧ (Page.objects (delivered 1 (onePage y))).length = 1
      ∧ ∀ v ∈ Page.objects (delivered 1 (onePage y)), ∃ object, v = some object
        ∧ Page.sources object
          = [pointObject { id := 1, x := 1020, y := 0, publishes := 2, sequence := 1 }] := by
  have h : (Transition.execWhen (step (R := Unit)) gapless
      ⟨Pipeline.start (IngestRun.copies 2) 1, fun _ => Observer.init⟩ untilComputed).any
      (fun x => decide (x.system.compute.wait = some 0) && decide (x.system.exits = [])
        && decide (x.system.replay = IngestRun.copies 2)
        && (Transition.execWhen step gapless x oneCall).any
          fun y => decide (.hold 1 ∈ onePage y)
            && decide ((Page.feedAll {} (delivered 1 (onePage y))).reader.messages.length = 1))
        = true := by
    decide +kernel
  have hshown : listed (replayed (replayRecords (IngestRun.copies 2))).window
      (List.finRange kMaxSources)
        = [{ id := 1, x := 1020, y := 0, publishes := 2, sequence := 1 }] := by
    decide +kernel
  obtain ⟨x, hrun, hx⟩ := Option.any_eq_true _ _ |>.mp h
  simp only [Bool.and_eq_true, decide_eq_true_eq] at hx
  obtain ⟨⟨⟨hwait, hexits⟩, hre⟩, hcall⟩ := hx
  obtain ⟨y, hcalls, hone⟩ := Option.any_eq_true _ _ |>.mp hcall
  simp only [Bool.and_eq_true, decide_eq_true_eq] at hone
  have hr : ReachableGapless x :=
    Transition.Reachable.execWhen (g := gapless) (fun _ _ hg => hg) _
      (.init ⟨⟨_, _, rfl⟩, fun _ => rfl⟩) hrun
  have hfrom : From x y :=
    Transition.Reachable.execWhen (g := gapless) (fun _ _ hg => hg) _ (.init rfl) hcalls
  have hobs : x.observers () = Observer.init := congrFun (observers_of_system _ hrun) ()
  have hlen : (Page.objects (delivered 1 (onePage y))).length = 1 := by
    rw [Page.objects, List.length_map]
    exact hone.2
  refine ⟨x, y, hr, hfrom, hre, hlen, ?_⟩
  have hlisten : ∀ fd, HttpSseServer.listenFd ⟨some 0⟩ = some fd → fd < eventsWorld.next := by
    simp [eventsWorld]
  have hshow := page_of_replay (r := ()) hr (by rw [hexits]; simp) (Child.wait_zero hwait)
    (by rw [hobs]; rfl) hfrom hlisten (sendEach (y.observers ()).collected)
    (by simp [sendEach, hobs, Observer.init]) (List.replicate 12 willing) 1 hone.1
  rw [hre, hshown] at hshow
  exact hshow

end Observed

end RateHub
