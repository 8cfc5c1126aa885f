import RateHub.Proof.Attempts
import RateHub.Proof.Generations

/-!
# The generation in a snapshot

The snapshot thread loads `generation` once, before it collects the rows. The counter does
not move while an attempt runs, so the stamp is the attempt's own number, and it stays
with the snapshot that is handed over.
-/

namespace RateHub

/-- Past the load of `generation`. -/
def SnapshotPc.stamped : SnapshotPc → Bool
  | .load _ _ _ => true
  | .fill _ => true
  | .publish _ => true
  | .lastBeat => true
  | .storeLastBeat _ => true
  | .storeDone => true
  | .done => true
  | _ => false

/-- The stamp is the counter as the thread found it. -/
theorem SnapshotMove.stamp {clock : UInt64} {l l' : Layout} {t t' : SnapshotThread}
    (h : SnapshotMove clock l t l' t') (hst : t'.pc.stamped = true) :
    (t.pc.stamped = true ∧ t'.snap.generation = t.snap.generation)
      ∨ t'.snap.generation = l.control.generation := by
  cases h with
  | loadGeneration hpc => exact Or.inr rfl
  | loading hpc => exact Or.inl ⟨by rw [hpc]; rfl, rfl⟩
  | row hpc => exact Or.inl ⟨by rw [hpc]; rfl, rfl⟩
  | noRow hpc => exact Or.inl ⟨by rw [hpc]; rfl, rfl⟩
  | fill hpc => exact Or.inl ⟨by rw [hpc]; rfl, rfl⟩
  | storing hpc => exact Or.inl ⟨by rw [hpc]; rfl, rfl⟩
  | stored hpc => exact Or.inl ⟨by rw [hpc]; rfl, rfl⟩
  | lastBeat hpc => exact Or.inl ⟨by rw [hpc]; rfl, rfl⟩
  | storeLastBeat hpc => exact Or.inl ⟨by rw [hpc]; rfl, rfl⟩
  | storeDone hpc => exact Or.inl ⟨by rw [hpc]; rfl, rfl⟩
  | _ => cases hst

namespace Pipeline

/-- While an attempt runs the counter is its number. -/
theorem generation_of_running {s : Pipeline} (h : Reachable s) {p : Compute}
    (hp : s.compute = .running p) : s.layout.control.generation = UInt32.ofNat s.attempt := by
  obtain ⟨past, hr⟩ := Transition.ReachableNoted.of_reachable noteStatuses [] h
  have hsk := (sound_reachable h).skeleton
  exact ((counting_reachable hr).attempting hsk (attempting_of_running hsk hp)).1

/-- The stamps of the snapshot in the making and of those handed over. -/
structure Stamped (s : Pipeline) : Prop where
  making : ∀ p, s.compute = .running p → p.snapshot.pc.stamped = true →
    p.snapshot.snap.generation = UInt32.ofNat s.attempt
  handed : ∀ e ∈ s.handed, e.2.generation = UInt32.ofNat e.1

theorem stamped_start (replay : List UInt8) (clock : UInt64) : Stamped (start replay clock) where
  making := by intro p hp; cases hp
  handed := by intro e he; cases he

/-- A step that leaves the snapshot thread alone. -/
theorem Stamped.frame {s s' : Pipeline} (h : Stamped s) (hx : s'.exits = s.exits)
    (hh : s'.handed = s.handed)
    (hp : ∀ p', s'.compute = .running p' → ∃ p, s.compute = .running p ∧ p'.snapshot = p.snapshot) :
    Stamped s' where
  making p' hp' hst := by
    obtain ⟨p, hrun, hsnap⟩ := hp p' hp'
    rw [hsnap] at hst ⊢
    rw [attempt, hx]
    exact h.making p hrun hst
  handed := by rw [hh]; exact h.handed

theorem stamped_step {s s' : Pipeline} {a : Act} (h : Stamped s) (hr : Reachable s)
    (hs : s.step a = some s') : Stamped s' := by
  cases attemptMove hs with
  | unseen hu =>
      refine h.frame hu.exits hu.handed ?_
      intro p hp
      exact ⟨p, hu.compute ▸ hp, rfl⟩
  | rerun hl hc hx hh hk => exact h.frame hx hh (by simp [hc])
  | spawn hact hsup hl hc hx hh hk =>
      refine ⟨?_, by rw [hh]; exact h.handed⟩
      intro p hp hst
      obtain rfl := Child.running_unique hc hp
      cases hst
  | noSpawn hsup hl hc hx hh hk => exact h.frame hx hh (by simp [hc])
  | reap hw hl hc hx hh hk =>
      refine ⟨?_, by rw [hh]; exact h.handed⟩
      intro p hp
      rw [hc] at hp
      rw [hp] at hw
      cases hw
  | fast hact hp ha hm hc hx hh hk => exact h.frame hx hh (Child.runs_on Compute.snapshot hp hc rfl)
  | window hact hp ha hm hc hx hh hk => exact h.frame hx hh (Child.runs_on Compute.snapshot hp hc rfl)
  | watchdog hact hp ha hm hc hx hh hk => exact h.frame hx hh (Child.runs_on Compute.snapshot hp hc rfl)
  | main hact hp hm hc hx hh hk => exact h.frame hx hh (Child.runs_on Compute.snapshot hp hc rfl)
  | snapshot hact hp ha hm hc hx hh hk =>
      refine ⟨?_, ?_⟩
      · intro q hq hst
        obtain rfl := Child.running_unique hc hq
        rw [attempt, hx]
        rcases hm.stamp hst with ⟨hold, hkeep⟩ | hload
        · exact hkeep.trans (h.making _ hp hold)
        · exact hload.trans (generation_of_running hr hp)
      · rcases hh with ⟨_, hh⟩ | ⟨hpc, hh⟩
        · rw [hh]
          exact h.handed
        · rw [hh]
          intro e he
          rcases List.mem_append.mp he with he | he
          · exact h.handed e he
          · obtain rfl := List.mem_singleton.mp he
            exact h.making _ hp (by rw [hpc]; rfl)
  | ended hp hcode hl hc hx hh hk => exact h.frame hx hh (by simp [hc])

/-- **Every snapshot is stamped with the number of its attempt.** -/
theorem stamped_reachable {s : Pipeline} (h : Reachable s) : Stamped s := by
  induction h with
  | init hstart =>
      obtain ⟨replay, clock, rfl⟩ := hstart
      exact stamped_start replay clock
  | tail hr _ hs ih => exact stamped_step ih hr hs

end Pipeline

end RateHub
