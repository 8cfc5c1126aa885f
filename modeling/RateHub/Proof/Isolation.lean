import RateHub.Proof.CompleteHandoff

/-!
# Whose rows a snapshot holds

Nobody clears `latest` and `window` between two attempts. A row that an attempt finds there
and does not publish again is collected with the attempt's own, under the attempt's
generation. So a snapshot holds the rows of its own attempt exactly as far as the attempt's
fast thread has published every source that any attempt before it had published.

The history variable is the list of all publishes to `latest`: the attempt, the source
and the state.
-/

namespace RateHub

open Seqlock

/-- The even store comes next: the source and the state it publishes. -/
def Fast.completes (t : Fast) : Option (Fin kMaxSources × SourceState) :=
  match t.pc with
  | .publish id (.words state _ i) _ => if i < kWords SourceState then none else some (id, state)
  | _ => none

namespace Pipeline

/-- One publish to `latest`. -/
structure Published where
  attempt : Nat
  id : Fin kMaxSources
  state : SourceState
  deriving DecidableEq, Repr

/-- The publish that a step completes. -/
def publishedOf (s : Pipeline) (a : Act) : List Published :=
  match a, s.compute with
  | .fast, .running p =>
      match p.fast.completes with
      | some (id, state) => [⟨s.attempt, id, state⟩]
      | none => []
  | _, _ => []

/-- How a step of the system changes the history. -/
def notePublished (past : List Published) (s : Pipeline) (a : Act) (_ : Pipeline) :
    List Published :=
  past ++ publishedOf s a

/-- When the fast thread stores its flag, it has published every source that has a state. -/
def covers (s : Pipeline) : Act → Bool
  | .fast =>
      match s.compute with
      | .running p =>
          match p.fast.pc with
          | .storeDone =>
              decide (∀ id, (s.layout.latest id).versions = [] ∨ p.fast.fleet.valid id = true)
          | _ => true
      | _ => true
  | _ => true

/-- Every attempt starts settled and covers what the attempts before it left. -/
def isolates (s : Pipeline) (a : Act) : Bool := s.startsSettled a && s.covers a

/-- The runs that do, with their publishes. -/
def ReachableIsolated : Transition.Noted Pipeline (List Published) → Prop :=
  Transition.ReachableNoted step notePublished (fun x a => x.now.isolates a = true) Start []

theorem ReachableIsolated.settled {x : Transition.Noted Pipeline (List Published)}
    (h : ReachableIsolated x) : ReachableSettled x.now := by
  refine Transition.ReachableNoted.now_of ?_ h
  intro x a hok
  exact (Bool.and_eq_true _ _ ▸ hok).1

end Pipeline

/-! ## The fast thread's own sources -/

/-- `integrate` marks at most the record's source as valid. -/
theorem integrate_valid {fleet fleet' : FleetSoA} {record : Record} {dtNs : Int64}
    {status : IntegrateStatus} (h : integrate fleet record dtNs = (status, fleet'))
    {id : Fin kMaxSources} (hv : fleet'.valid id = true) :
    fleet.valid id = true ∨ (status = .ok ∧ id = sourceIndex record.sourceId) := by
  simp only [integrate] at h
  split at h
  · rw [← (Prod.mk.inj h).2] at hv
    exact Or.inl hv
  · split at h
    · rw [← (Prod.mk.inj h).2] at hv
      exact Or.inl hv
    · split at h
      · obtain ⟨rfl, rfl⟩ := Prod.mk.inj h
        by_cases hid : id = sourceIndex record.sourceId
        · exact Or.inr ⟨rfl, hid⟩
        · simp only [Function.update_of_ne hid] at hv
          exact Or.inl hv
      · rw [← (Prod.mk.inj h).2] at hv
        exact Or.inl hv

/-- A source the fast thread marks as valid is one it had marked before, or one it is about
to publish. -/
theorem Fast.absorb_valid {t : Fast} {record : Record} {id : Fin kMaxSources}
    (hv : (t.absorb record).fleet.valid id = true) (hidle : (t.absorb record).pc.call id = .idle) :
    t.fleet.valid id = true := by
  unfold Fast.absorb at hv hidle
  split at hv
  · rename_i fleet hint
    rcases integrate_valid hint hv with hold | ⟨_, rfl⟩
    · exact hold
    · simp only [hint] at hidle
      rw [FastPc.call_self] at hidle
      cases hidle
  · rename_i status fleet hne hint
    rcases integrate_valid hint hv with hold | ⟨hok, _⟩
    · exact hold
    · exact absurd hok (fun he => hne (by rw [he]))

/-- The source was published by the attempt, and the slot still holds what it published. -/
def OwnState (l : Layout) (past : List Pipeline.Published) (attempt : Nat)
    (id : Fin kMaxSources) : Prop :=
  ∃ state, (l.latest id).versions.getLast? = some state ∧ ⟨attempt, id, state⟩ ∈ past

theorem OwnState.mono {l l' : Layout} {past past' : List Pipeline.Published} {attempt : Nat}
    {id : Fin kMaxSources} (h : OwnState l past attempt id) (hl : l'.latest id = l.latest id)
    (hp : past ⊆ past') : OwnState l' past' attempt id := by
  obtain ⟨state, hlast, hmem⟩ := h
  exact ⟨state, by rw [hl]; exact hlast, hp hmem⟩

/-- **One step of the fast thread**: outside the publish of a source, what its slot holds is
the attempt's own as soon as the source is valid. -/
theorem FastMove.owns {clock : UInt64} {l l' : Layout} {t t' : Fast}
    (hm : FastMove clock l t l' t') {past past' : List Pipeline.Published} {attempt : Nat}
    (h : ∀ id, t.fleet.valid id = true → t.pc.call id = .idle → OwnState l past attempt id)
    (hpast : past ⊆ past')
    (hnew : ∀ id state, t.completes = some (id, state) → ⟨attempt, id, state⟩ ∈ past') :
    ∀ id, t'.fleet.valid id = true → t'.pc.call id = .idle → OwnState l' past' attempt id := by
  intro id hv hidle
  cases hm with
  | took hpc hr =>
      refine (h id (Fast.absorb_valid hv hidle) ?_).mono rfl hpast
      rw [hpc]
      rfl
  | @storing j call call' count lock hpc hr hin =>
      by_cases hid : j = id
      · subst hid
        exact absurd ((FastPc.call_self j call' count).symm.trans hidle) hin
      · refine (h id hv ?_).mono (Function.update_of_ne (Ne.symm hid) _ _) hpast
        rw [hpc, FastPc.call_of_ne hid]
  | @stored j call count lock hpc hr =>
      by_cases hid : j = id
      · subst hid
        cases call with
        | idle =>
            obtain ⟨rfl, _⟩ := Prod.mk.inj hr
            refine (h j hv ?_).mono (Function.update_self _ _ _) hpast
            rw [hpc, FastPc.call_self]
        | loadSeq v => cases (Prod.mk.inj hr).2
        | storeOdd v q => cases (Prod.mk.inj hr).2
        | words v q i =>
            -- the even store
            simp only [publishStep] at hr
            split at hr
            · cases (Prod.mk.inj hr).2
            · rename_i hge
              obtain ⟨rfl, _⟩ := Prod.mk.inj hr
              refine ⟨v, ?_, hnew j v (by simp [Fast.completes, hpc, hge])⟩
              simp
      · refine (h id hv ?_).mono (Function.update_of_ne (Ne.symm hid) _ _) hpast
        rw [hpc, FastPc.call_of_ne hid]
  | _ hpc =>
      refine (h id hv ?_).mono rfl hpast
      rw [hpc]
      rfl

/-- The fast thread ends with the store of its flag. -/
theorem FastMove.ends {clock : UInt64} {l l' : Layout} {t t' : Fast}
    (hm : FastMove clock l t l' t') (hd : t'.pc.isDone = true) :
    t.pc = .storeDone ∧ l'.latest = l.latest ∧ t'.fleet = t.fleet := by
  cases hm with
  | storeDone hpc => exact ⟨hpc, rfl, rfl⟩
  | took hpc hr =>
      rw [Fast.absorb_isDone] at hd
      cases hd
  | _ => cases hd

namespace Pipeline

/-- Whose states the slots and the snapshots hold. -/
structure Owned (s : Pipeline) (past : List Published) : Prop where
  own : ∀ p, s.compute = .running p → ∀ id, p.fast.fleet.valid id = true →
    p.fast.pc.call id = .idle → OwnState s.layout past s.attempt id
  covered : ∀ p, s.compute = .running p → p.fast.pc.isDone = true → ∀ id,
    (s.layout.latest id).versions ≠ [] → p.fast.fleet.valid id = true
  handed : ∀ n snap, (n, snap) ∈ s.handed → ∀ id, (snap.rows id).publishes ≠ 0 →
    ∃ state, ⟨n, id, state⟩ ∈ past ∧ snap.rows id = state.window

theorem owned_start (replay : List UInt8) (clock : UInt64) : Owned (start replay clock) [] where
  own := by intro p hp; cases hp
  covered := by intro p hp; cases hp
  handed := by intro n snap hmem; cases hmem

/-- What was handed over stays published. -/
theorem Owned.handed_mono {s s' : Pipeline} {past past' : List Published} (h : Owned s past)
    (hh : s'.handed = s.handed) (hp : past ⊆ past') :
    ∀ n snap, (n, snap) ∈ s'.handed → ∀ id, (snap.rows id).publishes ≠ 0 →
      ∃ state, ⟨n, id, state⟩ ∈ past' ∧ snap.rows id = state.window := by
  intro n snap hmem id hne
  obtain ⟨state, hin, hrow⟩ := h.handed n snap (hh ▸ hmem) id hne
  exact ⟨state, hp hin, hrow⟩

/-- A step that moves neither the fast thread nor its slots. -/
theorem Owned.frame {s s' : Pipeline} {past past' : List Published} (h : Owned s past)
    (hx : s'.exits = s.exits) (hl : s'.layout.latest = s.layout.latest)
    (hc : ∀ p', s'.compute = .running p' → ∃ p, s.compute = .running p ∧ p'.fast = p.fast)
    (hp : past ⊆ past')
    (hh : ∀ n snap, (n, snap) ∈ s'.handed → ∀ id, (snap.rows id).publishes ≠ 0 →
      ∃ state, ⟨n, id, state⟩ ∈ past' ∧ snap.rows id = state.window) : Owned s' past' where
  own p' hp' id hv hidle := by
    obtain ⟨p, hrun, hfast⟩ := hc p' hp'
    rw [hfast] at hv hidle
    have hown := h.own p hrun id hv hidle
    rw [attempt, hx]
    exact hown.mono (by rw [hl]) hp
  covered p' hp' hdone id hne := by
    obtain ⟨p, hrun, hfast⟩ := hc p' hp'
    rw [hfast] at hdone ⊢
    exact h.covered p hrun hdone id (hl ▸ hne)
  handed := hh

/-- A step after which no compute runs. -/
theorem Owned.not_running {s s' : Pipeline} {past past' : List Published} (h : Owned s past)
    (hc : ∀ p, s'.compute ≠ .running p) (hh : s'.handed = s.handed) (hp : past ⊆ past') :
    Owned s' past' where
  own p hrun := absurd hrun (hc p)
  covered p hrun := absurd hrun (hc p)
  handed := h.handed_mono hh hp

/-- **What is handed over is the attempt's own.** -/
theorem Owned.handOver {s : Pipeline} {past : List Published} (h : Owned s past)
    (hr : ReachableSettled s) {p : Compute} (hp : s.compute = .running p)
    (hpc : p.snapshot.pc = .publish .exchange) {id : Fin kMaxSources}
    (hne : (p.snapshot.snap.rows id).publishes ≠ 0) :
    ∃ state, ⟨s.attempt, id, state⟩ ∈ past ∧ p.snapshot.snap.rows id = state.window := by
  obtain ⟨_, hrows⟩ := complete_of_filled hr hp (by rw [hpc]; rfl) (by intro id; rw [hpc]; rfl)
  have hlast := lastPass_reachable hr hp
  have hwin := hlast.windowDone (by rw [hpc]; rfl)
  have hdone := hlast.fastDone (Or.inr (WindowPc.pastLast_of_isDone hwin))
  rw [hrows id] at hne ⊢
  have hsome : (s.layout.latest id).versions ≠ [] := by
    intro hnil
    rw [Layout.lastRow, hnil] at hne
    exact hne rfl
  have hvalid := h.covered p hp hdone id hsome
  obtain ⟨state, hstate, hmem⟩ := h.own p hp id hvalid (FastPc.call_of_isDone hdone id)
  refine ⟨state, hmem, ?_⟩
  rw [Layout.lastRow, hstate]

theorem owned_step {s s' : Pipeline} {a : Act} {past : List Published} (h : Owned s past)
    (hr : ReachableSettled s) (hok : s.isolates a = true) (hs : s.step a = some s') :
    Owned s' (notePublished past s a s') := by
  have hmono : past ⊆ notePublished past s a s' := List.subset_append_left _ _
  cases attemptMove hs with
  | unseen hu =>
      refine h.frame hu.exits hu.latest ?_ hmono (h.handed_mono hu.handed hmono)
      intro p hp
      exact ⟨p, hu.compute ▸ hp, rfl⟩
  | rerun hl hc hx hh hk => exact h.not_running (by simp [hc]) hh hmono
  | noSpawn hsup hl hc hx hh hk => exact h.not_running (by simp [hc]) hh hmono
  | ended hp hcode hl hc hx hh hk => exact h.not_running (by simp [hc]) hh hmono
  | reap hw hl hc hx hh hk =>
      refine h.not_running ?_ hh hmono
      intro p hp
      rw [hc] at hp
      rw [hp] at hw
      cases hw
  | spawn hact hsup hl hc hx hh hk =>
      refine ⟨?_, ?_, h.handed_mono hh hmono⟩
      · intro p hp id hv
        obtain rfl := Child.running_unique hc hp
        cases hv
      · intro p hp hd
        obtain rfl := Child.running_unique hc hp
        cases hd
  | @fast p t' hact hp ha hm hc hx hh hk =>
      subst hact
      have hattempt : s'.attempt = s.attempt := by rw [attempt, hx]; rfl
      refine ⟨?_, ?_, h.handed_mono hh hmono⟩
      · intro q hq
        obtain rfl := Child.running_unique hc hq
        rw [hattempt]
        refine hm.owns (h.own p hp) hmono ?_
        intro id state hcomp
        refine List.mem_append_right _ ?_
        simp [publishedOf, hp, hcomp]
      · intro q hq hd id hne
        obtain rfl := Child.running_unique hc hq
        obtain ⟨hpc, hl, hfleet⟩ := hm.ends hd
        have hcov := (Bool.and_eq_true _ _ ▸ hok).2
        simp only [covers, hp, hpc, decide_eq_true_eq] at hcov
        rw [hl] at hne
        show t'.fleet.valid id = true
        rw [hfleet]
        exact (hcov id).resolve_left hne
  | window hact hp ha hm hc hx hh hk =>
      exact h.frame hx hm.latest (Child.runs_on Compute.fast hp hc rfl) hmono (h.handed_mono hh hmono)
  | watchdog hact hp ha hm hc hx hh hk =>
      exact h.frame hx hm.arrays.1 (Child.runs_on Compute.fast hp hc rfl) hmono (h.handed_mono hh hmono)
  | main hact hp hm hc hx hh hk =>
      obtain ⟨cd, hl⟩ := computeMainStep_layout hm
      exact h.frame hx (by rw [hl]) (Child.runs_on Compute.fast hp hc rfl) hmono (h.handed_mono hh hmono)
  | snapshot hact hp ha hm hc hx hh hk =>
      refine h.frame hx hm.arrays.1 (Child.runs_on Compute.fast hp hc rfl) hmono ?_
      rcases hh with ⟨_, hh⟩ | ⟨hpc, hh⟩
      · exact h.handed_mono hh hmono
      · intro n snap hmem id hne
        rw [hh] at hmem
        rcases List.mem_append.mp hmem with hold | hnew
        · exact h.handed_mono rfl hmono n snap hold id hne
        · obtain ⟨rfl, rfl⟩ := Prod.mk.inj (List.mem_singleton.mp hnew)
          obtain ⟨state, hin, hrow⟩ := h.handOver hr hp hpc hne
          exact ⟨state, hmono hin, hrow⟩

theorem owned_reachable {x : Transition.Noted Pipeline (List Published)}
    (h : ReachableIsolated x) : Owned x.now x.past := by
  induction h with
  | init hstart =>
      obtain ⟨⟨replay, clock, hnow⟩, hpast⟩ := hstart
      rw [hnow, hpast]
      exact owned_start replay clock
  | tail hr hok hs ih =>
      obtain ⟨hs', hpast⟩ := Transition.notedStep_some hs
      rw [hpast]
      exact owned_step ih (ReachableIsolated.settled hr) hok hs'

/--
**A snapshot holds the rows of its own attempt, in every run whose attempts start settled
and cover what they find.**

Over any number of attempts and pipelines on one mapping, with spawns failing and processes
killed: if every compute attempt is spawned with `fast_done` clear and no slot in the middle
of a publish, and stores `fast_done` only when it has published every source that has a
state in `latest`, then every snapshot handed over is stamped with the generation of the
attempt that did, and each of its rows with a count is the sample of a state that this
attempt's fast thread published for that source.
-/
theorem rows_of_own_attempt {x : Transition.Noted Pipeline (List Published)}
    (h : ReachableIsolated x) {n : Nat} {snap : Snapshot} (hmem : (n, snap) ∈ x.now.handed) :
    snap.generation = UInt32.ofNat n
      ∧ ∀ id, (snap.rows id).publishes ≠ 0 →
        ∃ state, ⟨n, id, state⟩ ∈ x.past ∧ snap.rows id = state.window :=
  ⟨(stamped_reachable h.settled.reachable).handed _ hmem, (owned_reachable h).handed n snap hmem⟩

/-- Compute publishes one record and is killed; a second attempt takes what is left in the
ring, if anything, in `n` steps of its fast thread and goes on to hand a snapshot over. -/
def secondAttempt (ingest : List Act) (n : Nat) : List Act :=
  List.flatten [List.replicate 6 (.sup 7), ingest, List.replicate 4 .ingestMain,
    List.replicate 2 .computeMain, List.replicate 17 .fast, [.killCompute],
    List.replicate 5 (.sup 8), List.replicate 2 .computeMain, List.replicate n .fast,
    List.replicate 457 .window, List.replicate 328 .snapshot]

/-- With a second record of the same source for the second attempt. -/
theorem rows_of_own_attempt_second_record :
    ∃ x, ReachableIsolated x ∧ ∃ snap state, (2, snap) ∈ x.now.handed ∧ snap.generation = 2
      ∧ (snap.rows ⟨1, by decide⟩).publishes = 1
      ∧ ⟨2, ⟨1, by decide⟩, state⟩ ∈ x.past ∧ snap.rows ⟨1, by decide⟩ = state.window := by
  have h : (Transition.execWhen (Transition.notedStep step notePublished)
      (fun x a => x.now.isolates a) ⟨start (IngestRun.copies 2) 1, []⟩
      (secondAttempt
        ([Act.ingestMain] ++ List.replicate 10 Act.source ++ List.replicate 13 Act.frames) 30)).any
      (fun x => x.now.handed.any fun e =>
        decide (e.1 = 2) && decide ((e.2.rows ⟨1, by decide⟩).publishes = 1)) = true := by
    decide +kernel
  obtain ⟨x, hrun, hx⟩ := Option.any_eq_true _ _ |>.mp h
  obtain ⟨⟨n, snap⟩, hmem, he⟩ := List.any_eq_true.mp hx
  simp only [Bool.and_eq_true, decide_eq_true_eq] at he
  obtain ⟨rfl, hone⟩ := he
  have hr : ReachableIsolated x :=
    Transition.ReachableNoted.execWhen (fun _ _ hg => hg) ⟨_, _, rfl⟩ hrun
  obtain ⟨hgen, hrows⟩ := rows_of_own_attempt hr hmem
  obtain ⟨state, hin, hrow⟩ := hrows ⟨1, by decide⟩ (by rw [hone]; decide)
  exact ⟨x, hr, snap, state, hmem, hgen, hone, hin, hrow⟩

/-- With nothing for the second attempt: its snapshot, stamped with its generation, has the
row that the first attempt published. -/
theorem rows_carried_over :
    ∃ x, Transition.ReachableNoted step notePublished (fun _ _ => True) Start [] x
      ∧ ∃ snap, (2, snap) ∈ x.now.handed ∧ snap.generation = 2
        ∧ (snap.rows ⟨1, by decide⟩).publishes = 1 ∧ ∀ e ∈ x.past, e.attempt = 1 := by
  have h : (Transition.execWhen (Transition.notedStep step notePublished) (fun _ _ => true)
      ⟨start (IngestRun.copies 1) 1, []⟩
      (secondAttempt
        ([Act.ingestMain] ++ List.replicate 6 Act.source ++ List.replicate 7 Act.frames) 9)).any
      (fun x => (x.now.handed.any fun e =>
          decide (e.1 = 2) && decide (e.2.generation = 2)
            && decide ((e.2.rows ⟨1, by decide⟩).publishes = 1))
        && x.past.all fun e => decide (e.attempt = 1)) = true := by
    decide +kernel
  obtain ⟨x, hrun, hx⟩ := Option.any_eq_true _ _ |>.mp h
  rw [Bool.and_eq_true] at hx
  obtain ⟨⟨n, snap⟩, hmem, he⟩ := List.any_eq_true.mp hx.1
  simp only [Bool.and_eq_true, decide_eq_true_eq] at he
  obtain ⟨⟨rfl, hgen⟩, hone⟩ := he
  have hfirst := List.all_eq_true.mp hx.2
  simp only [decide_eq_true_eq] at hfirst
  exact ⟨x, Transition.ReachableNoted.execWhen (fun _ _ _ => trivial) ⟨_, _, rfl⟩ hrun, snap, hmem,
    hgen, hone, hfirst⟩

end Pipeline

end RateHub
