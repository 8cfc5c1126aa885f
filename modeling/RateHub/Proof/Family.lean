import RateHub.Process.Family
import RateHub.Proof.Mappings

/-!
# A family and its mapping

The names hold the process ids and every supervisor waits for what it forked, so the processes
observe the discipline of `Mappings` without a word to each other: the run of a family is, seen
from the name space, a disciplined run.
-/

namespace RateHub

theorem shmName_injective {a b : Nat} (h : shmName a = shmName b) : a = b := by
  have hdigits : Nat.toDigits 10 a = Nat.toDigits 10 b := by
    have := (String.append_right_inj "/rh-").mp h
    simpa [toString] using congrArg String.toList this
  simpa using congrArg (Nat.ofDigitChars 10 · 0) hdigits

theorem shmName_ne (n : Nat) : shmName n ≠ "" := by
  intro h
  have hlen := congrArg String.length h
  simp [shmName, String.length_append] at hlen

namespace ShmProcess

variable {k k' : ShmKernel} {p p' : ShmProcess} {good : Bool}

/-- Only a process that is creating a name or owns one comes to do so. -/
theorem answers_step (hacc : p.Accounts) (hs : p.step k good = some (k', p'))
    (h : p'.mapping.owner = true ∨ p'.pc.creating ≠ none) :
    p.mapping.owner = true ∨ p.pc.creating ≠ none := by
  obtain ⟨pc, mapping, fds, maps, returned⟩ := p
  unfold ShmProcess.step at hs
  unfold Accounts at hacc
  cases pc <;> simp only [reduceCtorEq] at hs hacc
  all_goals
    repeat' split at hs
    all_goals
      obtain ⟨_, rfl⟩ := Prod.mk.inj (Option.some.inj hs)
      simp_all [ret, keep, ShmPc.creating]

/-- A process comes to own a name when `shm_create` returns. -/
theorem owner_step (hacc : p.Accounts) (hs : p.step k good = some (k', p'))
    (hpc : p'.pc = .idle) (h : p'.mapping.owner = true) :
    ∃ name o, p.pc.building = some name ∧ p' = p.keep name o true := by
  obtain ⟨pc, mapping, fds, maps, returned⟩ := p
  unfold ShmProcess.step at hs
  unfold Accounts at hacc
  cases pc <;> simp only [reduceCtorEq] at hs hacc
  case build name o =>
    obtain ⟨_, rfl⟩ := Prod.mk.inj (Option.some.inj hs)
    exact ⟨name, o, rfl, rfl⟩
  all_goals
    exfalso
    repeat' split at hs
    all_goals
      obtain ⟨_, rfl⟩ := Prod.mk.inj (Option.some.inj hs)
      simp_all [ret, keep]

end ShmProcess

/-! ## Who has to do with which name -/

namespace Family

variable {P : Type} [DecidableEq P] {t : Family P} {s s' : FamilyState P}

/-- What ties the processes of a name together. -/
structure Lawful (t : Family P) (s : FamilyState P) : Prop where
  /-- Only running processes have to do with names, each with its own. -/
  name : ∀ p name, name ≠ "" → (s.world.procs p).uses name = true →
    s.life p = .running ∧ name = t.nameOf p
  /-- Names are created and owned by supervisors. -/
  answers : ∀ p, (s.world.procs p).mapping.owner = true ∨ (s.world.procs p).pc.creating ≠ none →
    t.parent p = none
  /-- A running supervisor's id is in no other running process's name. -/
  alone : ∀ p q, t.parent p = none → s.life p = .running → s.life q = .running →
    t.pid (t.root q) = t.pid p → t.root q = p
  /-- The supervisor of a running process waits for it with its mapping open. -/
  waits : ∀ c q, t.parent c = some q → s.life c = .running →
    t.parent q = none ∧ s.world.ready (t.nameOf c) = true
      ∧ (s.life q = .running → (s.world.procs q).pc = .idle
          ∧ (s.world.procs q).mapping.owner = true ∧ c ∈ s.children q)
  ready : ∀ p, (s.world.procs p).pc = .idle → (s.world.procs p).mapping.owner = true →
    s.world.ready (t.nameOf p) = true

omit [DecidableEq P] in
theorem root_of_supervisor {p : P} (h : t.parent p = none) : t.root p = p := by
  simp [root, h]

omit [DecidableEq P] in
theorem root_of_child {c q : P} (h : t.parent c = some q) : t.root c = q := by
  simp [root, h]

namespace Lawful

omit [DecidableEq P]

/-- A name with a running supervisor's id in it is that supervisor's. -/
theorem root_of_name (h : t.Lawful s) {p q : P} (hp : t.parent p = none)
    (hlp : s.life p = .running) (hlq : s.life q = .running) (hn : t.nameOf q = t.nameOf p) :
    t.root q = p := by
  refine h.alone p q hp hlp hlq ?_
  have hpid := shmName_injective hn
  rwa [root_of_supervisor hp] at hpid

/-- A supervisor with a running child is past `shm_create`. -/
theorem no_child (h : t.Lawful s) {c p : P} (hp : s.life p = .running)
    (hm : (s.world.procs p).mapping.owner = false ∨ s.children p = []) (hc : s.life c = .running) :
    t.parent c ≠ some p := by
  intro hcp
  obtain ⟨_, _, hw⟩ := h.waits c p hcp hc
  obtain ⟨_, howner, hmem⟩ := hw hp
  rcases hm with hm | hm
  · rw [hm] at howner
    cases howner
  · rw [hm] at hmem
    cases hmem

/-- Nobody else has to do with the name of a supervisor that has no running child. -/
theorem unused (h : t.Lawful s) {p q : P} (hp : t.parent p = none) (hlp : s.life p = .running)
    (hm : (s.world.procs p).mapping.owner = false ∨ s.children p = []) (hq : q ≠ p) :
    (s.world.procs q).uses (t.nameOf p) = false := by
  cases hu : (s.world.procs q).uses (t.nameOf p) with
  | false => rfl
  | true =>
      obtain ⟨hlq, hn⟩ := h.name q _ (shmName_ne _) hu
      have hroot := h.root_of_name hp hlp hlq hn.symm
      cases hpar : t.parent q with
      | none => exact absurd ((root_of_supervisor hpar).symm.trans hroot) hq
      | some r =>
          obtain rfl : r = p := (root_of_child hpar).symm.trans hroot
          exact absurd hpar (h.no_child hlp hm hlq)

/-- What a process owns is its name. -/
theorem owned (h : t.Lawful s) {p : P} (hn : (s.world.procs p).Named)
    (howner : (s.world.procs p).mapping.owner = true) :
    s.life p = .running ∧ t.parent p = none ∧ (s.world.procs p).mapping.name = t.nameOf p := by
  have hu : (s.world.procs p).uses (s.world.procs p).mapping.name = true := by
    simp [ShmProcess.uses]
  obtain ⟨hl, hname⟩ := h.name p _ (hn.owned howner) hu
  exact ⟨hl, h.answers p (.inl howner), hname⟩

end Lawful

/-- **Seen from the name space**, a step of the family is none, or a disciplined one. -/
theorem world_of_step (h : t.Lawful s) (hk : s.world.Kept) {a : FamilyAct P}
    (hs : t.step s a = some s') :
    s'.world = s.world ∨ ∃ b, s.world.disciplined b ∧ s.world.step b = some s'.world := by
  cases a with
  | start p =>
      simp only [step, Option.ite_none_right_eq_some, Option.some.injEq] at hs
      obtain ⟨_, rfl⟩ := hs
      exact .inl rfl
  | spawn q c =>
      simp only [step, Option.ite_none_right_eq_some, Option.some.injEq] at hs
      obtain ⟨_, rfl⟩ := hs
      exact .inl rfl
  | wait q c =>
      simp only [step, Option.ite_none_right_eq_some, Option.some.injEq] at hs
      obtain ⟨_, rfl⟩ := hs
      exact .inl rfl
  | create p =>
      simp only [step, FamilyState.on, Option.ite_none_right_eq_some, Option.map_eq_some_iff] at hs
      obtain ⟨⟨hp, hl⟩, w, hw, rfl⟩ := hs
      have hm : (s.world.procs p).mapping = {} := by
        simp only [ShmWorld.step, Option.ite_none_right_eq_some] at hw
        exact hw.1.2
      refine .inr ⟨.create p _, ⟨shmName_ne _, ?_⟩, hw⟩
      intro q hq
      exact h.unused hp hl (.inl (by rw [hm])) hq
  | attach p =>
      simp only [step, FamilyState.on, Option.ite_none_right_eq_some, Option.map_eq_some_iff] at hs
      obtain ⟨⟨hp, hl⟩, w, hw, rfl⟩ := hs
      obtain ⟨q, hq⟩ := Option.ne_none_iff_exists'.mp hp
      exact .inr ⟨.attach p _, (h.waits p q hq hl).2.1, hw⟩
  | detach p =>
      simp only [step, FamilyState.on, Option.ite_none_right_eq_some, Option.map_eq_some_iff] at hs
      obtain ⟨⟨hl, hwaited⟩, w, hw, rfl⟩ := hs
      refine .inr ⟨.detach p, ?_, hw⟩
      intro howner q hq
      obtain ⟨_, hp, hname⟩ := h.owned (hk.named p) howner
      rw [hname]
      exact h.unused hp hl (.inr (hwaited hp)) hq
  | call p good =>
      simp only [step, FamilyState.on, Option.ite_none_right_eq_some, Option.map_eq_some_iff] at hs
      obtain ⟨_, w, hw, rfl⟩ := hs
      exact .inr ⟨.step p good, trivial, hw⟩
  | finish p =>
      simp only [step, FamilyState.on, Option.ite_none_right_eq_some, Option.map_eq_some_iff] at hs
      obtain ⟨_, w, hw, rfl⟩ := hs
      exact .inr ⟨.kill p, trivial, hw⟩

omit [DecidableEq P] in
/-- A process moves within the name space. Its name may cease to be ready if it has no running
child. -/
theorem Lawful.move (h : t.Lawful s) (hk : s.world.Kept) {w : ShmWorld P} {p : P}
    (hprocs : ∀ q, q ≠ p → w.procs q = s.world.procs q)
    (hname : ∀ name, name ≠ "" → (w.procs p).uses name = true →
      s.life p = .running ∧ name = t.nameOf p)
    (hanswers : (w.procs p).mapping.owner = true ∨ (w.procs p).pc.creating ≠ none →
      t.parent p = none)
    (hchild : (∀ c, s.life c = .running → t.parent c ≠ some p))
    (hready : ∀ name, s.world.ready name = true → w.ready name = true
      ∨ (name = t.nameOf p ∧ t.parent p = none ∧ s.life p = .running))
    (hself : (w.procs p).pc = .idle → (w.procs p).mapping.owner = true →
      w.ready (t.nameOf p) = true) : t.Lawful { s with world := w } := by
  have hkeep : ∀ q, s.life q = .running → t.root q ≠ p → s.world.ready (t.nameOf q) = true →
      w.ready (t.nameOf q) = true := by
    intro q hlq hq hr
    refine (hready _ hr).resolve_right ?_
    rintro ⟨hn, hp, hlp⟩
    exact hq (h.root_of_name hp hlp hlq hn)
  refine ⟨?_, ?_, h.alone, ?_, ?_⟩
  · intro q name hne hu
    by_cases hq : q = p
    · subst hq
      exact hname name hne hu
    · rw [hprocs q hq] at hu
      exact h.name q name hne hu
  · intro q ha
    by_cases hq : q = p
    · subst hq
      exact hanswers ha
    · rw [hprocs q hq] at ha
      exact h.answers q ha
  · intro c q hcq hc
    have hq : q ≠ p := by
      rintro rfl
      exact hchild c hc hcq
    obtain ⟨hpar, hr, hw⟩ := h.waits c q hcq hc
    refine ⟨hpar, hkeep c hc (by rw [root_of_child hcq]; exact hq) hr, ?_⟩
    intro hlq
    rw [hprocs q hq]
    exact hw hlq
  · intro q hpc howner
    by_cases hq : q = p
    · subst hq
      exact hself hpc howner
    · rw [hprocs q hq] at hpc howner
      obtain ⟨hlq, hpar, _⟩ := h.owned (hk.named q) howner
      exact hkeep q hlq (by rw [root_of_supervisor hpar]; exact hq) (h.ready q hpc howner)

theorem lawful_start {p : P} (h : t.Lawful s) (hok : t.freshPid s (.start p))
    (hs : t.step s (.start p) = some s') : t.Lawful s' := by
  simp only [step, Option.ite_none_right_eq_some, Option.some.injEq] at hs
  obtain ⟨⟨hp, hlife⟩, rfl⟩ := hs
  have hfresh : ∀ q, s.life q = .running → t.pid (t.root q) ≠ t.pid p := hok p rfl
  have hrun : ∀ q, (s.become p .running).life q = .running → q = p ∨ s.life q = .running := by
    intro q hq
    by_cases he : q = p
    · exact .inl he
    · exact .inr (by simpa [FamilyState.become, he] using hq)
  refine ⟨?_, h.answers, ?_, ?_, h.ready⟩
  · intro q name hne hu
    obtain ⟨hl, hn⟩ := h.name q name hne hu
    refine ⟨?_, hn⟩
    by_cases he : q = p
    · subst he
      exact Function.update_self ..
    · simpa [FamilyState.become, he] using hl
  · intro q r hq hlq hlr hpid
    rcases hrun q hlq with rfl | hlq'
    · rcases hrun r hlr with rfl | hlr'
      · exact root_of_supervisor hq
      · exact absurd hpid (hfresh r hlr')
    · rcases hrun r hlr with rfl | hlr'
      · rw [root_of_supervisor hp] at hpid
        exact absurd (by rw [root_of_supervisor hq]; exact hpid.symm) (hfresh q hlq')
      · exact h.alone q r hq hlq' hlr' hpid
  · intro c q hcq hlc
    have hlc' : s.life c = .running := (hrun c hlc).resolve_left (by rintro rfl; simp [hp] at hcq)
    obtain ⟨hpar, hr, hw⟩ := h.waits c q hcq hlc'
    refine ⟨hpar, hr, ?_⟩
    intro hlq
    refine hw ((hrun q hlq).resolve_left ?_)
    rintro rfl
    exact hfresh c hlc' (by rw [root_of_child hcq])

theorem lawful_spawn {q c : P} (h : t.Lawful s) (hs : t.step s (.spawn q c) = some s') :
    t.Lawful s' := by
  simp only [step, Option.ite_none_right_eq_some, Option.some.injEq] at hs
  obtain ⟨⟨hcq, hpar, hlq, hlc, hpc, howner⟩, rfl⟩ := hs
  have hrun : ∀ r, (s.become c .running).life r = .running → r = c ∨ s.life r = .running := by
    intro r hr
    by_cases he : r = c
    · exact .inl he
    · exact .inr (by simpa [FamilyState.become, he] using hr)
  have hsup : ∀ {r}, t.parent r = none → r ≠ c := by
    rintro r hr rfl
    simp [hcq] at hr
  have hname : t.nameOf c = t.nameOf q := by
    simp only [nameOf, root_of_child hcq, root_of_supervisor hpar]
  refine ⟨?_, h.answers, ?_, ?_, h.ready⟩
  · intro r name hne hu
    obtain ⟨hl, hn⟩ := h.name r name hne hu
    have he : r ≠ c := by
      rintro rfl
      simp [hlc] at hl
    exact ⟨by simpa [FamilyState.become, FamilyState.setChildren, he] using hl, hn⟩
  · intro p r hp hlp hlr hpid
    have hlp' := (hrun p hlp).resolve_left (hsup hp)
    rcases hrun r hlr with rfl | hlr
    · rw [root_of_child hcq] at hpid ⊢
      simpa [root_of_supervisor hpar] using
        h.alone p q hp hlp' hlq (by rw [root_of_supervisor hpar]; exact hpid)
    · exact h.alone p r hp hlp' hlr hpid
  · intro c' q' hcq' hlc'
    rcases hrun c' hlc' with rfl | hlc'
    · obtain rfl : q = q' := Option.some.inj (hcq.symm.trans hcq')
      refine ⟨hpar, ?_, fun _ => ⟨hpc, howner, ?_⟩⟩
      · rw [hname]
        exact h.ready q hpc howner
      · simp [FamilyState.setChildren, FamilyState.become]
    · obtain ⟨hpar', hr, hw⟩ := h.waits c' q' hcq' hlc'
      refine ⟨hpar', hr, ?_⟩
      intro hlq'
      obtain ⟨hpc', howner', hmem⟩ := hw ((hrun q' hlq').resolve_left (hsup hpar'))
      refine ⟨hpc', howner', ?_⟩
      show c' ∈ Function.update s.children q (c :: s.children q) q'
      by_cases he : q' = q
      · subst he
        rw [Function.update_self]
        exact List.mem_cons_of_mem _ hmem
      · rw [Function.update_of_ne he]
        exact hmem

theorem lawful_wait {q c : P} (h : t.Lawful s) (hs : t.step s (.wait q c) = some s') :
    t.Lawful s' := by
  simp only [step, Option.ite_none_right_eq_some, Option.some.injEq] at hs
  obtain ⟨⟨_, _, hlc⟩, rfl⟩ := hs
  refine ⟨h.name, h.answers, h.alone, ?_, h.ready⟩
  intro c' q' hcq' hlc'
  obtain ⟨hpar, hr, hw⟩ := h.waits c' q' hcq' hlc'
  refine ⟨hpar, hr, ?_⟩
  intro hlq'
  obtain ⟨hpc, howner, hmem⟩ := hw hlq'
  refine ⟨hpc, howner, ?_⟩
  show c' ∈ Function.update s.children q ((s.children q).erase c) q'
  by_cases he : q' = q
  · subst he
    rw [Function.update_self]
    refine (List.mem_erase_of_ne ?_).mpr hmem
    -- what has been waited for has ended
    rintro rfl
    have hrun : s.life c' = .running := hlc'
    rw [hlc] at hrun
    cases hrun
  · rw [Function.update_of_ne he]
    exact hmem

theorem lawful_create {p : P} (h : t.Lawful s) (hk : s.world.Kept)
    (hs : t.step s (.create p) = some s') : t.Lawful s' := by
  simp only [step, FamilyState.on, ShmWorld.step, Option.ite_none_right_eq_some,
    Option.map_eq_some_iff, Option.some.injEq] at hs
  obtain ⟨⟨hp, hl⟩, w, ⟨⟨hpc, hm⟩, rfl⟩, rfl⟩ := hs
  refine h.move hk (fun q hq => ShmWorld.set_procs_of_ne hq _) ?_ (fun _ => hp)
    (fun c hc => h.no_child hl (.inl (by rw [hm])) hc) ?_ ?_
  · intro name hne hu
    refine ⟨hl, ?_⟩
    simpa [ShmProcess.uses, ShmPc.creating, ShmPc.opening, hm, Ne.symm hne, eq_comm] using hu
  · intro name hr
    by_cases he : name = t.nameOf p
    · exact .inr ⟨he, hp, hl⟩
    · exact .inl (by simpa [he] using hr)
  · intro hidle
    simp at hidle

theorem lawful_attach {p : P} (h : t.Lawful s) (hk : s.world.Kept)
    (hs : t.step s (.attach p) = some s') : t.Lawful s' := by
  simp only [step, FamilyState.on, ShmWorld.step, Option.ite_none_right_eq_some,
    Option.map_eq_some_iff, Option.some.injEq] at hs
  obtain ⟨⟨hp, hl⟩, w, ⟨⟨hpc, hm⟩, rfl⟩, rfl⟩ := hs
  refine h.move hk (fun q hq => ShmWorld.set_procs_of_ne hq _) ?_ ?_
    (fun c hc hcp => hp (h.waits c p hcp hc).1) (fun _ hr => .inl hr) ?_
  · intro name hne hu
    refine ⟨hl, ?_⟩
    simpa [ShmProcess.uses, ShmPc.creating, ShmPc.opening, hm, Ne.symm hne, eq_comm] using hu
  · intro ha
    simp [ShmPc.creating, hm] at ha
  · intro hidle
    simp at hidle

theorem lawful_detach {p : P} (h : t.Lawful s) (hk : s.world.Kept)
    (hs : t.step s (.detach p) = some s') : t.Lawful s' := by
  simp only [step, FamilyState.on, ShmWorld.step, Option.ite_none_right_eq_some,
    Option.map_eq_some_iff, Option.some.injEq] at hs
  obtain ⟨⟨hl, hwaited⟩, w, ⟨hpc, rfl⟩, rfl⟩ := hs
  refine h.move hk (fun q hq => ShmWorld.set_procs_of_ne hq _) ?_ ?_ ?_ ?_ ?_
  · intro name hne hu
    refine h.name p name hne ?_
    simpa [ShmProcess.uses, ShmPc.creating, ShmPc.opening, hpc] using hu
  · intro ha
    exact h.answers p (by simpa [ShmPc.creating, hpc] using ha)
  · intro c hc hcp
    exact h.no_child hl (.inr (hwaited (h.waits c p hcp hc).1)) hc hcp
  · intro name hr
    by_cases howner : (s.world.procs p).mapping.owner = true
    · obtain ⟨_, hp, hname⟩ := h.owned (hk.named p) howner
      by_cases he : name = t.nameOf p
      · exact .inr ⟨he, hp, hl⟩
      · exact .inl (by simpa [howner, hname, he] using hr)
    · exact .inl (by simpa [howner] using hr)
  · intro hidle
    simp at hidle

theorem lawful_call {p : P} {good : Bool} (h : t.Lawful s) (hk : s.world.Kept)
    (hs : t.step s (.call p good) = some s') : t.Lawful s' := by
  simp only [step, FamilyState.on, ShmWorld.step, Option.ite_none_right_eq_some,
    Option.map_eq_some_iff] at hs
  obtain ⟨hl, w, ⟨⟨k', p'⟩, hp', rfl⟩, rfl⟩ := hs
  have hacc := hk.accounts p
  refine h.move hk (fun q hq => ShmWorld.set_procs_of_ne hq _) ?_ ?_ ?_ ?_ ?_
  · intro name hne hu
    rw [ShmWorld.set_procs_self] at hu
    exact h.name p name hne ((ShmProcess.narrows_step hacc hp').uses name hne hu)
  · intro ha
    rw [ShmWorld.set_procs_self] at ha
    exact h.answers p (ShmProcess.answers_step hacc hp' ha)
  · intro c hc hcp
    -- the supervisor of a running process is not inside a call
    obtain ⟨_, _, hw⟩ := h.waits c p hcp hc
    simp [ShmProcess.step, (hw hl).1] at hp'
  · exact fun name hr => .inl (by simp [hr])
  · intro hidle howner
    rw [ShmWorld.set_procs_self] at hidle howner
    obtain ⟨name, o, hb, rfl⟩ := ShmProcess.owner_step hacc hp' hidle howner
    have hu := ShmProcess.uses_of_excludes (ShmProcess.excludes_of_building hb)
    have hne := (hk.named p).of_excludes (ShmProcess.excludes_of_building hb)
    obtain ⟨_, rfl⟩ := h.name p name hne hu
    simp [hb]

theorem lawful_finish {p : P} (h : t.Lawful s) (hs : t.step s (.finish p) = some s') :
    t.Lawful s' := by
  simp only [step, FamilyState.on, ShmWorld.step, Option.ite_none_right_eq_some,
    Option.map_eq_some_iff, Option.some.injEq] at hs
  obtain ⟨hl, w, rfl, rfl⟩ := hs
  have hrun : ∀ q, (s.become p .ended).life q = .running → q ≠ p ∧ s.life q = .running := by
    intro q hq
    have he : q ≠ p := by
      rintro rfl
      simp [FamilyState.become] at hq
    exact ⟨he, by simpa [FamilyState.become, he] using hq⟩
  refine ⟨?_, ?_, ?_, ?_, ?_⟩
  · intro q name hne hu
    have he : q ≠ p := by
      rintro rfl
      simp [FamilyState.become, ShmProcess.uses, ShmPc.creating, ShmPc.opening, Ne.symm hne] at hu
    rw [ShmWorld.set_procs_of_ne he] at hu
    obtain ⟨hlq, hn⟩ := h.name q name hne hu
    exact ⟨by simpa [FamilyState.become, he] using hlq, hn⟩
  · intro q ha
    by_cases he : q = p
    · subst he
      simp [FamilyState.become, ShmPc.creating] at ha
    · rw [ShmWorld.set_procs_of_ne he] at ha
      exact h.answers q ha
  · intro q r hq hlq hlr
    exact h.alone q r hq (hrun q hlq).2 (hrun r hlr).2
  · intro c q hcq hlc
    obtain ⟨hpar, hr, hw⟩ := h.waits c q hcq (hrun c hlc).2
    refine ⟨hpar, hr, ?_⟩
    intro hlq
    rw [ShmWorld.set_procs_of_ne (hrun q hlq).1]
    exact hw (hrun q hlq).2
  · intro q hpc howner
    have he : q ≠ p := by
      rintro rfl
      simp at hpc
    rw [ShmWorld.set_procs_of_ne he] at hpc howner
    exact h.ready q hpc howner

/-- **Every step keeps it.** -/
theorem lawful_step {a : FamilyAct P} (h : t.Lawful s) (hk : s.world.Kept)
    (hok : t.freshPid s a) (hs : t.step s a = some s') : t.Lawful s' := by
  cases a with
  | start p => exact lawful_start h hok hs
  | spawn q c => exact lawful_spawn h hs
  | create p => exact lawful_create h hk hs
  | attach p => exact lawful_attach h hk hs
  | detach p => exact lawful_detach h hk hs
  | call p good => exact lawful_call h hk hs
  | wait q c => exact lawful_wait h hs
  | finish p => exact lawful_finish h hs

omit [DecidableEq P] in
theorem lawful_init (h : s.Start) : t.Lawful s := by
  obtain ⟨⟨_, hprocs, hready⟩, hlife, _⟩ := h
  refine ⟨?_, ?_, ?_, ?_, ?_⟩
  · intro p name hne hu
    rw [hprocs p] at hu
    simp [ShmProcess.uses, ShmPc.creating, ShmPc.opening, Ne.symm hne] at hu
  · intro p ha
    rw [hprocs p] at ha
    simp [ShmPc.creating] at ha
  · intro p q _ hlp
    rw [hlife p] at hlp
    cases hlp
  · intro c q _ hlc
    rw [hlife c] at hlc
    cases hlc
  · intro p _ howner
    rw [hprocs p] at howner
    cases howner

/-- The name space of a family at any time: a disciplined run has led there. -/
theorem lawful_reachable (h : Transition.Reachable t.step t.freshPid FamilyState.Start s) :
    t.Lawful s ∧ Transition.Reachable ShmWorld.step ShmWorld.disciplined ShmWorld.Start s.world := by
  refine h.invariant (I := fun s => t.Lawful s ∧ Transition.Reachable ShmWorld.step
    ShmWorld.disciplined ShmWorld.Start s.world) ?_ ?_
  · exact fun s hs => ⟨lawful_init hs, .init hs.1⟩
  · rintro s a s' ⟨hl, hr⟩ hok hs
    have hk := ShmWorld.kept_reachable hr
    refine ⟨lawful_step hl hk hok hs, ?_⟩
    rcases world_of_step hl hk hs with he | ⟨b, hd, hw⟩
    · rw [he]
      exact hr
    · exact hr.tail hd hw

/-! ## What every process maps -/

omit [DecidableEq P] in
/-- What an attached process sees is behind its own name. -/
theorem Lawful.mapped (h : t.Lawful s) (hk : s.world.Kept) {p : P} {o : ShmObj}
    (hpc : (s.world.procs p).pc = .idle) (ho : (s.world.procs p).mapping.layout = some o) :
    s.world.kernel.names (t.nameOf p) = some o ∧ (s.world.kernel.objects o).Complete := by
  have hsees := hk.sees p
  simp only [ShmProcess.Sees, hpc] at hsees
  obtain ⟨hname, hc⟩ := hsees o ho
  have hne := hk.apart.nonempty _ o hname
  obtain ⟨_, hown⟩ := h.name p _ hne (by simp [ShmProcess.uses])
  rw [hown] at hname
  exact ⟨hname, hc⟩

omit [DecidableEq P] in
/-- An owner has its mapping open. -/
theorem layout_of_owner (hk : s.world.Kept) {p : P} (hpc : (s.world.procs p).pc = .idle)
    (howner : (s.world.procs p).mapping.owner = true) :
    ∃ o, (s.world.procs p).mapping.layout = some o := by
  have hacc := hk.accounts p
  simp only [ShmProcess.Accounts, hpc] at hacc
  refine Option.ne_none_iff_exists'.mp ?_
  intro hnone
  rw [hacc.2.2.2 hnone] at howner
  cases howner

omit [DecidableEq P] in
/-- Who answers for a name that is shown. -/
theorem Lawful.made (h : t.Lawful s) {p : P} {name : String} (hne : name ≠ "")
    (hm : (s.world.procs p).made name = true) :
    t.parent p = none ∧ s.life p = .running ∧ name = t.nameOf p := by
  have howns := ShmProcess.owns_of_made hm
  simp only [ShmProcess.owns, Bool.or_eq_true, Bool.and_eq_true, decide_eq_true_eq] at howns
  have hu : (s.world.procs p).uses name = true := by
    simp only [ShmProcess.uses, Bool.or_eq_true, decide_eq_true_eq]
    exact howns.imp .inl And.right
  refine ⟨h.answers p ?_, h.name p name hne hu⟩
  exact howns.symm.imp And.left fun hc => by simp [hc]

/-- **All processes of a family map one object.** Whatever supervisors run and are killed on one
name space, no access to a mapping is a `SIGBUS` and `map_fd` refuses nobody; a worker or
observer that has attached shows the complete object its supervisor constructed; between two calls
a process has open and mapped what its `ShmMapping` says and nothing else; and a name is there only
while a running supervisor answers for it, or because one was killed. -/
theorem one_object {s : FamilyState P}
    (h : Transition.Reachable t.step t.freshPid FamilyState.Start s) :
    (∀ p, (s.world.procs p).pc ≠ .dead true
      ∧ ShmStatus.schemaMismatch ∉ (s.world.procs p).returned)
    ∧ (∀ c q o, t.parent c = some q → s.life c = .running → (s.world.procs c).pc = .idle →
        (s.world.procs c).mapping.layout = some o →
        s.world.kernel.names (t.nameOf c) = some o ∧ (s.world.kernel.objects o).Complete
          ∧ (s.life q = .running → (s.world.procs q).mapping.layout = some o))
    ∧ (∀ p, (s.world.procs p).pc = .idle →
        (s.world.procs p).fds = (s.world.procs p).mapping.fd.toList
          ∧ (s.world.procs p).maps = (s.world.procs p).mapping.layout.toList)
    ∧ (∀ name o, s.world.kernel.names name = some o → s.world.abandoned name = true
        ∨ ∃ p, t.parent p = none ∧ s.life p = .running ∧ name = t.nameOf p) := by
  obtain ⟨hl, hr⟩ := lawful_reachable h
  have hk := ShmWorld.kept_reachable hr
  refine ⟨?_, ?_, ?_, ?_⟩
  · intro p
    refine ⟨?_, hk.fits p⟩
    intro hdead
    have hsees := hk.sees p
    simp [ShmProcess.Sees, hdead] at hsees
  · intro c q o hcq hlc hpc ho
    obtain ⟨hname, hc⟩ := hl.mapped hk hpc ho
    refine ⟨hname, hc, ?_⟩
    intro hlq
    obtain ⟨hpar, _, hw⟩ := hl.waits c q hcq hlc
    obtain ⟨hidle, howner, _⟩ := hw hlq
    obtain ⟨o', ho'⟩ := layout_of_owner hk hidle howner
    -- supervisor and child look up one name
    have hsame : t.nameOf q = t.nameOf c := by
      simp only [nameOf, root_of_child hcq, root_of_supervisor hpar]
    have hname' := (hl.mapped hk hidle ho').1
    rw [hsame, hname] at hname'
    rw [ho', hname']
  · intro p hpc
    have hacc := hk.accounts p
    simp only [ShmProcess.Accounts, hpc] at hacc
    exact ⟨hacc.1, hacc.2.1⟩
  · intro name o ho
    refine (hk.left name o ho).imp_right ?_
    rintro ⟨p, hm⟩
    exact ⟨p, hl.made (hk.apart.nonempty name o ho) hm⟩

/-- A supervisor with the process id 7, and what it forks. -/
def pairFamily : Family Bool where
  pid p := bif p then 8 else 7
  parent p := bif p then some false else none

/-- Nothing runs. -/
def pairStart : FamilyState Bool where
  world :=
    { kernel := { names := fun _ => none, objects := fun _ => {}, next := 0 }
      procs := fun _ => {}
      ready := fun _ => false
      abandoned := fun _ => false }
  life _ := .unborn
  children _ := []

/-- The supervisor creates its mapping and forks a process that attaches. -/
def pairRun : List (FamilyAct Bool) :=
  [.create false, .call false true, .call false true, .call false true, .call false true,
    .call false true, .call false true, .spawn false true, .attach true, .call true true,
    .call true true, .call true true, .call true true]

theorem one_object_pair : ∃ s : FamilyState Bool,
    (s.life false = .running ∧ s.life true = .running ∧ (s.world.procs true).pc = .idle
      ∧ (s.world.procs true).mapping.layout = some 0)
    ∧ (s.world.kernel.names "/rh-7" = some 0 ∧ (s.world.kernel.objects 0).Complete
      ∧ (s.world.procs false).mapping.layout = some 0) := by
  have hsome : (Transition.execWhen pairFamily.step
      (fun _ a => decide (a ≠ .start true ∧ a ≠ .start false))
      (pairStart.become false .running) pairRun).any
      (fun s => decide (s.life false = .running ∧ s.life true = .running
        ∧ (s.world.procs true).pc = .idle
        ∧ (s.world.procs true).mapping.layout = some 0)) = true := by
    decide +kernel
  obtain ⟨s, hexec, hs⟩ := Option.any_eq_true _ _ |>.mp hsome
  have hs := of_decide_eq_true hs
  refine ⟨s, hs, ?_⟩
  have hinit : Transition.Reachable pairFamily.step pairFamily.freshPid FamilyState.Start
      pairStart := .init ⟨⟨fun _ => rfl, fun _ => rfl, fun _ => rfl⟩, fun _ => rfl, fun _ => rfl⟩
  have hstart : pairFamily.freshPid pairStart (.start false) := by
    intro p _ q hq
    cases hq
  have hguard : ∀ (s : FamilyState Bool) (a : FamilyAct Bool),
      decide (a ≠ .start true ∧ a ≠ .start false) = true → pairFamily.freshPid s a := by
    rintro s a ha p rfl
    cases p <;> simp at ha
  have hr := (hinit.tail hstart (by rfl)).execWhen hguard pairRun hexec
  obtain ⟨hname, hc, hsame⟩ := (one_object hr).2.1 true false 0 rfl hs.2.1 hs.2.2.1 hs.2.2.2
  exact ⟨hname, hc, hsame hs.1⟩

end Family

end RateHub
