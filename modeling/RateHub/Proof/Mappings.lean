import RateHub.Lib.Transition
import RateHub.Process.ShmRegion

/-!
# Everybody maps the same object

A name is looked up twice: when a process attaches, and when its owner unlinks it. In between
nobody else may take it. The supervisor makes sure of this by its order of steps: its name
holds its process id, it starts its children after `shm_create` and waits for them before
`shm_close`. `disciplined` says so for single steps, and what follows is that every process that
attaches finds the object its supervisor constructed, complete, that no check of `map_fd` ever
refuses it, and that a name outlives its owner only if the owner was killed.

What each process has open and mapped is what its `ShmMapping` says, in every run.
-/

namespace RateHub

/-! ## Descriptors and mappings -/

/-- What a process has open and mapped, by where it stands. -/
def ShmProcess.Accounts (p : ShmProcess) : Prop :=
  match p.pc with
  | .truncate _ o => p.fds = [o] ∧ p.maps = [] ∧ p.mapping = {}
  | .mapNew _ o => p.fds = [o] ∧ p.maps = [] ∧ p.mapping = {}
  | .closeNew _ o => p.fds = [o] ∧ p.maps = [] ∧ p.mapping = {}
  | .mapOld _ o => p.fds = [o] ∧ p.maps = [] ∧ p.mapping = {}
  | .closeOld o _ => p.fds = [o] ∧ p.maps = [] ∧ p.mapping = {}
  | .putHeader _ o => p.fds = [o] ∧ p.maps = [o] ∧ p.mapping = {}
  | .build _ o => p.fds = [o] ∧ p.maps = [o] ∧ p.mapping = {}
  | .testMagic _ o => p.fds = [o] ∧ p.maps = [o] ∧ p.mapping = {}
  | .testSchema _ o => p.fds = [o] ∧ p.maps = [o] ∧ p.mapping = {}
  | .unmapOld o => p.fds = [o] ∧ p.maps = [o] ∧ p.mapping = {}
  | .idle =>
      p.fds = p.mapping.fd.toList ∧ p.maps = p.mapping.layout.toList
        ∧ p.mapping.fd = p.mapping.layout ∧ (p.mapping.layout = none → p.mapping = {})
  | .unmap =>
      p.fds = p.mapping.fd.toList ∧ p.maps = p.mapping.layout.toList
        ∧ p.mapping.fd = p.mapping.layout ∧ (p.mapping.layout = none → p.mapping = {})
  | .close => p.fds = p.mapping.fd.toList ∧ p.maps = [] ∧ p.mapping.layout = none
  | .unlink => p.fds = [] ∧ p.maps = [] ∧ p.mapping.layout = none ∧ p.mapping.fd = none
  | _ => p.fds = [] ∧ p.maps = [] ∧ p.mapping = {}

namespace ShmProcess

variable {k k' : ShmKernel} {p p' : ShmProcess} {good : Bool}

theorem accounts_init : ({} : ShmProcess).Accounts := ⟨rfl, rfl, rfl, fun _ => rfl⟩

/-- **One step of a call.** -/
theorem Accounts.step (h : p.Accounts) (hs : p.step k good = some (k', p')) : p'.Accounts := by
  obtain ⟨pc, mapping, fds, maps, returned⟩ := p
  unfold ShmProcess.step at hs
  cases pc <;> simp only [Accounts] at h <;> simp only [reduceCtorEq] at hs
  case unlink =>
    obtain ⟨rfl, rfl, hl, hf⟩ := h
    obtain ⟨_, rfl⟩ := Prod.mk.inj (Option.some.inj hs)
    obtain ⟨layout, fd, owner, name⟩ := mapping
    obtain rfl : layout = none := hl
    obtain rfl : fd = none := hf
    exact ⟨rfl, rfl, rfl, fun _ => rfl⟩
  case unmap =>
    obtain ⟨rfl, rfl, hsame, hnone⟩ := h
    split at hs <;> rename_i hl <;> obtain ⟨_, rfl⟩ := Prod.mk.inj (Option.some.inj hs)
    · refine ⟨?_, ?_, rfl⟩ <;> simp_all
    · refine ⟨?_, ?_, ?_⟩ <;> simp_all
  case close =>
    obtain ⟨rfl, rfl, hl⟩ := h
    split at hs <;> rename_i hf <;> obtain ⟨_, rfl⟩ := Prod.mk.inj (Option.some.inj hs)
    · refine ⟨?_, rfl, hl, rfl⟩
      simp_all
    · refine ⟨?_, rfl, hl, hf⟩
      simp_all
  all_goals
    obtain ⟨rfl, rfl, rfl⟩ := h
    repeat' split at hs
    all_goals
      obtain ⟨_, rfl⟩ := Prod.mk.inj (Option.some.inj hs)
      simp [Accounts, ret, keep]

/-! ## Whose turn it is with a name -/

/-- The process owns the name and is closing its mapping. -/
def closing (p : ShmProcess) (name : String) : Bool :=
  p.mapping.owner && decide (p.mapping.name = name)
    && (decide (p.pc = .unmap) || decide (p.pc = .close) || decide (p.pc = .unlink))

/-- Nobody else may have to do with the name. -/
def excludes (p : ShmProcess) (name : String) : Bool :=
  decide (p.pc.creating = some name) || p.closing name

/-- The name shows an object that the process has made. -/
def made (p : ShmProcess) (name : String) : Bool :=
  (decide (p.pc.creating = some name) && decide (p.pc ≠ .unlinkOld name)
      && decide (p.pc ≠ .openNew name))
    || (p.mapping.owner && decide (p.mapping.name = name))

/-- What the names' side of the system can come to by a step of a process that excludes the
others from `name`. -/
inductive KernelMove (k : ShmKernel) (name : String) : ShmKernel → Prop
  | stay : KernelMove k name k
  | unlink : KernelMove k name (k.unlink name)
  | create (hfree : k.names name = none) : KernelMove k name (k.create name)
  | put {o : ShmObj} (hname : k.names name = some o) (f : ShmObject → ShmObject) :
      KernelMove k name (k.put o f)

end ShmProcess

/-- The constructor has run, and what `map_fd` checks is there. -/
structure ShmObject.Complete (object : ShmObject) : Prop where
  sized : object.sized = true
  magic : object.magic = kShmMagic
  schema : object.schema = kSchemaVersion
  built : object.built = true

/-- The names that are shown show objects of their own, and the empty one is not among them. -/
structure ShmKernel.Apart (k : ShmKernel) : Prop where
  inj : ∀ name name' o, k.names name = some o → k.names name' = some o → name = name'
  lt : ∀ name o, k.names name = some o → o < k.next
  nonempty : ∀ name o, k.names name = some o → name ≠ ""

namespace ShmProcess

variable {k k' : ShmKernel} {p p' : ShmProcess} {good : Bool}

/-- What a process relies on. -/
def Sees (k : ShmKernel) (p : ShmProcess) : Prop :=
  match p.pc with
  | .idle => ∀ o, p.mapping.layout = some o →
      k.names p.mapping.name = some o ∧ (k.objects o).Complete
  | .truncate name o => k.names name = some o
  | .closeNew name o => k.names name = some o
  | .mapNew name o => k.names name = some o ∧ (k.objects o).sized = true
  | .putHeader name o => k.names name = some o ∧ (k.objects o).sized = true
  | .build name o =>
      k.names name = some o ∧ (k.objects o).sized = true ∧ (k.objects o).magic = kShmMagic
        ∧ (k.objects o).schema = kSchemaVersion
  | .openOld name => ∃ o, k.names name = some o ∧ (k.objects o).Complete
  | .mapOld name o => k.names name = some o ∧ (k.objects o).Complete
  | .testMagic name o => k.names name = some o ∧ (k.objects o).Complete
  | .testSchema name o => k.names name = some o ∧ (k.objects o).Complete
  | .unmapOld _ => False
  | .closeOld _ status => status ≠ .schemaMismatch
  | .dead bus => bus = false
  | _ => True

/-- A process whose names and objects are left alone. -/
theorem Sees.frame (h : p.Sees k)
    (hn : ∀ name o, p.uses name = true → k.names name = some o → k'.names name = some o)
    (ho : ∀ name o, p.uses name = true → k.names name = some o → k'.objects o = k.objects o) :
    p.Sees k' := by
  unfold Sees at h ⊢
  cases hpc : p.pc with
  | idle =>
      simp only [hpc] at h ⊢
      intro o hl
      obtain ⟨hname, hc⟩ := h o hl
      have hu : p.uses p.mapping.name = true := by simp [uses]
      exact ⟨hn _ o hu hname, by rw [ho _ o hu hname]; exact hc⟩
  | truncate name o =>
      simp only [hpc] at h ⊢
      exact hn _ o (by simp [uses, hpc, ShmPc.creating]) h
  | closeNew name o =>
      simp only [hpc] at h ⊢
      exact hn _ o (by simp [uses, hpc, ShmPc.creating]) h
  | openOld name =>
      simp only [hpc] at h ⊢
      obtain ⟨o, hname, hc⟩ := h
      have hu : p.uses name = true := by simp [uses, hpc, ShmPc.opening]
      exact ⟨o, hn _ o hu hname, by rw [ho _ o hu hname]; exact hc⟩
  | unlinkOld name => trivial
  | openNew name => trivial
  | unlinkNew name => trivial
  | unmapOld o =>
      simp only [hpc] at h
  | closeOld o status =>
      simp only [hpc] at h ⊢
      exact h
  | dead bus =>
      simp only [hpc] at h ⊢
      exact h
  | unmap => trivial
  | close => trivial
  | unlink => trivial
  | _ name o =>
      simp only [hpc] at h ⊢
      have hu : p.uses name = true := by simp [uses, hpc, ShmPc.creating, ShmPc.opening]
      exact ⟨hn _ o hu h.1, by rw [ho _ o hu h.1]; exact h.2⟩

namespace KernelMove

variable {name name' : String} {o : ShmObj}

theorem names_of_ne (h : KernelMove k name k') (hne : name' ≠ name) :
    k'.names name' = k.names name' := by
  cases h with
  | stay => rfl
  | unlink => exact Function.update_of_ne hne _ _
  | create hfree => exact Function.update_of_ne hne _ _
  | put hname f => rfl

/-- An object behind another name is left alone. -/
theorem objects_of_ne (h : KernelMove k name k') (hk : k.Apart) (hne : name' ≠ name)
    (ho : k.names name' = some o) : k'.objects o = k.objects o := by
  cases h with
  | stay => rfl
  | unlink => rfl
  | create hfree => exact Function.update_of_ne (Nat.ne_of_lt (hk.lt _ _ ho)) _ _
  | put hname f =>
      refine Function.update_of_ne ?_ _ _
      rintro rfl
      exact hne (hk.inj _ _ _ ho hname)

theorem apart (h : KernelMove k name k') (hk : k.Apart) (hname : name ≠ "") : k'.Apart := by
  cases h with
  | stay => exact hk
  | put hshown f => exact ⟨hk.inj, hk.lt, hk.nonempty⟩
  | unlink =>
      have hold : ∀ {name₁ o}, (k.unlink name).names name₁ = some o → k.names name₁ = some o := by
        intro name₁ o h
        by_cases he : name₁ = name
        · subst he
          simp [ShmKernel.unlink] at h
        · simpa [ShmKernel.unlink, he] using h
      exact ⟨fun _ _ _ h h' => hk.inj _ _ _ (hold h) (hold h'), fun _ _ h => hk.lt _ _ (hold h),
        fun _ _ h => hk.nonempty _ _ (hold h)⟩
  | create hfree =>
      have hold : ∀ {name₁ o}, (k.create name).names name₁ = some o →
          (name₁ = name ∧ o = k.next) ∨ (name₁ ≠ name ∧ k.names name₁ = some o) := by
        intro name₁ o h
        by_cases he : name₁ = name
        · subst he
          exact .inl ⟨rfl, by simpa [ShmKernel.create, eq_comm] using h⟩
        · exact .inr ⟨he, by simpa [ShmKernel.create, he] using h⟩
      refine ⟨?_, ?_, ?_⟩
      · intro name₁ name₂ o h₁ h₂
        rcases hold h₁ with ⟨rfl, rfl⟩ | ⟨_, h₁'⟩ <;> rcases hold h₂ with ⟨rfl, ho⟩ | ⟨_, h₂'⟩
        · rfl
        · exact absurd (hk.lt _ _ h₂') (Nat.lt_irrefl _)
        · exact absurd (ho ▸ hk.lt _ _ h₁') (Nat.lt_irrefl _)
        · exact hk.inj _ _ _ h₁' h₂'
      · intro name₁ o h
        show o < k.next + 1
        rcases hold h with ⟨_, rfl⟩ | ⟨_, h'⟩
        · exact Nat.lt_succ_self _
        · exact Nat.lt_succ_of_lt (hk.lt _ _ h')
      · intro name₁ o h
        rcases hold h with ⟨rfl, _⟩ | ⟨_, h'⟩
        · exact hname
        · exact hk.nonempty _ _ h'

end KernelMove

/-- The names a process answers for are not empty. -/
structure Named (p : ShmProcess) : Prop where
  creating : ∀ name, p.pc.creating = some name → name ≠ ""
  owned : p.mapping.owner = true → p.mapping.name ≠ ""

/-! ## One step of a call -/

/-- What a step does to the names and objects. -/
theorem step_kernel (hsees : p.Sees k) (hs : p.step k good = some (k', p')) :
    k' = k ∨ ∃ name, p.excludes name = true ∧ KernelMove k name k' := by
  unfold step at hs
  unfold Sees at hsees
  cases hpc : p.pc with
  | unlinkOld name =>
      simp only [hpc] at hs
      obtain ⟨rfl, _⟩ := Prod.mk.inj (Option.some.inj hs)
      refine .inr ⟨name, by simp [excludes, hpc, ShmPc.creating], ?_⟩
      split
      · exact .unlink
      · exact .stay
  | openNew name =>
      simp only [hpc] at hs
      split at hs <;> rename_i hgood <;> obtain ⟨rfl, _⟩ := Prod.mk.inj (Option.some.inj hs)
      · simp only [Bool.and_eq_true, Option.isNone_iff_eq_none] at hgood
        exact .inr ⟨name, by simp [excludes, hpc, ShmPc.creating], .create hgood.2⟩
      · exact .inl rfl
  | truncate name o =>
      simp only [hpc] at hs hsees
      split at hs <;> obtain ⟨rfl, _⟩ := Prod.mk.inj (Option.some.inj hs)
      · exact .inr ⟨name, by simp [excludes, hpc, ShmPc.creating], .put hsees _⟩
      · exact .inl rfl
  | putHeader name o =>
      simp only [hpc] at hs hsees
      obtain ⟨rfl, _⟩ := Prod.mk.inj (Option.some.inj hs)
      exact .inr ⟨name, by simp [excludes, hpc, ShmPc.creating], .put hsees.1 _⟩
  | build name o =>
      simp only [hpc] at hs hsees
      obtain ⟨rfl, _⟩ := Prod.mk.inj (Option.some.inj hs)
      exact .inr ⟨name, by simp [excludes, hpc, ShmPc.creating], .put hsees.1 _⟩
  | unlinkNew name =>
      simp only [hpc] at hs
      obtain ⟨rfl, _⟩ := Prod.mk.inj (Option.some.inj hs)
      exact .inr ⟨name, by simp [excludes, hpc, ShmPc.creating], .unlink⟩
  | unlink =>
      simp only [hpc] at hs
      obtain ⟨rfl, _⟩ := Prod.mk.inj (Option.some.inj hs)
      split
      · rename_i hown
        simp only [Bool.and_eq_true] at hown
        exact .inr ⟨p.mapping.name, by simp [excludes, closing, hpc, hown.1], .unlink⟩
      · exact .inl rfl
  | _ =>
      simp only [hpc, reduceCtorEq] at hs
      all_goals
        repeat' split at hs
        all_goals
          obtain ⟨rfl, _⟩ := Prod.mk.inj (Option.some.inj hs)
          exact .inl rfl

/-- A call that fails leaves a process without a mapping. -/
theorem sees_ret (hm : p.mapping = {}) (status : ShmStatus) : (p.ret status).Sees k := by
  intro o hl
  have hnone : p.mapping.layout = some o := hl
  rw [hm] at hnone
  cases hnone

/-- **What the process itself relies on.** -/
theorem Sees.step (h : p.Sees k) (hacc : p.Accounts) (hs : p.step k good = some (k', p')) :
    p'.Sees k' := by
  unfold ShmProcess.step at hs
  unfold Sees at h
  unfold Accounts at hacc
  cases hpc : p.pc with
  | idle => simp [hpc] at hs
  | dead bus => simp [hpc] at hs
  | unlinkOld name =>
      simp only [hpc] at hs
      obtain ⟨rfl, rfl⟩ := Prod.mk.inj (Option.some.inj hs)
      trivial
  | openNew name =>
      simp only [hpc] at hs hacc
      split at hs <;> obtain ⟨rfl, rfl⟩ := Prod.mk.inj (Option.some.inj hs)
      · exact Function.update_self _ _ _
      · exact sees_ret hacc.2.2 _
  | truncate name o =>
      simp only [hpc] at hs h
      split at hs <;> obtain ⟨rfl, rfl⟩ := Prod.mk.inj (Option.some.inj hs)
      · exact ⟨h, by simp [ShmKernel.put]⟩
      · exact h
  | mapNew name o =>
      simp only [hpc] at hs h
      split at hs <;> obtain ⟨rfl, rfl⟩ := Prod.mk.inj (Option.some.inj hs)
      · exact h
      · exact h.1
  | putHeader name o =>
      simp only [hpc] at hs h
      obtain ⟨rfl, rfl⟩ := Prod.mk.inj (Option.some.inj hs)
      exact ⟨h.1, by simpa [ShmKernel.put] using h.2, by simp [ShmKernel.put],
        by simp [ShmKernel.put]⟩
  | build name o =>
      simp only [hpc] at hs h
      obtain ⟨rfl, rfl⟩ := Prod.mk.inj (Option.some.inj hs)
      obtain ⟨hname, hsized, hmagic, hschema⟩ := h
      intro o' ho'
      obtain rfl := Option.some.inj ho'
      exact ⟨hname, by simpa [ShmKernel.put] using hsized, by simpa [ShmKernel.put] using hmagic,
        by simpa [ShmKernel.put] using hschema, by simp [ShmKernel.put]⟩
  | closeNew name o =>
      simp only [hpc] at hs
      obtain ⟨rfl, rfl⟩ := Prod.mk.inj (Option.some.inj hs)
      trivial
  | unlinkNew name =>
      simp only [hpc] at hs hacc
      obtain ⟨rfl, rfl⟩ := Prod.mk.inj (Option.some.inj hs)
      exact sees_ret hacc.2.2 _
  | openOld name =>
      simp only [hpc] at hs h hacc
      obtain ⟨o, hname, hc⟩ := h
      rw [hname] at hs
      simp only at hs
      split at hs <;> obtain ⟨rfl, rfl⟩ := Prod.mk.inj (Option.some.inj hs)
      · exact ⟨hname, hc⟩
      · exact sees_ret hacc.2.2 _
  | mapOld name o =>
      simp only [hpc] at hs h
      split at hs <;> obtain ⟨rfl, rfl⟩ := Prod.mk.inj (Option.some.inj hs)
      · exact h
      · simp [Sees]
  | testMagic name o =>
      -- the object is complete, so both tests of `map_fd` succeed
      simp only [hpc] at hs h
      rw [if_neg (by simp [h.2.sized]), if_neg (by simp [h.2.magic])] at hs
      obtain ⟨rfl, rfl⟩ := Prod.mk.inj (Option.some.inj hs)
      exact h
  | testSchema name o =>
      simp only [hpc] at hs h
      rw [if_neg (by simp [h.2.schema])] at hs
      obtain ⟨rfl, rfl⟩ := Prod.mk.inj (Option.some.inj hs)
      intro o' ho'
      obtain rfl := Option.some.inj ho'
      exact h
  | unmapOld o => simp only [hpc] at h
  | closeOld o status =>
      simp only [hpc] at hs hacc
      obtain ⟨rfl, rfl⟩ := Prod.mk.inj (Option.some.inj hs)
      intro o' ho'
      have hnone : p.mapping.layout = some o' := ho'
      rw [hacc.2.2] at hnone
      cases hnone
  | unmap =>
      simp only [hpc] at hs
      split at hs <;> obtain ⟨rfl, rfl⟩ := Prod.mk.inj (Option.some.inj hs) <;> trivial
  | close =>
      simp only [hpc] at hs
      split at hs <;> obtain ⟨rfl, rfl⟩ := Prod.mk.inj (Option.some.inj hs) <;> trivial
  | unlink =>
      simp only [hpc] at hs hacc
      obtain ⟨rfl, rfl⟩ := Prod.mk.inj (Option.some.inj hs)
      intro o hl
      have hnone : p.mapping.layout = some o := hl
      rw [hacc.2.2.1] at hnone
      cases hnone

/-- What a step does to the names a process has to do with: it takes up none. -/
structure Narrows (p p' : ShmProcess) : Prop where
  uses : ∀ name, name ≠ "" → p'.uses name = true → p.uses name = true
  excludes : ∀ name, name ≠ "" → p'.excludes name = true → p.excludes name = true
  named : p.Named → p'.Named

theorem narrows_step (hacc : p.Accounts) (hs : p.step k good = some (k', p')) : Narrows p p' := by
  obtain ⟨pc, mapping, fds, maps, returned⟩ := p
  unfold ShmProcess.step at hs
  unfold Accounts at hacc
  cases pc <;> simp only [reduceCtorEq] at hs hacc
  all_goals
    repeat' split at hs
    all_goals
      obtain ⟨_, rfl⟩ := Prod.mk.inj (Option.some.inj hs)
      refine ⟨?_, ?_, ?_⟩
      · intro name hne
        simp_all [uses, ret, keep, ShmPc.creating, ShmPc.opening]
      · intro name hne
        simp_all [excludes, closing, ret, keep, ShmPc.creating]
      · rintro ⟨hcreating, howned⟩
        constructor
        · intro name hname
          simp_all [ret, keep, ShmPc.creating]
        · intro howner
          simp_all [ret, keep, ShmPc.creating]

/-- A step that leaves the names alone and goes on with the process's own object. -/
theorem names_kept {name : String} {o : ShmObj} (hmade : p.made name = true → p'.made name = true)
    (h : k.names name = some o) :
    p'.made name = true ∨ (k.names name = some o ∧ p.made name = false) := by
  cases hp : p.made name with
  | true => exact .inl (hmade hp)
  | false => exact .inr ⟨h, rfl⟩

/-- **A name that is shown after a step** shows what the process has made, or was shown before and
is not the process's. -/
theorem names_step (hacc : p.Accounts) (hn : p.Named) (hs : p.step k good = some (k', p'))
    {name : String} {o : ShmObj} (h : k'.names name = some o) :
    p'.made name = true ∨ (k.names name = some o ∧ p.made name = false) := by
  obtain ⟨pc, mapping, fds, maps, returned⟩ := p
  unfold ShmProcess.step at hs
  unfold Accounts at hacc
  cases pc with
  | idle => simp at hs
  | dead bus => simp at hs
  | unlinkOld name₁ =>
      obtain ⟨rfl, rfl⟩ := Prod.mk.inj (Option.some.inj hs)
      obtain ⟨rfl, rfl, rfl⟩ := hacc
      refine .inr ⟨?_, by by_cases he : name₁ = name <;> simp [made, ShmPc.creating, he]⟩
      split at h
      · by_cases he : name = name₁
        · subst he
          simp [ShmKernel.unlink] at h
        · simpa [ShmKernel.unlink, he] using h
      · exact h
  | openNew name₁ =>
      obtain ⟨rfl, rfl, rfl⟩ := hacc
      simp only at hs
      split at hs <;> obtain ⟨rfl, rfl⟩ := Prod.mk.inj (Option.some.inj hs)
      · by_cases he : name = name₁
        · subst he
          exact .inl (by simp [made, ShmPc.creating])
        · exact .inr ⟨by simpa [ShmKernel.create, he] using h,
            by simp [made, ShmPc.creating, Ne.symm he]⟩
      · exact .inr ⟨h, by by_cases he : name₁ = name <;> simp [made, ShmPc.creating, he]⟩
  | unlinkNew name₁ =>
      obtain ⟨rfl, rfl⟩ := Prod.mk.inj (Option.some.inj hs)
      obtain ⟨rfl, rfl, rfl⟩ := hacc
      by_cases he : name = name₁
      · subst he
        simp [ShmKernel.unlink] at h
      · exact .inr ⟨by simpa [ShmKernel.unlink, he] using h,
          by simp [made, ShmPc.creating, Ne.symm he]⟩
  | unlink =>
      obtain ⟨rfl, rfl⟩ := Prod.mk.inj (Option.some.inj hs)
      simp only at h
      by_cases hown : mapping.owner = true ∧ mapping.name = name
      · -- the owner's name is gone
        obtain ⟨howner, rfl⟩ := hown
        have hne := hn.owned howner
        simp only at hne
        simp [howner, hne, ShmKernel.unlink] at h
      · refine .inr ⟨?_, by simpa [made, ShmPc.creating] using hown⟩
        split at h
        · rename_i hboth
          simp only [Bool.and_eq_true] at hboth
          have hname : name ≠ mapping.name := fun he => hown ⟨hboth.1, he.symm⟩
          simpa [ShmKernel.unlink, hname] using h
        · exact h
  | _ =>
      simp only at hs
      all_goals
        repeat' split at hs
        all_goals
          obtain ⟨rfl, rfl⟩ := Prod.mk.inj (Option.some.inj hs)
          refine names_kept ?_ h
          simp_all [made, ret, keep, ShmPc.creating]

/-- No call of the process has been refused by `map_fd`. -/
def Fits (p : ShmProcess) : Prop := ShmStatus.schemaMismatch ∉ p.returned

theorem Fits.step (hr : p.Fits) (h : p.Sees k) (hs : p.step k good = some (k', p')) :
    p'.Fits := by
  unfold ShmProcess.step at hs
  unfold Sees at h
  cases hpc : p.pc with
  | closeOld o status =>
      simp only [hpc] at hs h
      obtain ⟨_, rfl⟩ := Prod.mk.inj (Option.some.inj hs)
      simp only [Fits] at hr
      simpa [Fits, ret, hr] using Ne.symm h
  | _ =>
      simp only [hpc, reduceCtorEq] at hs
      all_goals
        repeat' split at hs
        all_goals
          obtain ⟨_, rfl⟩ := Prod.mk.inj (Option.some.inj hs)
          simpa [Fits, ret, keep] using hr

theorem uses_of_excludes {name : String} (h : p.excludes name = true) : p.uses name = true := by
  simp only [excludes, closing, Bool.or_eq_true, Bool.and_eq_true, decide_eq_true_eq] at h
  simp only [uses, Bool.or_eq_true, decide_eq_true_eq]
  rcases h with h | h
  · exact .inl (.inl h)
  · exact .inr h.1.2

theorem excludes_of_building {name : String} (h : p.pc.building = some name) :
    p.excludes name = true := by
  cases hpc : p.pc <;> simp only [hpc, ShmPc.building, reduceCtorEq] at h
  obtain rfl := Option.some.inj h
  simp [excludes, hpc, ShmPc.creating]

/-- The last step of `shm_create`. -/
theorem step_building {name : String} (h : p.pc.building = some name)
    (hs : p.step k good = some (k', p')) : ∃ o, p' = p.keep name o true := by
  unfold step at hs
  cases hpc : p.pc <;> simp only [hpc, ShmPc.building, reduceCtorEq] at h hs
  obtain rfl := Option.some.inj h
  obtain ⟨_, rfl⟩ := Prod.mk.inj (Option.some.inj hs)
  exact ⟨_, rfl⟩

theorem owns_of_made {name : String} (h : p.made name = true) : p.owns name = true := by
  simp only [made, Bool.or_eq_true, Bool.and_eq_true, decide_eq_true_eq] at h
  simp only [owns, Bool.or_eq_true, Bool.and_eq_true, decide_eq_true_eq]
  exact h.imp (fun h => h.1.1) id

theorem Named.of_excludes (hn : p.Named) {name : String} (h : p.excludes name = true) :
    name ≠ "" := by
  simp only [excludes, closing, Bool.or_eq_true, Bool.and_eq_true, decide_eq_true_eq] at h
  rcases h with h | ⟨⟨howner, rfl⟩, _⟩
  · exact hn.creating name h
  · exact hn.owned howner

end ShmProcess

/-! ## All processes -/

namespace ShmWorld

open ShmProcess (KernelMove)

variable {P : Type} [DecidableEq P] {w w' : ShmWorld P}

/-- Nobody creates a name that another process has to do with, or attaches to one that is not
ready, and nobody closes what it owns while another process has to do with it. -/
def disciplined (w : ShmWorld P) : ShmAct P → Prop
  | .create p name => name ≠ "" ∧ ∀ q, q ≠ p → (w.procs q).uses name = false
  | .attach _ name => w.ready name = true
  | .detach p =>
      (w.procs p).mapping.owner = true →
        ∀ q, q ≠ p → (w.procs q).uses (w.procs p).mapping.name = false
  | _ => True

/-- What holds in every disciplined run. -/
structure Kept (w : ShmWorld P) : Prop where
  accounts : ∀ p, (w.procs p).Accounts
  sees : ∀ p, (w.procs p).Sees w.kernel
  named : ∀ p, (w.procs p).Named
  apart : w.kernel.Apart
  alone : ∀ p name, name ≠ "" → (w.procs p).excludes name = true →
    w.ready name = false ∧ ∀ q, q ≠ p → (w.procs q).uses name = false
  ready : ∀ name, w.ready name = true →
    ∃ o, w.kernel.names name = some o ∧ (w.kernel.objects o).Complete
  left : ∀ name o, w.kernel.names name = some o →
    w.abandoned name = true ∨ ∃ p, (w.procs p).made name = true
  fits : ∀ p, (w.procs p).Fits

/-- A property of every process, when one of them moves. -/
theorem forall_set {C : ShmProcess → Prop} {p : P} {proc : ShmProcess}
    (h : ∀ q, q ≠ p → C (w.procs q)) (hp : C proc) : ∀ q, C ((w.set p proc).procs q) := by
  intro q
  show C (Function.update w.procs p proc q)
  by_cases hq : q = p
  · subst hq
    rw [Function.update_self]
    exact hp
  · rw [Function.update_of_ne hq]
    exact h q hq

@[simp]
theorem set_procs_self (p : P) (proc : ShmProcess) : (w.set p proc).procs p = proc :=
  Function.update_self ..

theorem set_procs_of_ne {p q : P} (h : q ≠ p) (proc : ShmProcess) :
    (w.set p proc).procs q = w.procs q :=
  Function.update_of_ne h ..

/-- When a process moves on with the names as they are: only what it itself newly excludes and
uses needs a look. -/
theorem alone_set (h : w.Kept) {p : P} {proc : ShmProcess} {f : String → Bool}
    (hready : ∀ q name, q ≠ p → name ≠ "" → (w.procs q).excludes name = true →
      f name = true → w.ready name = true)
    (hself : ∀ name, name ≠ "" → proc.excludes name = true →
      f name = false ∧ ∀ q, q ≠ p → (w.procs q).uses name = false)
    (hother : ∀ q name, q ≠ p → name ≠ "" → (w.procs q).excludes name = true →
      proc.uses name = false) :
    ∀ q name, name ≠ "" → ((w.set p proc).procs q).excludes name = true →
      f name = false ∧ ∀ r, r ≠ q → ((w.set p proc).procs r).uses name = false := by
  intro q name hne hex
  by_cases hq : q = p
  · subst hq
    rw [set_procs_self] at hex
    obtain ⟨hr, huses⟩ := hself name hne hex
    refine ⟨hr, ?_⟩
    intro r hr'
    rw [set_procs_of_ne hr']
    exact huses r hr'
  · rw [set_procs_of_ne hq] at hex
    obtain ⟨hr, huses⟩ := h.alone q name hne hex
    refine ⟨?_, ?_⟩
    · cases hb : f name with
      | false => rfl
      | true => rw [hready q name hq hne hex hb] at hr; cases hr
    · intro r hr'
      by_cases hrp : r = p
      · subst hrp
        rw [set_procs_self]
        exact hother q name hq hne hex
      · rw [set_procs_of_ne hrp]
        exact huses r hr'

/-- The same for what the names show. -/
theorem left_set (h : w.Kept) {p : P} {proc : ShmProcess}
    (hmade : ∀ name, (w.procs p).made name = true → proc.made name = true) :
    ∀ name o, w.kernel.names name = some o →
      w.abandoned name = true ∨ ∃ q, ((w.set p proc).procs q).made name = true := by
  intro name o ho
  refine (h.left name o ho).imp_right ?_
  rintro ⟨q, hq⟩
  by_cases hqp : q = p
  · subst hqp
    exact ⟨q, by rw [set_procs_self]; exact hmade name hq⟩
  · exact ⟨q, by rw [set_procs_of_ne hqp]; exact hq⟩

theorem kept_create (h : w.Kept) {p : P} {name : String} (hok : w.disciplined (.create p name))
    (hs : w.step (.create p name) = some w') : w'.Kept := by
  simp only [step, Option.ite_none_right_eq_some, Option.some.injEq] at hs
  obtain ⟨⟨hpc, hm⟩, rfl⟩ := hs
  obtain ⟨hne, huses⟩ := hok
  have hacc := h.accounts p
  simp only [ShmProcess.Accounts, hpc, hm] at hacc
  refine ⟨?_, ?_, ?_, h.apart, ?_, ?_, ?_, ?_⟩
  · exact forall_set (fun q _ => h.accounts q) ⟨hacc.1, hacc.2.1, hm⟩
  · exact forall_set (fun q _ => h.sees q) trivial
  · refine forall_set (fun q _ => h.named q) ⟨?_, ?_⟩
    · intro name' hn
      obtain rfl := Option.some.inj hn
      exact hne
    · intro howner
      simp [hm] at howner
  · refine alone_set h (f := Function.update w.ready name false) ?_ ?_ ?_
    · intro _ name' _ _ _ hr
      by_cases he : name' = name
      · subst he
        simp at hr
      · simpa [he] using hr
    · intro name' _ hex
      have he : name = name' := by
        simpa [ShmProcess.excludes, ShmProcess.closing, ShmPc.creating, hm] using hex
      subst he
      exact ⟨Function.update_self .., huses⟩
    · intro q name' hq hne' hex
      have he : name ≠ name' := by
        rintro rfl
        exact absurd (ShmProcess.uses_of_excludes hex) (by simp [huses q hq])
      simp [ShmProcess.uses, ShmPc.creating, ShmPc.opening, hm, he, Ne.symm hne']
  · intro name' hr
    by_cases he : name' = name
    · subst he
      simp at hr
    · exact h.ready name' (by simpa [he] using hr)
  · refine left_set h ?_
    intro name' hmade
    simp [ShmProcess.made, hpc, hm, ShmPc.creating] at hmade
  · exact forall_set (fun q _ => h.fits q) (h.fits p)

theorem kept_attach (h : w.Kept) {p : P} {name : String} (hok : w.disciplined (.attach p name))
    (hs : w.step (.attach p name) = some w') : w'.Kept := by
  simp only [step, Option.ite_none_right_eq_some, Option.some.injEq] at hs
  obtain ⟨⟨hpc, hm⟩, rfl⟩ := hs
  have hready : w.ready name = true := hok
  have hacc := h.accounts p
  simp only [ShmProcess.Accounts, hpc, hm] at hacc
  refine ⟨?_, ?_, ?_, h.apart, ?_, h.ready, ?_, ?_⟩
  · exact forall_set (fun q _ => h.accounts q) ⟨hacc.1, hacc.2.1, hm⟩
  · exact forall_set (fun q _ => h.sees q) (h.ready name hready)
  · refine forall_set (fun q _ => h.named q) ⟨?_, ?_⟩
    · intro name' hn
      cases hn
    · intro howner
      simp [hm] at howner
  · refine alone_set h (fun _ _ _ _ _ => id) ?_ ?_
    · intro name' _ hex
      simp [ShmProcess.excludes, ShmProcess.closing, ShmPc.creating, hm] at hex
    · intro q name' hq hne' hex
      have he : name ≠ name' := by
        rintro rfl
        rw [(h.alone q name hne' hex).1] at hready
        cases hready
      simp [ShmProcess.uses, ShmPc.creating, ShmPc.opening, hm, he, Ne.symm hne']
  · refine left_set h ?_
    intro name' hmade
    simp [ShmProcess.made, hpc, hm, ShmPc.creating] at hmade
  · exact forall_set (fun q _ => h.fits q) (h.fits p)

theorem kept_detach (h : w.Kept) {p : P} (hok : w.disciplined (.detach p))
    (hs : w.step (.detach p) = some w') : w'.Kept := by
  simp only [step, Option.ite_none_right_eq_some, Option.some.injEq] at hs
  obtain ⟨hpc, rfl⟩ := hs
  have hacc := h.accounts p
  simp only [ShmProcess.Accounts, hpc] at hacc
  have hready : ∀ name, (if (w.procs p).mapping.owner = true then
      Function.update w.ready (w.procs p).mapping.name false else w.ready) name = true →
      w.ready name = true := by
    intro name hr
    split at hr
    · by_cases he : name = (w.procs p).mapping.name
      · subst he
        simp at hr
      · simpa [he] using hr
    · exact hr
  refine ⟨?_, ?_, ?_, h.apart, ?_, ?_, ?_, ?_⟩
  · exact forall_set (fun q _ => h.accounts q) hacc
  · exact forall_set (fun q _ => h.sees q) trivial
  · refine forall_set (fun q _ => h.named q) ⟨?_, (h.named p).owned⟩
    intro name' hn
    cases hn
  · refine alone_set h (fun _ name _ _ _ => hready name) ?_ ?_
    · intro name _ hex
      simp only [ShmProcess.excludes, ShmProcess.closing, ShmPc.creating, Bool.or_eq_true,
        Bool.and_eq_true, decide_eq_true_eq, reduceCtorEq, false_or] at hex
      obtain ⟨⟨howner, rfl⟩, _⟩ := hex
      refine ⟨?_, hok howner⟩
      rw [if_pos howner]
      exact Function.update_self ..
    · intro q name hq hne hex
      have hidle := (h.alone q name hne hex).2 p (Ne.symm hq)
      simpa [ShmProcess.uses, ShmPc.creating, ShmPc.opening, hpc] using hidle
  · exact fun name hr => h.ready name (hready name hr)
  · refine left_set h ?_
    intro name hmade
    simpa [ShmProcess.made, hpc, ShmPc.creating] using hmade
  · exact forall_set (fun q _ => h.fits q) (h.fits p)

theorem kept_kill (h : w.Kept) {p : P} (hs : w.step (.kill p) = some w') : w'.Kept := by
  simp only [step, Option.some.injEq] at hs
  obtain rfl := hs
  refine ⟨?_, ?_, ?_, h.apart, ?_, h.ready, ?_, ?_⟩
  · exact forall_set (fun q _ => h.accounts q) ⟨rfl, rfl, rfl⟩
  · exact forall_set (fun q _ => h.sees q) rfl
  · refine forall_set (fun q _ => h.named q) ⟨?_, ?_⟩
    · intro name hn
      cases hn
    · intro howner
      cases howner
  · refine alone_set h (fun _ _ _ _ _ => id) ?_ ?_
    · intro name _ hex
      simp [ShmProcess.excludes, ShmProcess.closing, ShmPc.creating] at hex
    · intro q name _ hne _
      simp [ShmProcess.uses, ShmPc.creating, ShmPc.opening, Ne.symm hne]
  · intro name o ho
    show (w.abandoned name || (w.procs p).owns name) = true ∨ _
    rcases h.left name o ho with hl | ⟨q, hq⟩
    · exact .inl (by simp [hl])
    · by_cases hqp : q = p
      · subst hqp
        exact .inl (by simp [ShmProcess.owns_of_made hq])
      · refine .inr ⟨q, ?_⟩
        rw [set_procs_of_ne hqp]
        exact hq
  · exact forall_set (fun q _ => h.fits q) (h.fits p)

omit [DecidableEq P] in
/-- What a step of one process does to the names that the others have to do with. -/
theorem others_kept (h : w.Kept) {p : P} {good : Bool} {k' : ShmKernel} {p' : ShmProcess}
    (hs : (w.procs p).step w.kernel good = some (k', p')) {name : String} {o : ShmObj}
    (hfree : ∀ name', (w.procs p).excludes name' = true → name' ≠ name)
    (ho : w.kernel.names name = some o) :
    k'.names name = some o ∧ k'.objects o = w.kernel.objects o := by
  rcases ShmProcess.step_kernel (h.sees p) hs with rfl | ⟨name', hex, hmove⟩
  · exact ⟨ho, rfl⟩
  · have hne := (hfree name' hex).symm
    exact ⟨(hmove.names_of_ne hne).trans ho, hmove.objects_of_ne h.apart hne ho⟩

theorem kept_call (h : w.Kept) {p : P} {good : Bool} (hs : w.step (.step p good) = some w') :
    w'.Kept := by
  simp only [step, Option.map_eq_some_iff] at hs
  obtain ⟨⟨k', p'⟩, hs, rfl⟩ := hs
  have hacc := h.accounts p
  have hsees' := (h.sees p).step hacc hs
  have hnarrow := ShmProcess.narrows_step hacc hs
  -- nobody else has to do with a name that the process excludes the others from
  have hothers : ∀ q, q ≠ p → (w.procs q).Sees k' := by
    intro q hq
    have hfree : ∀ name, (w.procs q).uses name = true → ∀ name',
        (w.procs p).excludes name' = true → name' ≠ name := by
      rintro name hu name' hex rfl
      rw [(h.alone p name' ((h.named p).of_excludes hex) hex).2 q hq] at hu
      cases hu
    refine (h.sees q).frame ?_ ?_
    · intro name o hu ho
      exact (others_kept h hs (hfree name hu) ho).1
    · intro name o hu ho
      exact (others_kept h hs (hfree name hu) ho).2
  have hapart : k'.Apart := by
    rcases ShmProcess.step_kernel (h.sees p) hs with rfl | ⟨name, hex, hmove⟩
    · exact h.apart
    · exact hmove.apart h.apart ((h.named p).of_excludes hex)
  have hleft : ∀ name o, k'.names name = some o →
      w.abandoned name = true ∨ ∃ q, ((w.set p p').procs q).made name = true := by
    intro name o ho
    rcases ShmProcess.names_step hacc (h.named p) hs ho with hmade | ⟨hold, hnot⟩
    · exact .inr ⟨p, by rw [set_procs_self]; exact hmade⟩
    · refine (h.left name o hold).imp_right ?_
      rintro ⟨q, hq⟩
      have hqp : q ≠ p := by
        rintro rfl
        rw [hq] at hnot
        cases hnot
      exact ⟨q, by rw [set_procs_of_ne hqp]; exact hq⟩
  have hkeep : ∀ name, w.ready name = true →
      ∃ o, k'.names name = some o ∧ (k'.objects o).Complete := by
    intro name hr
    obtain ⟨o, ho, hc⟩ := h.ready name hr
    have hfree : ∀ name', (w.procs p).excludes name' = true → name' ≠ name := by
      rintro name' hex rfl
      rw [(h.alone p name' ((h.named p).of_excludes hex) hex).1] at hr
      cases hr
    obtain ⟨hn, hobj⟩ := others_kept h hs hfree ho
    exact ⟨o, hn, by rw [hobj]; exact hc⟩
  refine ⟨?_, ?_, ?_, hapart, ?_, ?_, hleft, ?_⟩
  · exact forall_set (fun q _ => h.accounts q) (hacc.step hs)
  · exact forall_set hothers hsees'
  · exact forall_set (fun q _ => h.named q) (hnarrow.named (h.named p))
  · refine alone_set h ?_ ?_ ?_
    · -- another process does not exclude the name that `shm_create` returns with
      intro q name hq hne hex hr
      simp only [Bool.or_eq_true, decide_eq_true_eq] at hr
      refine hr.resolve_right fun hb => ?_
      have hu := ShmProcess.uses_of_excludes (ShmProcess.excludes_of_building hb)
      rw [(h.alone q name hne hex).2 p (Ne.symm hq)] at hu
      cases hu
    · intro name hne hex
      obtain ⟨hr, huses⟩ := h.alone p name hne (hnarrow.excludes name hne hex)
      refine ⟨?_, huses⟩
      simp only [hr, Bool.false_or, decide_eq_false_iff_not]
      intro hb
      obtain ⟨o, rfl⟩ := ShmProcess.step_building hb hs
      simp [ShmProcess.excludes, ShmProcess.closing, ShmProcess.keep, ShmProcess.ret,
        ShmPc.creating] at hex
    · intro q name hq hne hex
      cases hu : p'.uses name with
      | false => rfl
      | true =>
          have hold := hnarrow.uses name hne hu
          rw [(h.alone q name hne hex).2 p (Ne.symm hq)] at hold
          cases hold
  · intro name hr
    simp only [Bool.or_eq_true, decide_eq_true_eq] at hr
    rcases hr with hr | hb
    · exact hkeep name hr
    · obtain ⟨o, rfl⟩ := ShmProcess.step_building hb hs
      exact ⟨o, hsees' o rfl⟩
  · exact forall_set (fun q _ => h.fits q) ((h.fits p).step (h.sees p) hs)

/-- **Every disciplined step keeps it.** -/
theorem kept_step (h : w.Kept) {a : ShmAct P} (hok : w.disciplined a) (hs : w.step a = some w') :
    w'.Kept := by
  cases a with
  | create p name => exact kept_create h hok hs
  | attach p name => exact kept_attach h hok hs
  | detach p => exact kept_detach h hok hs
  | step p good => exact kept_call h hs
  | kill p => exact kept_kill h hs

omit [DecidableEq P] in
theorem kept_start (h : w.Start) : w.Kept := by
  obtain ⟨hnames, hprocs, hready⟩ := h
  refine ⟨?_, ?_, ?_, ⟨?_, ?_, ?_⟩, ?_, ?_, ?_, ?_⟩
  · intro p
    rw [hprocs p]
    exact ShmProcess.accounts_init
  · intro p
    rw [hprocs p]
    intro o hl
    cases hl
  · intro p
    rw [hprocs p]
    refine ⟨?_, ?_⟩
    · intro name hn
      cases hn
    · intro howner
      cases howner
  · intro name name' o ho
    rw [hnames name] at ho
    cases ho
  · intro name o ho
    rw [hnames name] at ho
    cases ho
  · intro name o ho
    rw [hnames name] at ho
    cases ho
  · intro p name _ hex
    rw [hprocs p] at hex
    simp [ShmProcess.excludes, ShmProcess.closing, ShmPc.creating] at hex
  · intro name hr
    rw [hready name] at hr
    cases hr
  · intro name o ho
    rw [hnames name] at ho
    cases ho
  · intro p
    rw [hprocs p]
    simp [ShmProcess.Fits]

theorem kept_reachable (h : Transition.Reachable step disciplined Start w) : w.Kept :=
  h.invariant (fun _ => kept_start) (fun _ _ _ hk hok hs => kept_step hk hok hs)

end ShmWorld

end RateHub
