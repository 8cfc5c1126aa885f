import Mathlib.Logic.Function.Basic
import RateHub.Types

/-!
# The shared mapping and its name

`src/shm_region.cpp`: `shm_create`, `shm_open_existing` and `shm_close`, with `map_fd` inside
the first two, run by any number of processes on one name space. One step is one system call
or one access to the mapped memory; the label says whether a call that could succeed does.

An object is named by the order of its creation, and so is what a descriptor is open on or a
mapping shows: the code only tests a descriptor's sign and a pointer against null. What it does
with the numbers and addresses is not lost, since each process keeps a list of what it has
open and mapped, as the kernel does.
-/

namespace RateHub

/-- `kShmMagic`. -/
abbrev kShmMagic : UInt32 := 0x52484C59

/-- `ShmStatus`. -/
inductive ShmStatus where
  | ok
  | ioError
  | schemaMismatch
  deriving DecidableEq, Repr

/-- A shared memory object. -/
abbrev ShmObj := Nat

/-- What an attaching process can see of an object. -/
structure ShmObject where
  /-- It has been given the size of a `Layout`. An access to one without is a `SIGBUS`. -/
  sized : Bool := false
  magic : UInt32 := 0
  schema : UInt16 := 0
  /-- History: the constructor has run to its end. -/
  built : Bool := false
  deriving DecidableEq, Repr

/-- `ShmMapping`. -/
structure ShmMapping where
  layout : Option ShmObj := none
  fd : Option ShmObj := none
  owner : Bool := false
  name : String := ""
  deriving DecidableEq, Repr

/-- Where a process stands in the three functions. -/
inductive ShmPc where
  | idle
  -- `shm_create`
  | unlinkOld (name : String)
  | openNew (name : String)
  | truncate (name : String) (o : ShmObj)
  | mapNew (name : String) (o : ShmObj)
  /-- The constructor writes the header first, being declared first. -/
  | putHeader (name : String) (o : ShmObj)
  | build (name : String) (o : ShmObj)
  | closeNew (name : String) (o : ShmObj)
  | unlinkNew (name : String)
  -- `shm_open_existing`
  | openOld (name : String)
  | mapOld (name : String) (o : ShmObj)
  | testMagic (name : String) (o : ShmObj)
  | testSchema (name : String) (o : ShmObj)
  | unmapOld (o : ShmObj)
  | closeOld (o : ShmObj) (status : ShmStatus)
  -- `shm_close`
  | unmap
  | close
  | unlink
  /-- Killed, or ended by a `SIGBUS`. -/
  | dead (bus : Bool)
  deriving DecidableEq, Repr

/-- A process: its `ShmMapping`, and what it has open and mapped. -/
structure ShmProcess where
  pc : ShmPc := .idle
  mapping : ShmMapping := {}
  fds : List ShmObj := []
  maps : List ShmObj := []
  /-- History: what its calls returned. -/
  returned : List ShmStatus := []
  deriving DecidableEq, Repr

/-- The name space and the objects. -/
structure ShmKernel where
  names : String → Option ShmObj
  objects : ShmObj → ShmObject
  /-- The next object to be created. -/
  next : ShmObj

namespace ShmKernel

/-- A store to an object. -/
def put (k : ShmKernel) (o : ShmObj) (f : ShmObject → ShmObject) : ShmKernel :=
  { k with objects := Function.update k.objects o (f (k.objects o)) }

/-- `shm_unlink(name)`. -/
def unlink (k : ShmKernel) (name : String) : ShmKernel :=
  { k with names := Function.update k.names name none }

/-- A new object under a name. -/
def create (k : ShmKernel) (name : String) : ShmKernel :=
  { names := Function.update k.names name (some k.next)
    objects := Function.update k.objects k.next {}
    next := k.next + 1 }

end ShmKernel

namespace ShmProcess

/-- The call in progress returns. -/
def ret (p : ShmProcess) (status : ShmStatus) : ShmProcess :=
  { p with pc := .idle, returned := p.returned ++ [status] }

/-- The end of `map_fd` and of its caller: the mapping is filled in. -/
def keep (p : ShmProcess) (name : String) (o : ShmObj) (owner : Bool) : ShmProcess :=
  { p with mapping := { layout := some o, fd := some o, owner := owner, name := name } }.ret .ok

/-- One step of a call. -/
def step (k : ShmKernel) (p : ShmProcess) (good : Bool) : Option (ShmKernel × ShmProcess) :=
  match p.pc with
  | .idle => none
  | .unlinkOld name =>
      -- the result is not looked at
      some (if good then k.unlink name else k, { p with pc := .openNew name })
  | .openNew name =>
      if good && (k.names name).isNone then
        some (k.create name, { p with pc := .truncate name k.next, fds := k.next :: p.fds })
      else some (k, p.ret .ioError)
  | .truncate name o =>
      if good then
        some (k.put o fun object => { object with sized := true }, { p with pc := .mapNew name o })
      else some (k, { p with pc := .closeNew name o })
  | .mapNew name o =>
      if good then some (k, { p with pc := .putHeader name o, maps := o :: p.maps })
      else some (k, { p with pc := .closeNew name o })
  | .putHeader name o =>
      some (k.put o fun object => { object with magic := kShmMagic, schema := kSchemaVersion },
        { p with pc := .build name o })
  | .build name o =>
      some (k.put o fun object => { object with built := true }, p.keep name o true)
  | .closeNew name o => some (k, { p with pc := .unlinkNew name, fds := p.fds.erase o })
  | .unlinkNew name => some (k.unlink name, p.ret .ioError)
  | .openOld name =>
      match k.names name with
      | some o =>
          if good then some (k, { p with pc := .mapOld name o, fds := o :: p.fds })
          else some (k, p.ret .ioError)
      | none => some (k, p.ret .ioError)
  | .mapOld name o =>
      if good then some (k, { p with pc := .testMagic name o, maps := o :: p.maps })
      else some (k, { p with pc := .closeOld o .ioError })
  | .testMagic name o =>
      if (k.objects o).sized = false then
        some (k, { p with pc := .dead true, mapping := {}, fds := [], maps := [] })
      else if (k.objects o).magic ≠ kShmMagic then some (k, { p with pc := .unmapOld o })
      else some (k, { p with pc := .testSchema name o })
  | .testSchema name o =>
      if (k.objects o).schema ≠ kSchemaVersion then some (k, { p with pc := .unmapOld o })
      else some (k, p.keep name o false)
  | .unmapOld o =>
      some (k, { p with pc := .closeOld o .schemaMismatch, maps := p.maps.erase o })
  | .closeOld o status => some (k, { p with fds := p.fds.erase o }.ret status)
  | .unmap =>
      match p.mapping.layout with
      | some o =>
          some (k, { p with pc := .close, maps := p.maps.erase o
                            mapping := { p.mapping with layout := none } })
      | none => some (k, { p with pc := .close })
  | .close =>
      match p.mapping.fd with
      | some o =>
          some (k, { p with pc := .unlink, fds := p.fds.erase o
                            mapping := { p.mapping with fd := none } })
      | none => some (k, { p with pc := .unlink })
  | .unlink =>
      some (if p.mapping.owner && p.mapping.name ≠ "" then k.unlink p.mapping.name else k,
        { p with pc := .idle, mapping := { p.mapping with owner := false, name := "" } })
  | .dead _ => none

end ShmProcess

/-! ## Processes -/

/-- All the processes on one name space. -/
structure ShmWorld (P : Type) where
  kernel : ShmKernel
  procs : P → ShmProcess
  /-- History: under these names `shm_create` has returned, and its owner has neither begun to
  close its mapping nor has anybody begun to create it anew. -/
  ready : String → Bool
  /-- History: a process was killed that was creating the name or owned it. -/
  abandoned : String → Bool

/-- Who does what. -/
inductive ShmAct (P : Type) where
  | create (p : P) (name : String)
  | attach (p : P) (name : String)
  | detach (p : P)
  | step (p : P) (good : Bool)
  | kill (p : P)
  deriving DecidableEq, Repr

/-- The name that a call of `shm_create` in progress is about. -/
def ShmPc.creating : ShmPc → Option String
  | .unlinkOld name => some name
  | .openNew name => some name
  | .truncate name _ => some name
  | .mapNew name _ => some name
  | .putHeader name _ => some name
  | .build name _ => some name
  | .closeNew name _ => some name
  | .unlinkNew name => some name
  | _ => none

/-- The name that `shm_create` returns with, once the constructor is done. -/
def ShmPc.building : ShmPc → Option String
  | .build name _ => some name
  | _ => none

/-- The name that a call of `shm_open_existing` in progress still depends on. -/
def ShmPc.opening : ShmPc → Option String
  | .openOld name => some name
  | .mapOld name _ => some name
  | .testMagic name _ => some name
  | .testSchema name _ => some name
  | _ => none

namespace ShmProcess

/-- The process answers for the name: it is creating it, or owns it. -/
def owns (p : ShmProcess) (name : String) : Bool :=
  decide (p.pc.creating = some name) || (p.mapping.owner && decide (p.mapping.name = name))

/-- The process has to do with the name. -/
def uses (p : ShmProcess) (name : String) : Bool :=
  decide (p.pc.creating = some name) || decide (p.pc.opening = some name)
    || decide (p.mapping.name = name)

end ShmProcess

namespace ShmWorld

variable {P : Type} [DecidableEq P]

/-- A process moves on. -/
def set (w : ShmWorld P) (p : P) (proc : ShmProcess) : ShmWorld P :=
  { w with procs := Function.update w.procs p proc }

/-- One step. A call is made with a mapping as `ShmMapping mapping;` leaves it. -/
def step (w : ShmWorld P) : ShmAct P → Option (ShmWorld P)
  | .create p name =>
      if (w.procs p).pc = .idle ∧ (w.procs p).mapping = {} then
        some { w.set p { w.procs p with pc := .unlinkOld name } with
               ready := Function.update w.ready name false }
      else none
  | .attach p name =>
      if (w.procs p).pc = .idle ∧ (w.procs p).mapping = {} then
        some (w.set p { w.procs p with pc := .openOld name })
      else none
  | .detach p =>
      if (w.procs p).pc = .idle then
        some { w.set p { w.procs p with pc := .unmap } with
               ready := if (w.procs p).mapping.owner then
                 Function.update w.ready (w.procs p).mapping.name false else w.ready }
      else none
  | .step p good =>
      ((w.procs p).step w.kernel good).map fun r =>
        { w.set p r.2 with
          kernel := r.1
          ready := fun name =>
            w.ready name || decide ((w.procs p).pc.building = some name) }
  | .kill p =>
      some { w.set p { returned := (w.procs p).returned, pc := .dead false } with
             abandoned := fun name => w.abandoned name || (w.procs p).owns name }

/-- Nobody has called anything, and no name exists. -/
def Start (w : ShmWorld P) : Prop :=
  (∀ name, w.kernel.names name = none) ∧ (∀ p, w.procs p = {}) ∧ (∀ name, w.ready name = false)

end ShmWorld

end RateHub
