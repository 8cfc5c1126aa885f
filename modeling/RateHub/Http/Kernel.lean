import RateHub.Lib.Interaction
import RateHub.Process.Observe

/-!
# The system calls of the observer

What `src/http_sse.cpp` and `src/observe.cpp` ask of the kernel. A run is given by the
replies, one for each call in the order of the calls, and any reply may come back from
any call; a call reads the part of it that it has a use for.

A descriptor is named by the order in which it was obtained. The kernel may give a number
out a second time after a close. The code only tests its sign, so a name that never comes
back loses nothing, and a stale descriptor cannot be taken for the new one.
-/

namespace RateHub.Http

open Interaction

/-- A descriptor, as a value that is at least 0 in the code. -/
abbrev Fd := Nat

/-- `errno`, as far as the code tells its values apart. -/
inductive Errno where
  | eagain
  | ewouldblock
  | eintr
  | other
  deriving DecidableEq, Repr

/-- `errno == EAGAIN || errno == EWOULDBLOCK || errno == EINTR`. -/
def Errno.again : Errno → Bool
  | .other => false
  | _ => true

/-- The bits of `revents` that the code tests. -/
structure Revents where
  pollin : Bool := false
  pollerr : Bool := false
  pollhup : Bool := false
  pollnval : Bool := false
  deriving DecidableEq, Repr

/-- `revents & (POLLERR | POLLHUP | POLLNVAL)`. -/
def Revents.bad (r : Revents) : Bool := r.pollerr || r.pollhup || r.pollnval

/-- What comes back from a call. -/
structure Reply where
  /-- The value returned; below 0 the call failed. -/
  ret : Int := 0
  errno : Errno := .other
  /-- `fds[0].revents` and `fds[1].revents`. -/
  revents : Fin 2 → Revents := fun _ => {}
  /-- `st.st_size`. -/
  size : Int64 := 0
  /-- What an array that is not initialised holds. -/
  junk : List UInt8 := []
  /-- What `collect_telemetry` finds. -/
  snap : TelemetrySnapshot := {}

/-- A reply that lets every call succeed, and moves all the data there is. -/
def willing : Reply := { ret := 10000, revents := fun _ => { pollin := true } }

/-- The calls made, each noted when it returns. -/
inductive Event where
  | socket (got : Option Fd)
  /-- `setsockopt`, `bind`, `listen`, `getsockname` or `fcntl`. -/
  | setup (fd : Fd)
  | poll (fds : List Fd) (timeoutMs : Int)
  | accept (listen : Fd) (got : Option Fd)
  | recv (fd : Fd)
  /-- The bytes handed over, and how many of them were taken. -/
  | send (fd : Fd) (data : List UInt8) (taken : Nat)
  | openFile (path : List UInt8) (got : Option Fd)
  | fstat (fd : Fd)
  | read (fd : Fd)
  | close (fd : Fd)
  /-- History, not a call: `client_fd = incoming`. -/
  | hold (fd : Fd)
  /-- `request_rerun`. -/
  | rerun
  deriving DecidableEq

/-- The kernel's side: what each peer or file has still to deliver, and the name of the
next descriptor. -/
structure World where
  source : Fd → List UInt8
  next : Fd

/-- A program over these calls. -/
abbrev Sys := Proc Event Reply World

open Proc

/-- A count that the kernel returns, at most what was asked for, or the error. -/
def Reply.count (r : Reply) (most : Nat) : Except Errno Nat :=
  if r.ret < 0 then .error r.errno else .ok (min r.ret.toNat most)

/-- An array of `n` bytes that nobody has written yet. -/
def uninit (n : Nat) : Sys (List UInt8) := do
  let r ← ask
  pure ((r.junk ++ List.replicate n 0).take n)

/-- The name of a new descriptor. -/
def fresh : Sys Fd := do
  let w ← get
  set { w with next := w.next + 1 }
  pure w.next

/-- A call that gives a descriptor, or fails. -/
def acquire (event : Option Fd → Event) : Sys (Option Fd) := do
  let r ← ask
  if r.ret < 0 then
    emit (event none)
    pure none
  else
    let fd ← fresh
    emit (event (some fd))
    pure (some fd)

def socket : Sys (Option Fd) := acquire .socket

def accept (listen : Fd) : Sys (Option Fd) := acquire (.accept listen)

def openFile (path : List UInt8) : Sys (Option Fd) := acquire (.openFile path)

/-- A call on a descriptor that moves no data. -/
def callOn (event : Event) : Sys Reply := do
  let r ← ask
  emit event
  pure r

def setup (fd : Fd) : Sys Reply := callOn (.setup fd)

def poll (fds : List Fd) (timeoutMs : Int) : Sys Reply := callOn (.poll fds timeoutMs)

def fstat (fd : Fd) : Sys Reply := callOn (.fstat fd)

/-- The code never looks at what `close` returns. -/
def close (fd : Fd) : Sys Unit := emit (.close fd)

/-- At most `most` of the bytes still to come on a descriptor; none at their end. -/
def receive (fd : Fd) (most : Nat) (event : Event) : Sys (Except Errno (List UInt8)) := do
  let r ← ask
  emit event
  match r.count most with
  | .error e => pure (.error e)
  | .ok n =>
      let w ← get
      set { w with source := Function.update w.source fd ((w.source fd).drop n) }
      pure (.ok ((w.source fd).take n))

def recv (fd : Fd) (most : Nat) : Sys (Except Errno (List UInt8)) := receive fd most (.recv fd)

def read (fd : Fd) (most : Nat) : Sys (Except Errno (List UInt8)) := receive fd most (.read fd)

/-- The number of bytes taken, or the error. -/
def send (fd : Fd) (data : List UInt8) : Sys (Except Errno Nat) := do
  let r ← ask
  match r.count data.length with
  | .error e =>
      emit (.send fd data 0)
      pure (.error e)
  | .ok n =>
      emit (.send fd data n)
      pure (.ok n)

end RateHub.Http
