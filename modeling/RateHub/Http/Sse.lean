import RateHub.Http.Kernel
import RateHub.Http.Text

/-!
# The observer's server

`src/http_sse.cpp`, with the loop of `run_observe` in `src/observe.cpp`. A `Bool` or a
path that a function hands on is its result; an `int&` or a buffer that it changes comes
back beside it. A descriptor below 0 is `none`.

`MSG_NOSIGNAL` is defined and `SO_NOSIGPIPE` is not.
-/

namespace RateHub.Http

open Interaction Proc

/-! ## Sending and receiving -/

/-- `close_fd(fd)`: what is left in `fd` is -1. -/
def closeFd : Option Fd → Sys Unit
  | none => pure ()
  | some fd => close fd

def setNonblock (fd : Fd) : Sys Unit := do
  let flags ← setup fd
  if 0 ≤ flags.ret then
    let _ ← setup fd
    pure ()
  else pure ()

/-- `pr <= 0 || (pfd.revents & (POLLERR | POLLHUP | POLLNVAL)) != 0`. -/
def Reply.pollFailed (r : Reply) : Bool := decide (r.ret ≤ 0) || (r.revents 0).bad

/-- One round of `send_all`; `sent` bytes are out. -/
def sendRound (fd : Fd) (data : List UInt8) (len sent : Nat) : Sys (Nat ⊕ Bool) :=
  if len ≤ sent then pure (.inr true)
  else do
    let pfd ← poll [fd] 500
    if pfd.pollFailed then pure (.inr false)
    else do
      match ← send fd ((data.drop sent).take (len - sent)) with
      | .error e => pure (if e.again then .inl sent else .inr false)
      | .ok n => pure (if n = 0 then .inr false else .inl (sent + n))

/-- `send_all(fd, data, len)`; `data` is the memory from the pointer on. -/
def sendAll (fd : Fd) (data : List UInt8) (len : Nat) : Sys Bool :=
  loop (sendRound fd data len) 0

/-- `send_all` of a literal and its `strlen`. -/
def sendText (fd : Fd) (s : String) : Sys Bool := sendAll fd (text s) (text s).length

/-- A text formatted into an array of `cap` bytes on the stack, and `send_all` of as many
bytes as `snprintf` returned. The array is followed by `past` more bytes of the stack. -/
def sendFormatted (fd : Fd) (cap past : Nat) (s : List UInt8) : Sys Bool := do
  let stack ← uninit (cap + past)
  let (array, n) := snprintf stack cap s
  if n ≤ 0 then pure false else sendAll fd array n.toNat

/-- `buf[at ..] = chunk`. -/
def store (buf : List UInt8) (at_ : Nat) (chunk : List UInt8) : List UInt8 :=
  buf.take at_ ++ chunk ++ buf.drop (at_ + chunk.length)

/-- One round of `read_request`; `got` bytes are in `buf`. -/
def readRound (fd : Fd) (cap : Nat) : Nat × List UInt8 →
    Sys ((Nat × List UInt8) ⊕ (Bool × List UInt8))
  | (got, buf) =>
    if got + 1 < cap then do
      let pfd ← poll [fd] 500
      if pfd.pollFailed then pure (.inr (false, buf))
      else do
        match ← recv fd (cap - 1 - got) with
        | .error e => pure (if e.again then .inl (got, buf) else .inr (false, buf))
        | .ok chunk =>
            if chunk.length = 0 then pure (.inr (false, buf))
            else
              let buf := store (store buf got chunk) (got + chunk.length) [0]
              pure (if strstr buf "\r\n\r\n" then .inr (true, buf)
                else .inl (got + chunk.length, buf))
    else pure (.inr (false, buf))

/-- `read_request(fd, buf, cap)`. -/
def readRequest (fd : Fd) (buf : List UInt8) (cap : Nat) : Sys (Bool × List UInt8) :=
  loop (readRound fd cap) (0, buf)

def dropIfClosed : Option Fd → Sys (Option Fd)
  | none => pure none
  | some fd => do
      match ← recv fd 32 with
      | .error e =>
          if e.again then pure (some fd)
          else do
            close fd
            pure none
      | .ok bytes =>
          if bytes.length = 0 then do
            close fd
            pure none
          else pure (some fd)

/-! ## The request -/

/-- `request_path(buf)`: the buffer with its two NULs, and the offset of the path. -/
def requestPath (buf : List UInt8) : List UInt8 × Option Nat :=
  match strchr buf ' ' with
  | none => (buf, none)
  | some sp1 =>
      let buf := buf.set sp1 0
      let path := sp1 + 1
      match strchr (buf.drop path) ' ' with
      | none => (buf, none)
      | some k =>
          let buf := buf.set (path + k) 0
          if !strcmp buf "GET" && !strcmp buf "POST" then (buf, none) else (buf, some path)

def isPost (buf : List UInt8) : Bool := strncmp buf "POST" 4

/-- `path != nullptr && strcmp(path, s) == 0`. -/
def pathIs (buf : List UInt8) (path : Option Nat) (s : String) : Bool :=
  match path with
  | none => false
  | some p => strcmp (buf.drop p) s

/-! ## The responses -/

def sendResetOk (fd : Fd) : Sys Bool :=
  sendText fd ("HTTP/1.1 200 OK\r\nContent-Type: application/json\r\nContent-Length: 8\r\n"
    ++ "Cache-Control: no-cache\r\nConnection: close\r\n\r\n\x7b\"ok\":1\x7d")

def sendNotFound (fd : Fd) : Sys Bool :=
  sendText fd "HTTP/1.1 404 Not Found\r\nContent-Length: 0\r\nConnection: close\r\n\r\n"

/-- The header of the dashboard, in full. -/
def dashboardHeader (size : Int64) : List UInt8 :=
  printed [("HTTP/1.1 200 OK\r\nContent-Type: text/html; charset=utf-8\r\nContent-Length: ",
      size.toInt)]
    "\r\nCache-Control: no-cache\r\nConnection: close\r\n\r\n"

/-- `snprintf(header, sizeof(header), ..)` and, unless `hlen <= 0`, `send_all`. No `long long`
makes the text longer than the array by more than the 64 bytes kept behind it. -/
def sendHeader (fd : Fd) (size : Int64) : Sys Bool :=
  sendFormatted fd 128 64 (dashboardHeader size)

/-- One round of the copy loop of `send_dashboard`; false when it goes wrong. -/
def copyRound (fd file : Fd) : Unit → Sys (Unit ⊕ Bool)
  | () => do
    match ← read file 4096 with
    | .error _ => pure (.inr false)
    | .ok chunk =>
        if chunk.length = 0 then pure (.inr true)
        else
          let ok ← sendAll fd chunk chunk.length
          pure (if ok then .inl () else .inr false)

/-- `web_root != nullptr ? web_root : "web"`. -/
def rootOr (webRoot : Option (List UInt8)) : List UInt8 := webRoot.getD (text "web")

def sendDashboard (fd : Fd) (webRoot : Option (List UInt8)) : Sys Bool := do
  let stack ← uninit 512
  let (path, n) := snprintf stack 512 (rootOr webRoot ++ text "/dashboard.html")
  if n ≤ 0 ∨ 512 ≤ n then pure false
  else do
    match ← openFile (cstr path) with
    | none => sendNotFound fd
    | some file => do
        let st ← fstat file
        if st.ret ≠ 0 ∨ st.size < 0 then do
          close file
          pure false
        else do
          if ← sendHeader fd st.size then do
            let ok ← loop (copyRound fd file) ()
            close file
            pure ok
          else do
            close file
            pure false

/-- The SSE header block. -/
def sseHeaders : String :=
  "HTTP/1.1 200 OK\r\nContent-Type: text/event-stream\r\nCache-Control: no-cache\r\n"
    ++ "Connection: keep-alive\r\nAccess-Control-Allow-Origin: *\r\n\r\n"

def sendSseHeaders (fd : Fd) : Sys Bool := sendText fd sseHeaders

/-- `"data: %.*s\n\n"`. -/
def sseEvent (payload : List UInt8) (len : Nat) : List UInt8 :=
  text "data: " ++ precise len payload ++ text "\n\n"

/-- `send_sse_data(fd, payload, len)`. -/
def sendSseData (fd : Fd) (payload : List UInt8) (len : Nat) : Sys Bool :=
  if 8000 ≤ len then pure false else sendFormatted fd 8192 0 (sseEvent payload len)

/-! ## The server -/

/-- `HttpSseServer`. -/
structure HttpSseServer where
  listenFd : Option Fd := none
  deriving DecidableEq

def acceptClient (listenFd : Fd) : Sys (Option Fd) := do
  match ← accept listenFd with
  | none => pure none
  | some fd => do
      setNonblock fd
      pure (some fd)

def httpSseClose (srv : HttpSseServer) : Sys HttpSseServer := do
  closeFd srv.listenFd
  pure { srv with listenFd := none }

/-- `bind`, `listen`, `getsockname`, with the close when one of them fails. -/
def httpSseListenSteps (fd : Fd) : Nat → Sys Bool
  | 0 => pure true
  | n + 1 => do
      let r ← setup fd
      if r.ret ≠ 0 then do
        close fd
        pure false
      else httpSseListenSteps fd n

def httpSseListen (srv : HttpSseServer) : Sys (HttpSseServer × Bool) := do
  let srv ← httpSseClose srv
  match ← socket with
  | none => pure (srv, false)
  | some fd => do
      let _ ← setup fd
      if ← httpSseListenSteps fd 3 then pure ({ srv with listenFd := some fd }, true)
      else pure (srv, false)

/-- The response of `http_sse_serve_once`, with `ok`. -/
def serveResponse (client : Fd) (req : List UInt8) (path : Option Nat)
    (webRoot : Option (List UInt8)) (ssePayload : List UInt8) (sseLen : Nat) : Sys Bool :=
  if pathIs req path "/events" && !isPost req then do
    if ← sendSseHeaders client then sendSseData client ssePayload sseLen else pure false
  else if (pathIs req path "/" || pathIs req path "/dashboard.html") && !isPost req then
    sendDashboard client webRoot
  else if pathIs req path "/reset" && isPost req then sendResetOk client
  else do
    let _ ← sendNotFound client
    pure false

/-- `http_sse_serve_once` from `request_path` on. -/
def serveDispatch (client : Fd) (req : List UInt8) (webRoot : Option (List UInt8))
    (ssePayload : List UInt8) (sseLen : Nat) : Sys Bool := do
  let (req, path) := requestPath req
  let ok ← serveResponse client req path webRoot ssePayload sseLen
  close client
  pure ok

def httpSseServeOnce (srv : HttpSseServer) (webRoot : Option (List UInt8))
    (ssePayload : List UInt8) (sseLen : Nat) : Sys Bool :=
  match srv.listenFd with
  | none => pure false
  | some listenFd => do
      match ← acceptClient listenFd with
      | none => pure false
      | some client => do
          let req ← uninit 1024
          let (ok, req) ← readRequest client req 1024
          if ok then serveDispatch client req webRoot ssePayload sseLen
          else do
            close client
            pure false

/-- `http_sse_pump` from `request_path` on, up to the end of the request: the held client,
and `*reset_out` where there is one. -/
def pumpDispatch (incoming : Fd) (req : List UInt8) (clientFd : Option Fd)
    (webRoot : Option (List UInt8)) (reset : Option Bool) : Sys (Option Fd × Option Bool) := do
  let (req, path) := requestPath req
  if (pathIs req path "/" || pathIs req path "/dashboard.html") && !isPost req then do
    let _ ← sendDashboard incoming webRoot
    close incoming
    pure (clientFd, reset)
  else if pathIs req path "/events" && !isPost req then do
    closeFd clientFd
    if ← sendSseHeaders incoming then do
      emit (.hold incoming)
      pure (some incoming, reset)
    else do
      close incoming
      pure (none, reset)
  else if pathIs req path "/reset" && isPost req then do
    let _ ← sendResetOk incoming
    close incoming
    pure (clientFd, reset.map fun _ => true)
  else do
    let _ ← sendNotFound incoming
    close incoming
    pure (clientFd, reset)

/-- `if ((fds[0].revents & POLLIN) != 0)`. -/
def pumpAccept (fds : Reply) (listenFd : Fd) (clientFd : Option Fd)
    (webRoot : Option (List UInt8)) (reset : Option Bool) : Sys (Option Fd × Option Bool) :=
  if (fds.revents 0).pollin then do
    match ← acceptClient listenFd with
    | none => pure (clientFd, reset)
    | some incoming => do
        let req ← uninit 1024
        let (ok, req) ← readRequest incoming req 1024
        if ok then pumpDispatch incoming req clientFd webRoot reset
        else do
          close incoming
          pure (clientFd, reset)
  else pure (clientFd, reset)

/-- `if (nfds == 2 && (fds[1].revents & (POLLIN | POLLHUP | POLLERR | POLLNVAL)) != 0)`. -/
def pumpDrop (fds : Reply) (clientFd : Option Fd) : Sys (Option Fd) :=
  if clientFd.isSome && ((fds.revents 1).pollin || (fds.revents 1).bad) then
    dropIfClosed clientFd
  else pure clientFd

/-- `if (client_fd >= 0 && json != nullptr && json_len > 0)`. -/
def pumpEvent (clientFd : Option Fd) (json : Option (List UInt8)) (jsonLen : Nat) :
    Sys (Option Fd) :=
  match clientFd, json with
  | some fd, some json =>
      if 0 < jsonLen then do
        if ← sendSseData fd json jsonLen then pure (some fd)
        else do
          close fd
          pure none
      else pure (some fd)
  | clientFd, _ => pure clientFd

/-- What `http_sse_pump` leaves: its result, `client_fd` and `*reset_out`. -/
structure Pumped where
  ok : Bool
  clientFd : Option Fd
  reset : Option Bool
  deriving DecidableEq

def httpSsePump (srv : HttpSseServer) (clientFd : Option Fd) (webRoot : Option (List UInt8))
    (json : Option (List UInt8)) (jsonLen : Nat) (timeoutMs : Int) (reset : Option Bool) :
    Sys Pumped :=
  match srv.listenFd with
  | none => pure ⟨false, clientFd, reset⟩
  | some listenFd => do
      let fds ← poll (listenFd :: clientFd.toList) timeoutMs
      if fds.ret < 0 then pure ⟨decide (fds.errno = .eintr), clientFd, reset⟩
      else do
        let clientFd ← pumpDrop fds clientFd
        let (clientFd, reset) ← pumpAccept fds listenFd clientFd webRoot reset
        let clientFd ← pumpEvent clientFd json jsonLen
        pure ⟨true, clientFd, reset⟩

/-- The arguments of a call of the pump. -/
structure PumpCall where
  webRoot : Option (List UInt8)
  json : Option (List UInt8)
  jsonLen : Nat
  timeoutMs : Int
  reset : Option Bool

/-- One call after the other on the same `client_fd`, whatever each of them returns. -/
def pumps (srv : HttpSseServer) : List PumpCall → Option Fd → Sys (Option Fd)
  | [], clientFd => pure clientFd
  | call :: rest, clientFd => do
      let pumped ← httpSsePump srv clientFd call.webRoot call.json call.jsonLen call.timeoutMs
        call.reset
      pumps srv rest pumped.clientFd

/-! ## `run_observe` -/

/-- `if (reset) request_rerun(..)`. -/
def requestRerunIf (reset : Bool) : Sys Unit := if reset then emit .rerun else pure ()

/-- One round of the loop: `client_fd` and the buffer `json`. -/
def observeRound (srv : HttpSseServer) (webRoot : Option (List UInt8)) (timeoutMs : Int) :
    Option Fd × List UInt8 → Sys ((Option Fd × List UInt8) ⊕ Option Fd)
  | (clientFd, json) => do
    -- `g_observe_stop` and `observe_release`
    let stop ← ask
    if stop.ret ≠ 0 then pure (.inr clientFd)
    else do
      let found ← ask
      let (json, n) := formatTelemetryJson found.snap json 4096
      if n = 0 then pure (.inl (clientFd, json))
      else do
        let pumped ← httpSsePump srv clientFd webRoot (some json) n timeoutMs (some false)
        if !pumped.ok then pure (.inr pumped.clientFd)
        else do
          requestRerunIf (pumped.reset = some true)
          pure (.inl (pumped.clientFd, json))

/-- What follows the loop. -/
def observeCleanup (srv : HttpSseServer) (clientFd : Option Fd) : Sys Unit := do
  closeFd clientFd
  let _ ← httpSseClose srv
  pure ()

/-- `run_observe`; `timeoutMs` is the interval, or 0 without pacing. -/
def runObserve (webRoot : Option (List UInt8)) (timeoutMs : Int) : Sys Int := do
  let mapping ← ask
  if mapping.ret ≠ 0 then pure 1
  else do
    let (srv, ok) ← httpSseListen {}
    if !ok then pure 1
    else do
      let json ← uninit 4096
      let clientFd ←
        loop (observeRound srv (some (rootOr webRoot)) timeoutMs) (none, json)
      observeCleanup srv clientFd
      pure 0

end RateHub.Http
