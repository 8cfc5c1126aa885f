import Mathlib.Data.List.Infix
import RateHub.Http.Sse
import RateHub.Http.TextProof

/-!
# Requests and their answers

What is answered depends on the bytes of the client alone, and not on how `recv` cut them
up or on what the buffer held before. `routedPump` and `routedServeOnce` are the two
functions with the buffer left out: they choose by the first bytes of what the client
sends. They are the same programs.

The request that `read_request` leaves in the buffer is a prefix of the stream and a NUL.
`request_path` works on the string in front of the first NUL and cuts it twice. A line of
a request that is answered has no control character, so it lies in front of the blank
line, and all of it has been read.
-/

namespace RateHub.Http

open Interaction Proc

/-! ## The specification -/

/-- The blank line at the end of a request. -/
def blankLine : List UInt8 := text "\r\n\r\n"

/-- The blank line is in the first 1023 bytes, with no NUL in front of its end. -/
def Accepts (stream : List UInt8) : Prop :=
  ∃ pre post, stream = pre ++ blankLine ++ post ∧ pre.length + 4 ≤ 1023 ∧ 0 ∉ pre

/-- The answers. -/
inductive Response where
  | sse
  | dashboard
  | reset
  | notFound
  deriving DecidableEq

/-- The answer to a stream. -/
def route (stream : List UInt8) : Response :=
  if text "GET /events " <+: stream then .sse
  else if text "GET / " <+: stream ∨ text "GET /dashboard.html " <+: stream then .dashboard
  else if text "POST /reset " <+: stream then .reset
  else .notFound

/-- What the pump does for an answer; the result is the held client. -/
def pumpAnswer (incoming : Fd) (clientFd : Option Fd) (webRoot : Option (List UInt8)) :
    Response → Sys (Option Fd)
  | .sse => do
      closeFd clientFd
      if ← sendSseHeaders incoming then do
        emit (.hold incoming)
        pure (some incoming)
      else do
        close incoming
        pure none
  | .dashboard => do
      let _ ← sendDashboard incoming webRoot
      close incoming
      pure clientFd
  | .reset => do
      let _ ← sendResetOk incoming
      close incoming
      pure clientFd
  | .notFound => do
      let _ ← sendNotFound incoming
      close incoming
      pure clientFd

/-- `*reset_out` is set in one case only. -/
def resetAfter (response : Response) (reset : Option Bool) : Option Bool :=
  if response = .reset then reset.map fun _ => true else reset

/-- `pumpAccept` on the bytes of the client. -/
def routedAccept (fds : Reply) (listenFd : Fd) (clientFd : Option Fd)
    (webRoot : Option (List UInt8)) (reset : Option Bool) : Sys (Option Fd × Option Bool) :=
  if (fds.revents ⟨0, Nat.zero_lt_two⟩).pollin then do
    match ← acceptClient listenFd with
    | none => pure (clientFd, reset)
    | some incoming => do
        let w ← get
        let req ← uninit 1024
        let (ok, _) ← readRequest incoming req 1024
        if ok then do
          let clientFd ← pumpAnswer incoming clientFd webRoot (route (w.source incoming))
          pure (clientFd, resetAfter (route (w.source incoming)) reset)
        else do
          close incoming
          pure (clientFd, reset)
  else pure (clientFd, reset)

/-- `http_sse_pump` on the bytes of the client. -/
def routedPump (srv : HttpSseServer) (clientFd : Option Fd) (webRoot : Option (List UInt8))
    (json : Option (List UInt8)) (jsonLen : Nat) (timeoutMs : Int) (reset : Option Bool) :
    Sys Pumped :=
  match srv.listenFd with
  | none => pure ⟨false, clientFd, reset⟩
  | some listenFd => do
      let fds ← poll (listenFd :: clientFd.toList) timeoutMs
      if fds.ret < 0 then pure ⟨decide (fds.errno = .eintr), clientFd, reset⟩
      else do
        let clientFd ← pumpDrop fds clientFd
        let (clientFd, reset) ← routedAccept fds listenFd clientFd webRoot reset
        let clientFd ← pumpEvent clientFd json jsonLen
        pure ⟨true, clientFd, reset⟩

/-- What `http_sse_serve_once` does for an answer, with `ok`. -/
def serveAnswer (client : Fd) (webRoot : Option (List UInt8)) (ssePayload : List UInt8)
    (sseLen : Nat) : Response → Sys Bool
  | .sse => do
      if ← sendSseHeaders client then sendSseData client ssePayload sseLen else pure false
  | .dashboard => sendDashboard client webRoot
  | .reset => sendResetOk client
  | .notFound => do
      let _ ← sendNotFound client
      pure false

/-- `http_sse_serve_once` on the bytes of the client. -/
def routedServeOnce (srv : HttpSseServer) (webRoot : Option (List UInt8))
    (ssePayload : List UInt8) (sseLen : Nat) : Sys Bool :=
  match srv.listenFd with
  | none => pure false
  | some listenFd => do
      match ← acceptClient listenFd with
      | none => pure false
      | some client => do
          let w ← get
          let req ← uninit 1024
          let (ok, _) ← readRequest client req 1024
          if ok then do
            let ok ← serveAnswer client webRoot ssePayload sseLen (route (w.source client))
            close client
            pure ok
          else do
            close client
            pure false

/-! ## Looking for a character -/

theorem strchr_none {s : List UInt8} {c : Char} (hnul : 0 ∉ s) (hs : byte c ∉ s)
    (rest : List UInt8) : strchr (s ++ 0 :: rest) c = none := by
  rw [strchr, cstr_nul hnul, List.idxOf?_eq_none_iff]
  exact hs

/-- `strchr` finds the first place. -/
theorem strchr_found {s t : List UInt8} {c : Char} (hnul : 0 ∉ s ++ byte c :: t)
    (hs : byte c ∉ s) (rest : List UInt8) :
    strchr (s ++ byte c :: t ++ 0 :: rest) c = some s.length := by
  rw [strchr, cstr_nul hnul, List.idxOf?_eq_some_iff]
  refine ⟨by simp, by simp, ?_⟩
  intro j hj heq
  rw [List.getElem_append_left hj] at heq
  exact hs (heq ▸ List.getElem_mem hj)

/-! ## The line of a request -/

/-- The first line up to its second blank. -/
def requestLine (method path : List UInt8) : List UInt8 :=
  method ++ byte ' ' :: (path ++ [byte ' '])

/-- The text in front of the first blank is unique. -/
theorem blank_inj {s s' t t' : List UInt8} (hs : byte ' ' ∉ s) (hs' : byte ' ' ∉ s')
    (heq : s ++ byte ' ' :: t = s' ++ byte ' ' :: t') : s = s' ∧ t = t' := by
  rcases List.append_eq_append_iff.mp heq with ⟨c, rfl, hc⟩ | ⟨c, rfl, hc⟩
  all_goals
    cases c with
    | nil => simpa [eq_comm] using hc
    | cons b c =>
        obtain ⟨rfl, -⟩ := List.cons.inj hc
        simp at hs hs'

/-- Two texts agree up to their first blanks. -/
theorem eq_up_to_blank {method s t l : List UInt8} (hs : byte ' ' ∉ s) (hmethod : byte ' ' ∉ method)
    (hpre : method ++ byte ' ' :: t <+: s ++ byte ' ' :: l) : method = s ∧ t <+: l := by
  obtain ⟨u, hu⟩ := hpre
  rw [List.append_assoc, List.cons_append] at hu
  obtain ⟨hhead, htail⟩ := blank_inj hmethod hs hu
  exact ⟨hhead, u, htail⟩

/-- No line with this method is asked for. -/
def NoLine (line method : List UInt8) : Prop := ∀ path, ¬ requestLine method path <+: line

/-- A request that `request_path` finds in a string: the two cuts leave its method at the
start of the buffer and its path behind. -/
structure Parsed (line method path buf : List UInt8) : Prop where
  asked : requestLine method path <+: line
  known : method = text "GET" ∨ method = text "POST"
  whole : byte ' ' ∉ path
  method_eq : cstr buf = method
  path_eq : cstr (buf.drop (method.length + 1)) = path

theorem requestPath_spec {line : List UInt8} (hnul : 0 ∉ line) (rest : List UInt8) :
    (∃ buf, requestPath (line ++ 0 :: rest) = (buf, none)
        ∧ NoLine line (text "GET") ∧ NoLine line (text "POST"))
      ∨ ∃ method path buf : List UInt8, requestPath (line ++ 0 :: rest) = (buf, some (method.length + 1))
        ∧ Parsed line method path buf := by
  have hget : byte ' ' ∉ text "GET" := by decide
  have hpost : byte ' ' ∉ text "POST" := by decide
  by_cases hblank : byte ' ' ∈ line
  swap
  · refine .inl ⟨_, by rw [requestPath, strchr_none hnul hblank], ?_, ?_⟩
    all_goals
      intro path hpre
      exact hblank (hpre.subset (by simp [requestLine]))
  obtain ⟨method, l, rfl, hmethod⟩ := List.eq_append_cons_of_mem hblank
  have hset : (method ++ byte ' ' :: l ++ 0 :: rest).set method.length 0
      = method ++ 0 :: (l ++ 0 :: rest) := by simp
  have hdrop : (method ++ 0 :: (l ++ 0 :: rest)).drop (method.length + 1) = l ++ 0 :: rest := by
    rw [← List.drop_drop, List.drop_left, List.drop_one, List.tail_cons]
  have hl : 0 ∉ l := fun h => hnul (by simp [h])
  by_cases hsecond : byte ' ' ∈ l
  swap
  · refine .inl ⟨method ++ 0 :: (l ++ 0 :: rest), ?_, ?_, ?_⟩
    · simp only [requestPath, strchr_found hnul hmethod, hset, hdrop, strchr_none hl hsecond]
    · intro path hpre
      exact hsecond ((eq_up_to_blank hmethod hget hpre).2.subset (by simp))
    · intro path hpre
      exact hsecond ((eq_up_to_blank hmethod hpost hpre).2.subset (by simp))
  obtain ⟨path, l, rfl, hpath⟩ := List.eq_append_cons_of_mem hsecond
  have hset₂ : (method ++ 0 :: (path ++ byte ' ' :: l ++ 0 :: rest)).set
      (method.length + 1 + path.length) 0 = method ++ 0 :: (path ++ 0 :: (l ++ 0 :: rest)) := by
    rw [Nat.add_assoc, List.set_append_right _ _ (by omega)]
    simp [Nat.add_comm 1]
  have hcmp : ∀ s : String,
      strcmp (method ++ 0 :: (path ++ 0 :: (l ++ 0 :: rest))) s = decide (method = text s) := by
    intro s
    rw [strcmp, cstr_nul (fun h => hnul (by simp [h]))]
  by_cases hok : method = text "GET" ∨ method = text "POST"
  swap
  · refine .inl ⟨method ++ 0 :: (path ++ 0 :: (l ++ 0 :: rest)), ?_, ?_, ?_⟩
    · simp only [requestPath, strchr_found hnul hmethod, hset, hdrop, strchr_found hl hpath, hset₂,
        hcmp]
      rw [not_or] at hok
      simp [hok]
    · intro path' hpre
      exact hok (.inl (eq_up_to_blank hmethod hget hpre).1.symm)
    · intro path' hpre
      exact hok (.inr (eq_up_to_blank hmethod hpost hpre).1.symm)
  · refine .inr ⟨method, path, method ++ 0 :: (path ++ 0 :: (l ++ 0 :: rest)), ?_, ?_⟩
    · simp only [requestPath, strchr_found hnul hmethod, hset, hdrop, strchr_found hl hpath, hset₂,
        hcmp]
      rcases hok with h | h <;> simp [h]
    · refine ⟨⟨l, by simp [requestLine]⟩, hok, hpath, cstr_nul (fun h => hnul (by simp [h])) _, ?_⟩
      rw [← List.drop_drop, List.drop_left, List.drop_one, List.tail_cons]
      exact cstr_nul (fun h => hnul (by simp [h])) _

/-- A line has one method and one path. -/
theorem Parsed.unique {line method path buf method' path' : List UInt8}
    (h : Parsed line method path buf) (hmethod : byte ' ' ∉ method') (hpath : byte ' ' ∉ path')
    (hpre : requestLine method' path' <+: line) : method' = method ∧ path' = path := by
  obtain ⟨l, rfl⟩ := h.asked
  have hknown : byte ' ' ∉ method := by
    rcases h.known with hm | hm <;> rw [hm] <;> decide
  rw [requestLine, requestLine, List.append_assoc, List.cons_append] at hpre
  obtain ⟨hm, hrest⟩ := eq_up_to_blank hknown hmethod hpre
  rw [List.append_assoc, List.singleton_append] at hrest
  exact ⟨hm, (eq_up_to_blank h.whole hpath hrest).1⟩

/-- The method that `is_post` tells from the other. -/
def methodOf (post : Bool) : List UInt8 := if post then text "POST" else text "GET"

/-- **The tests of the two functions ask for a line at the start of the string.** -/
theorem asked_iff {line : List UInt8} (hnul : 0 ∉ line) (rest : List UInt8) (post : Bool)
    {s : String} (hs : byte ' ' ∉ text s) :
    pathIs (requestPath (line ++ 0 :: rest)).1 (requestPath (line ++ 0 :: rest)).2 s = true
        ∧ isPost (requestPath (line ++ 0 :: rest)).1 = post
      ↔ requestLine (methodOf post) (text s) <+: line := by
  rcases requestPath_spec hnul rest with ⟨buf, heq, hget, hpost⟩ | ⟨method, path, buf, heq, hp⟩
  · have hno : NoLine line (methodOf post) := by
      cases post
      · exact hget
      · exact hpost
    simp [heq, pathIs, hno (text s)]
  · have hpath : pathIs buf (some (method.length + 1)) s = decide (path = text s) := by
      rw [pathIs, strcmp, hp.path_eq]
    have hpost : isPost buf = decide (method = text "POST") := by
      rw [isPost, strncmp, hp.method_eq]
      rcases hp.known with rfl | rfl <;> decide
    have hmethod : byte ' ' ∉ methodOf post := by cases post <;> decide
    have hiff : isPost buf = post ↔ method = methodOf post := by
      rw [hpost]
      rcases hp.known with rfl | rfl <;> cases post <;> decide
    rw [heq]
    simp only [hpath, decide_eq_true_eq, hiff]
    constructor
    · rintro ⟨rfl, rfl⟩
      exact hp.asked
    · intro hpre
      obtain ⟨h₁, h₂⟩ := hp.unique hmethod hs hpre
      exact ⟨h₂.symm, h₁.symm⟩

/-! ## What has been read -/

/-- A buffer that `read_request` accepts: the string at its start has been sent, and the
blank line is in it. -/
structure Request (stream buf : List UInt8) : Prop where
  nul : 0 ∈ buf
  sent : cstr buf <+: stream
  whole : blankLine <:+: cstr buf

/-- What is accepted is what the string functions see in the first 1023 bytes. -/
theorem accepts_of_blank {stream : List UInt8} {n : Nat} (hn : n ≤ 1023)
    (hblank : blankLine <:+: cstr (stream.take n)) : Accepts stream := by
  obtain ⟨pre, post, heq⟩ := hblank
  obtain ⟨rest, hrest⟩ : cstr (stream.take n) <+: stream.take n := List.takeWhile_prefix _
  have hlen : (stream.take n).length ≤ n := List.length_take_le _ _
  rw [← hrest, ← heq] at hlen
  refine ⟨pre, post ++ rest ++ stream.drop n, ?_, ?_, ?_⟩
  · rw [← List.append_assoc, ← List.append_assoc, heq, hrest, List.take_append_drop]
  · simp only [List.length_append, show blankLine.length = 4 from rfl] at hlen
    omega
  · intro hpre
    exact zero_notMem_cstr (stream.take n) (heq ▸ by simp [hpre])

theorem Accepts.blank {stream : List UInt8} (h : Accepts stream) :
    blankLine <:+: cstr (stream.take 1023) := by
  obtain ⟨pre, post, rfl, hlen, hpre⟩ := h
  have hnul : 0 ∉ pre ++ blankLine := by
    rw [List.mem_append, not_or]
    exact ⟨hpre, by decide⟩
  have hle : (pre ++ blankLine).length ≤ 1023 := by
    rw [List.length_append]
    exact hlen
  rw [List.take_append, List.take_of_length_le hle, cstr_append hnul]
  exact ⟨pre, _, rfl⟩

/-- A line without a carriage return has been read when the blank line has. -/
theorem Request.asked {stream buf key : List UInt8} (h : Request stream buf)
    (hkey : byte '\r' ∉ key) : key <+: cstr buf ↔ key <+: stream := by
  constructor
  · intro hpre
    exact hpre.trans h.sent
  · intro hpre
    rcases List.prefix_or_prefix_of_prefix hpre h.sent with hshort | hlong
    · exact hshort
    · exact absurd (hlong.subset (h.whole.subset (by decide))) hkey

/-- The test of a response on the buffer is the test on the stream. -/
theorem Request.asked_iff {stream buf : List UInt8} (h : Request stream buf) (post : Bool)
    {s : String} (hs : byte ' ' ∉ text s)
    (hkey : byte '\r' ∉ requestLine (methodOf post) (text s)) :
    pathIs (requestPath buf).1 (requestPath buf).2 s = true ∧ isPost (requestPath buf).1 = post
      ↔ requestLine (methodOf post) (text s) <+: stream := by
  obtain ⟨rest, heq, hnul⟩ := exists_cstr h.nul
  have htest := Http.asked_iff hnul rest post hs
  rw [← heq] at htest
  rw [htest, h.asked hkey]

/-! ## Reading -/

/-- The first `got` bytes of the stream are in the buffer. -/
structure Filled (stream : List UInt8) (got : Nat) (buf : List UInt8) : Prop where
  size : buf.length = 1024
  room : got ≤ 1023
  le : got ≤ stream.length
  bytes : buf.take got = stream.take got

/-- A chunk in the buffer, and the NUL behind it. -/
def received (buf : List UInt8) (got : Nat) (chunk : List UInt8) : List UInt8 :=
  store (store buf got chunk) (got + chunk.length) [0]

theorem Filled.received {stream buf chunk : List UInt8} {got : Nat} (h : Filled stream got buf)
    (hchunk : chunk <+: stream.drop got) (hroom : got + chunk.length ≤ 1023) :
    (∃ rest, received buf got chunk = stream.take (got + chunk.length) ++ 0 :: rest)
      ∧ Filled stream (got + chunk.length) (received buf got chunk) := by
  have hle := h.le
  have hsize := h.size
  have hlen := hchunk.length_le
  rw [List.length_drop] at hlen
  have hbytes : buf.take got ++ chunk = stream.take (got + chunk.length) := by
    rw [h.bytes, List.take_add, ← List.prefix_iff_eq_take.mp hchunk]
  have htake : (stream.take (got + chunk.length)).length = got + chunk.length := by
    rw [List.length_take]
    omega
  have hstore : Http.received buf got chunk
      = stream.take (got + chunk.length) ++ 0 :: buf.drop (got + chunk.length + 1) := by
    have hdrop : (stream.take (got + chunk.length) ++ buf.drop (got + chunk.length)).drop
        (got + chunk.length + 1) = buf.drop (got + chunk.length + 1) := by
      rw [← List.drop_drop, List.drop_left' htake, List.drop_drop]
    simp only [Http.received, store, hbytes, List.take_left' htake, List.length_singleton, hdrop,
      List.append_assoc, List.singleton_append]
  refine ⟨⟨_, hstore⟩, ?_, hroom, by omega, ?_⟩
  · rw [hstore, List.length_append, htake, List.length_cons, List.length_drop]
    omega
  · rw [hstore, List.take_left' htake]

/-- What a round makes of a chunk: the NUL behind it, and the test. -/
def afterChunk (got : Nat) (buf chunk : List UInt8) : (Nat × List UInt8) ⊕ (Bool × List UInt8) :=
  if strstr (received buf got chunk) "\r\n\r\n" then .inr (true, received buf got chunk)
  else .inl (got + chunk.length, received buf got chunk)

/-- What `recv` takes from a peer. -/
def World.taken (w : World) (fd : Fd) (n : Nat) : World :=
  { w with source := Function.update w.source fd ((w.source fd).drop n) }

theorem run_callOn (e : Event) (w : World) (r : Reply) (rs : List Reply) :
    callOn e w (r :: rs) = ⟨[e], some (r, w, rs)⟩ := rfl

theorem run_receive {fd : Fd} {most n : Nat} {e : Event} {w : World} {r : Reply} {rs : List Reply}
    (hr : r.count most = .ok n) :
    receive fd most e w (r :: rs)
      = ⟨[e], some (.ok ((w.source fd).take n), w.taken fd n, rs)⟩ := by
  simp only [receive, run_bind, run_ask, run_emit, andThen, hr]
  rfl

/-- A round that has an answer to both its calls, and no error. -/
theorem readRound_chunk {fd : Fd} {got : Nat} {buf : List UInt8} {w : World} {p r : Reply}
    {rs : List Reply} {n : Nat} (hroom : got + 1 < 1024) (hp : p.pollFailed = false)
    (hr : r.count (1023 - got) = .ok n) :
    readRound fd 1024 (got, buf) w (p :: r :: rs)
      = ⟨[.poll [fd] 500, .recv fd],
        some (if ((w.source fd).take n).length = 0 then .inr (false, buf)
          else afterChunk got buf ((w.source fd).take n), w.taken fd n, rs)⟩ := by
  rw [readRound, if_pos hroom, run_bind, poll, run_callOn, andThen]
  simp only [hp, Bool.false_eq_true, if_false]
  rw [run_bind, recv, run_receive hr, andThen]
  simp only
  split <;> rfl

theorem run_receive_error {fd : Fd} {most : Nat} {e : Event} {w : World} {r : Reply}
    {rs : List Reply} {errno : Errno} (hr : r.count most = .error errno) :
    receive fd most e w (r :: rs) = ⟨[e], some (.error errno, w, rs)⟩ := by
  simp only [receive, run_bind, run_ask, run_emit, andThen, hr]
  rfl

theorem readRound_error {fd : Fd} {got : Nat} {buf : List UInt8} {w : World} {p r : Reply}
    {rs : List Reply} {errno : Errno} (hroom : got + 1 < 1024) (hp : p.pollFailed = false)
    (hr : r.count (1023 - got) = .error errno) :
    readRound fd 1024 (got, buf) w (p :: r :: rs)
      = ⟨[.poll [fd] 500, .recv fd],
        some (if errno.again then .inl (got, buf) else .inr (false, buf), w, rs)⟩ := by
  rw [readRound, if_pos hroom, run_bind, poll, run_callOn, andThen]
  simp only [hp, Bool.false_eq_true, if_false]
  rw [run_bind, recv, run_receive_error hr, andThen]
  rfl

/-- What a round leaves when it does not give up. -/
structure Progress (fd : Fd) (got : Nat) (buf : List UInt8) (w : World)
    (x : (Nat × List UInt8) ⊕ (Bool × List UInt8)) (w' : World) : Prop where
  room : got + 1 < 1024
  cases : (x = .inl (got, buf) ∧ w' = w)
    ∨ ∃ n ≤ 1023 - got, (w.source fd).take n ≠ []
      ∧ x = afterChunk got buf ((w.source fd).take n) ∧ w' = w.taken fd n

theorem count_le {r : Reply} {most n : Nat} (hr : r.count most = .ok n) : n ≤ most := by
  rw [Reply.count] at hr
  split at hr
  · cases hr
  · cases hr
    exact Nat.min_le_right _ _

theorem readRound_cases {fd : Fd} {got : Nat} {buf : List UInt8} {w w' : World}
    {rs rs' : List Reply} {x : (Nat × List UInt8) ⊕ (Bool × List UInt8)}
    (h : (readRound fd 1024 (got, buf) w rs).result = some (x, w', rs')) :
    x = .inr (false, buf) ∨ rs'.length < rs.length ∧ Progress fd got buf w x w' := by
  by_cases hroom : got + 1 < 1024
  swap
  · rw [readRound, if_neg hroom, run_pure] at h
    cases h
    exact .inl rfl
  cases rs with
  | nil =>
      rw [readRound, if_pos hroom] at h
      cases h
  | cons p rs =>
      cases hp : p.pollFailed with
      | true =>
          rw [readRound, if_pos hroom, run_bind, poll, run_callOn, andThen] at h
          simp only [hp, if_true, run_pure] at h
          cases h
          exact .inl rfl
      | false =>
          cases rs with
          | nil =>
              rw [readRound, if_pos hroom, run_bind, poll, run_callOn, andThen] at h
              simp only [hp, Bool.false_eq_true, if_false] at h
              cases h
          | cons r rs =>
              cases hr : r.count (1023 - got) with
              | error e =>
                  rw [readRound_error hroom hp hr] at h
                  cases h
                  cases e.again with
                  | true => exact .inr ⟨Nat.lt_add_of_pos_right Nat.two_pos, hroom, .inl ⟨rfl, rfl⟩⟩
                  | false => exact .inl rfl
              | ok n =>
                  rw [readRound_chunk hroom hp hr] at h
                  cases h
                  by_cases hnil : ((w.source fd).take n).length = 0
                  · rw [if_pos hnil]
                    exact .inl rfl
                  · rw [if_neg hnil]
                    rw [List.length_eq_zero_iff] at hnil
                    exact .inr ⟨Nat.lt_add_of_pos_right Nat.two_pos, hroom,
                      .inr ⟨n, count_le hr, hnil, rfl, rfl⟩⟩

theorem asks_readRound (fd : Fd) : Asks (readRound fd 1024) := by
  rintro ⟨got, buf⟩ w rs b w' rs' h
  rcases readRound_cases h with hquit | ⟨hlt, -⟩
  · cases hquit
  · exact hlt

/-- Between two rounds: the bytes read are in the buffer, the others are still to come,
and there is no blank line yet. -/
structure Reading (fd : Fd) (stream : List UInt8) (got : Nat) (buf : List UInt8) (w : World) :
    Prop where
  filled : Filled stream got buf
  source : w.source fd = stream.drop got
  none : ¬ blankLine <:+: cstr (stream.take got)

theorem Reading.start {fd : Fd} {buf : List UInt8} {w : World} (hbuf : buf.length = 1024) :
    Reading fd (w.source fd) 0 buf w where
  filled := ⟨hbuf, Nat.zero_le _, Nat.zero_le _, rfl⟩
  source := rfl
  none := by
    rw [List.take_zero]
    decide

/-- A chunk completes the request, or is read like those before it. -/
theorem Reading.chunk {fd : Fd} {stream buf chunk : List UInt8} {got : Nat} {w : World}
    (h : Reading fd stream got buf w) (hchunk : chunk <+: stream.drop got)
    (hroom : got + chunk.length ≤ 1023) :
    (∃ buf', afterChunk got buf chunk = .inr (true, buf') ∧ Request stream buf' ∧ Accepts stream)
      ∨ ∃ buf', afterChunk got buf chunk = .inl (got + chunk.length, buf')
        ∧ ∀ w' : World, w'.source fd = stream.drop (got + chunk.length) →
          Reading fd stream (got + chunk.length) buf' w' := by
  obtain ⟨⟨rest, hbuf⟩, hfilled⟩ := h.filled.received hchunk hroom
  have hcstr : cstr (received buf got chunk) = cstr (stream.take (got + chunk.length)) := by
    rw [hbuf, cstr_append_nul]
  have hstrstr : strstr (received buf got chunk) "\r\n\r\n" = true
      ↔ blankLine <:+: cstr (stream.take (got + chunk.length)) := by
    rw [strstr, hcstr, decide_eq_true_eq, blankLine]
  by_cases hblank : blankLine <:+: cstr (stream.take (got + chunk.length))
  · refine .inl ⟨received buf got chunk, if_pos ?_, ⟨?_, ?_, ?_⟩, accepts_of_blank hroom hblank⟩
    · rw [hstrstr]
      exact hblank
    · rw [hbuf]
      exact List.mem_append_right _ List.mem_cons_self
    · rw [hcstr]
      exact (List.takeWhile_prefix _).trans (List.take_prefix _ _)
    · rw [hcstr]
      exact hblank
  · refine .inr ⟨received buf got chunk, if_neg ?_, fun w' hw' => ⟨hfilled, hw', hblank⟩⟩
    rw [hstrstr]
    exact hblank

/-- What `recv` leaves is what follows the chunk. -/
theorem taken_source {fd : Fd} {stream : List UInt8} {got : Nat} {w : World}
    (hsource : w.source fd = stream.drop got) (n : Nat) :
    (w.taken fd n).source fd = stream.drop (got + ((w.source fd).take n).length) := by
  have hleft : (w.taken fd n).source fd = (w.source fd).drop n := Function.update_self ..
  rw [hleft, ← List.drop_drop, ← hsource, List.length_take]
  rcases Nat.le_total n (w.source fd).length with hle | hle
  · rw [Nat.min_eq_left hle]
  · rw [Nat.min_eq_right hle, List.drop_length, List.drop_of_length_le hle]

/-- **A request that is read is one.** -/
theorem readRequest_request (fd : Fd) {buf : List UInt8} (hbuf : buf.length = 1024)
    (stream : List UInt8) :
    Triple (fun _ w => w.source fd = stream) (readRequest fd buf 1024)
      (fun x _ _ => x.1 = true → Request stream x.2) (fun _ => True) := by
  have hloop := @Triple.loop Event Reply World _ _
    (fun x _ _ => x.1 = true → Request stream x.2) (fun _ => True) (readRound fd 1024)
    (fun b _ w => Reading fd stream b.1 b.2 w) ?_ (fun _ _ _ _ => trivial) (0, buf)
  · refine hloop.mono ?_ (fun _ _ _ h => h) (fun _ h => h)
    rintro h w rfl
    exact .start hbuf
  · rintro ⟨got, buf⟩ h w rs hreading
    refine ⟨?_, fun _ => trivial⟩
    intro x w' rs' hres
    rcases readRound_cases hres with rfl | ⟨-, hroom, ⟨rfl, rfl⟩ | ⟨n, hn, -, rfl, rfl⟩⟩
    · exact fun hfalse => absurd hfalse Bool.false_ne_true
    · exact hreading
    · have hlen := List.length_take_le n (w.source fd)
      have hchunk : (w.source fd).take n <+: stream.drop got :=
        hreading.source ▸ List.take_prefix _ _
      rcases hreading.chunk hchunk (by omega) with ⟨buf', heq, hreq, -⟩ | ⟨buf', heq, hnext⟩
      · rw [heq]
        exact fun _ => hreq
      · rw [heq]
        exact hnext _ (taken_source hreading.source n)

/-- A reply that is neither a timeout nor an error. -/
structure Reply.Calm (r : Reply) : Prop where
  ret : 0 < r.ret
  good : (r.revents 0).bad = false

theorem Reply.Calm.pollFailed {r : Reply} (h : r.Calm) : r.pollFailed = false := by
  rw [Reply.pollFailed, h.good, Bool.or_false, decide_eq_false_iff_not]
  exact Int.not_le.mpr h.ret

/-- A calm reply to `recv` takes at least a byte. -/
theorem Reply.Calm.count {r : Reply} (h : r.Calm) (most : Nat) :
    ∃ n, r.count (most + 1) = .ok (n + 1) ∧ n ≤ most := by
  have hret := h.ret
  refine ⟨min r.ret.toNat (most + 1) - 1, ?_, by omega⟩
  rw [Reply.count, if_neg (by omega)]
  congr 1
  omega

/-- **The bytes decide.** The induction is on the room left in the buffer. -/
theorem readRequest_accepts (fd : Fd) (stream : List UInt8) :
    ∀ (room got : Nat) (buf : List UInt8) (w : World) (rs : List Reply), got + room = 1023 →
      Reading fd stream got buf w → (∀ r ∈ rs, r.Calm) → 2 * room ≤ rs.length →
      ∃ ok buf' w' rs', (loop (readRound fd 1024) (got, buf) w rs).result = some ((ok, buf'), w', rs')
        ∧ (ok = true ↔ Accepts stream) := by
  intro room
  induction room using Nat.strong_induction_on with
  | h room ih =>
      intro got buf w rs hgot hreading hcalm hlen
      rw [loop_eq (asks_readRound fd), run_bind]
      rcases Nat.eq_zero_or_pos room with rfl | hpos
      · rw [readRound, if_neg (by omega), run_pure]
        have hfull : stream.take got = stream.take 1023 := by
          rw [show got = 1023 by omega]
        refine ⟨false, buf, w, rs, rfl, by simp, ?_⟩
        intro hacc
        exact absurd (hfull ▸ hacc.blank) hreading.none
      · obtain ⟨most, rfl⟩ : ∃ k, room = k + 1 := ⟨room - 1, by omega⟩
        obtain ⟨p, r, rs, rfl⟩ : ∃ p r rs', rs = p :: r :: rs' := by
          obtain _ | ⟨p, _ | ⟨r, rs⟩⟩ := rs
          · simp only [List.length_nil] at hlen
            omega
          · simp only [List.length_cons, List.length_nil] at hlen
            omega
          · exact ⟨p, r, rs, rfl⟩
        obtain ⟨n, hcount, hn⟩ := (hcalm r (by simp)).count most
        have hsub : 1023 - got = most + 1 := by omega
        rw [readRound_chunk (by omega) (hcalm p (by simp)).pollFailed (hsub ▸ hcount), andThen]
        by_cases hnil : ((w.source fd).take (n + 1)).length = 0
        · simp only [if_pos hnil]
          have hend : stream.length ≤ got := by
            rw [hreading.source, List.length_take, List.length_drop] at hnil
            omega
          have hall : stream.take got = stream.take 1023 := by
            rw [List.take_of_length_le hend, List.take_of_length_le (by omega)]
          refine ⟨false, buf, _, _, rfl, by simp, ?_⟩
          intro hacc
          exact absurd (hall ▸ hacc.blank) hreading.none
        · simp only [if_neg hnil]
          have hle := List.length_take_le (n + 1) (w.source fd)
          have hchunk : (w.source fd).take (n + 1) <+: stream.drop got :=
            hreading.source ▸ List.take_prefix _ _
          rcases hreading.chunk hchunk (by omega) with ⟨buf', heq, -, hacc⟩ | ⟨buf', heq, hnext⟩
          · rw [heq]
            exact ⟨true, buf', _, _, rfl, by simp [hacc]⟩
          · rw [heq]
            simp only [List.length_cons] at hlen
            refine ih (most + 1 - ((w.source fd).take (n + 1)).length) (by omega) _ buf' _ _ (by omega)
              (hnext _ (taken_source hreading.source _)) ?_ (by omega)
            intro r' hr'
            exact hcalm r' (by simp [hr'])

/-! ## The two dispatches -/

/-- When each answer is given. -/
structure Routes (stream : List UInt8) : Prop where
  sse : route stream = .sse ↔ text "GET /events " <+: stream
  dashboard : route stream = .dashboard
    ↔ text "GET / " <+: stream ∨ text "GET /dashboard.html " <+: stream
  reset : route stream = .reset ↔ text "POST /reset " <+: stream
  notFound : route stream = .notFound
    ↔ ¬ text "GET /events " <+: stream ∧ ¬ text "GET / " <+: stream
      ∧ ¬ text "GET /dashboard.html " <+: stream ∧ ¬ text "POST /reset " <+: stream

/-- A stream starts with one of two texts that are no prefixes of each other. -/
theorem not_both {stream s t : List UInt8} (hs : s <+: stream)
    (hne : ¬ s <+: t ∧ ¬ t <+: s) : ¬ t <+: stream := by
  intro ht
  rcases List.prefix_or_prefix_of_prefix hs ht with h | h
  · exact hne.1 h
  · exact hne.2 h

/-- The order of the tests does not matter. -/
theorem routes (stream : List UInt8) : Routes stream := by
  by_cases hevents : text "GET /events " <+: stream
  · have hroot := not_both (t := text "GET / ") hevents (by decide)
    have hpage := not_both (t := text "GET /dashboard.html ") hevents (by decide)
    have hreset := not_both (t := text "POST /reset ") hevents (by decide)
    have hroute : route stream = .sse := by rw [route, if_pos hevents]
    constructor <;> simp [hroute, hevents, hroot, hpage, hreset]
  by_cases hdash : text "GET / " <+: stream ∨ text "GET /dashboard.html " <+: stream
  · have hreset : ¬ text "POST /reset " <+: stream := by
      rcases hdash with h | h <;> exact not_both h (by decide)
    have hroute : route stream = .dashboard := by rw [route, if_neg hevents, if_pos hdash]
    constructor <;> simp only [hroute, hevents, hdash, hreset] <;> simp
    exact fun hroot => hdash.resolve_left hroot
  rw [not_or] at hdash
  by_cases hreset : text "POST /reset " <+: stream
  · have hroute : route stream = .reset := by
      simp [route, hevents, hdash, hreset]
    constructor <;> simp [hroute, hevents, hdash, hreset]
  · have hroute : route stream = .notFound := by
      simp [route, hevents, hdash, hreset]
    constructor <;> simp [hroute, hevents, hdash, hreset]

section Dispatch

variable {stream buf : List UInt8}

/-- The tests of the two functions, in their order in `http_sse_serve_once`. -/
structure Tests (stream req : List UInt8) (path : Option Nat) : Prop where
  sse : (pathIs req path "/events" && !isPost req) = decide (route stream = .sse)
  dashboard : ((pathIs req path "/" || pathIs req path "/dashboard.html") && !isPost req)
    = decide (route stream = .dashboard)
  reset : (pathIs req path "/reset" && isPost req) = decide (route stream = .reset)

theorem Request.tests (h : Request stream buf) :
    Tests stream (requestPath buf).1 (requestPath buf).2 := by
  have hevents := h.asked_iff (s := "/events") false (by decide) (by decide)
  have hroot := h.asked_iff (s := "/") false (by decide) (by decide)
  have hpage := h.asked_iff (s := "/dashboard.html") false (by decide) (by decide)
  have hreset := h.asked_iff (s := "/reset") true (by decide) (by decide)
  refine ⟨?_, ?_, ?_⟩
  · rw [Bool.eq_iff_iff, decide_eq_true_eq, (routes stream).sse, Bool.and_eq_true,
      Bool.not_eq_true']
    exact hevents
  · rw [Bool.eq_iff_iff, decide_eq_true_eq, (routes stream).dashboard, Bool.and_eq_true,
      Bool.not_eq_true', Bool.or_eq_true, or_and_right]
    exact or_congr hroot hpage
  · rw [Bool.eq_iff_iff, decide_eq_true_eq, (routes stream).reset, Bool.and_eq_true]
    exact hreset

theorem pumpDispatch_eq (h : Request stream buf) (incoming : Fd) (clientFd : Option Fd)
    (webRoot : Option (List UInt8)) (reset : Option Bool) :
    pumpDispatch incoming buf clientFd webRoot reset
      = pumpAnswer incoming clientFd webRoot (route stream) >>= fun clientFd =>
        pure (clientFd, resetAfter (route stream) reset) := by
  have htests := h.tests
  simp only [pumpDispatch, htests.sse, htests.dashboard, htests.reset]
  cases route stream with
  | sse =>
      simp only [pumpAnswer, resetAfter, reduceCtorEq, decide_false, decide_true, Bool.false_eq_true,
        if_false, if_true, Proc.bind_assoc]
      refine congrArg _ (funext fun _ => congrArg _ (funext fun ok => ?_))
      cases ok <;> rfl
  | _ =>
      simp only [pumpAnswer, resetAfter, reduceCtorEq, decide_false, decide_true, Bool.false_eq_true,
        if_false, if_true, Proc.bind_assoc, Proc.pure_bind]

theorem serveDispatch_eq (h : Request stream buf) (client : Fd) (webRoot : Option (List UInt8))
    (ssePayload : List UInt8) (sseLen : Nat) :
    serveDispatch client buf webRoot ssePayload sseLen
      = serveAnswer client webRoot ssePayload sseLen (route stream) >>= fun ok =>
        close client >>= fun _ => pure ok := by
  have htests := h.tests
  simp only [serveDispatch, serveResponse, htests.sse, htests.dashboard, htests.reset]
  cases route stream <;>
    simp only [serveAnswer, reduceCtorEq, decide_false, decide_true, Bool.false_eq_true, if_false,
      if_true]

end Dispatch

/-! ## The programs -/

/-- Two programs that go on alike from every state the first part can leave. -/
theorem bind_congr_run {α β : Type} {p : Sys α} {f g : α → Sys β} {w : World} {rs : List Reply}
    (h : ∀ a w' rs', (p w rs).result = some (a, w', rs') → f a w' rs' = g a w' rs') :
    (p >>= f) w rs = (p >>= g) w rs := by
  rw [run_bind, run_bind, andThen, andThen]
  cases hres : (p w rs).result with
  | none => rfl
  | some x =>
      obtain ⟨a, w', rs'⟩ := x
      simp only [h a w' rs' hres]

/-- An array on the stack has its size, whatever is in it. -/
theorem uninit_result {n : Nat} {w w' : World} {rs rs' : List Reply} {buf : List UInt8}
    (h : (uninit n w rs).result = some (buf, w', rs')) : buf.length = n ∧ w' = w := by
  cases rs with
  | nil => cases h
  | cons r rs =>
      cases h
      refine ⟨?_, rfl⟩
      rw [List.length_take, List.length_append, List.length_replicate]
      omega

/-- Reading a request and going on with the buffer, and going on without it. -/
theorem answer_congr {α : Type} {fd : Fd} {f : List UInt8 → Sys α} {g : List UInt8 → Sys α}
    {other : Sys α} (h : ∀ stream buf, Request stream buf → f buf = g stream) :
    (uninit 1024 >>= fun req => readRequest fd req 1024 >>= fun x => if x.1 then f x.2 else other)
      = (get >>= fun w => uninit 1024 >>= fun req => readRequest fd req 1024 >>= fun x =>
        if x.1 then g (w.source fd) else other) := by
  funext w rs
  show (uninit 1024 >>= _) w rs = (uninit 1024 >>= _) w rs
  refine bind_congr_run fun buf w' rs' hres => ?_
  obtain ⟨hlen, rfl⟩ := uninit_result hres
  refine bind_congr_run fun x v qs hread => ?_
  obtain ⟨ok, buf'⟩ := x
  cases ok with
  | false => rfl
  | true =>
      have hreq := (readRequest_request fd hlen (w'.source fd) [] w' rs' rfl).ends _ _ _ hread rfl
      exact congrFun (congrFun (h _ _ hreq) v) qs

theorem pumpAccept_eq (fds : Reply) (listenFd : Fd) (clientFd : Option Fd)
    (webRoot : Option (List UInt8)) (reset : Option Bool) :
    pumpAccept fds listenFd clientFd webRoot reset
      = routedAccept fds listenFd clientFd webRoot reset := by
  rw [pumpAccept, routedAccept]
  refine if_congr Iff.rfl ?_ rfl
  refine congrArg _ (funext fun got => ?_)
  cases got with
  | none => rfl
  | some incoming =>
      exact answer_congr fun stream buf h => pumpDispatch_eq h incoming clientFd webRoot reset

theorem httpSsePump_eq (srv : HttpSseServer) (clientFd : Option Fd)
    (webRoot : Option (List UInt8)) (json : Option (List UInt8)) (jsonLen : Nat) (timeoutMs : Int)
    (reset : Option Bool) :
    httpSsePump srv clientFd webRoot json jsonLen timeoutMs reset
      = routedPump srv clientFd webRoot json jsonLen timeoutMs reset := by
  rw [httpSsePump, routedPump]
  cases srv.listenFd with
  | none => rfl
  | some listenFd => simp only [pumpAccept_eq]

theorem httpSseServeOnce_eq (srv : HttpSseServer) (webRoot : Option (List UInt8))
    (ssePayload : List UInt8) (sseLen : Nat) :
    httpSseServeOnce srv webRoot ssePayload sseLen
      = routedServeOnce srv webRoot ssePayload sseLen := by
  rw [httpSseServeOnce, routedServeOnce]
  cases srv.listenFd with
  | none => rfl
  | some listenFd =>
      show acceptClient listenFd >>= _ = acceptClient listenFd >>= _
      refine congrArg _ (funext fun got => ?_)
      cases got with
      | none => rfl
      | some client =>
          exact answer_congr fun stream buf h => serveDispatch_eq h client webRoot ssePayload sseLen

/-- **Routing depends only on the bytes.**

* On calm replies, however long the chunks they let through, `read_request` returns, and it
  returns true exactly for a stream that is accepted.
* The answer to a stream is given by its first bytes.
* Whatever the replies, the pump does what it does by the bytes of the client alone, and it
  sets `*reset_out` for one answer only; so does `http_sse_serve_once`.
-/
theorem routing_by_bytes :
    (∀ (fd : Fd) (buf : List UInt8) (w : World) (rs : List Reply), buf.length = 1024 →
        (∀ r ∈ rs, r.Calm) → 2 * 1023 ≤ rs.length →
        ∃ ok buf' w' rs', (readRequest fd buf 1024 w rs).result = some ((ok, buf'), w', rs')
          ∧ (ok = true ↔ Accepts (w.source fd)))
      ∧ (∀ stream, Routes stream)
      ∧ (∀ srv clientFd webRoot json jsonLen timeoutMs reset,
          httpSsePump srv clientFd webRoot json jsonLen timeoutMs reset
            = routedPump srv clientFd webRoot json jsonLen timeoutMs reset)
      ∧ ∀ srv webRoot ssePayload sseLen,
          httpSseServeOnce srv webRoot ssePayload sseLen
            = routedServeOnce srv webRoot ssePayload sseLen := by
  refine ⟨?_, routes, httpSsePump_eq, httpSseServeOnce_eq⟩
  intro fd buf w rs hbuf hcalm hlen
  exact readRequest_accepts fd (w.source fd) 1023 0 buf w rs rfl (.start hbuf) hcalm hlen

/-- A client that asks for a reset. -/
def resetWorld : World := ⟨fun _ => text "POST /reset HTTP/1.1\r\n\r\n", 2⟩

theorem routing_by_bytes_reset :
    (∃ buf' w' rs', (readRequest 1 (List.replicate 1024 0) 1024 resetWorld
        (List.replicate 2046 willing)).result = some ((true, buf'), w', rs'))
      ∧ route (resetWorld.source 1) = .reset := by
  have haccepts : Accepts (resetWorld.source 1) :=
    ⟨text "POST /reset HTTP/1.1", [], by decide, by decide, by decide⟩
  have hcalm : ∀ r ∈ List.replicate 2046 willing, r.Calm := by
    intro r hr
    rw [List.eq_of_mem_replicate hr]
    exact ⟨by decide, by decide⟩
  obtain ⟨hread, hroutes, -⟩ := routing_by_bytes
  obtain ⟨ok, buf', w', rs', hres, hok⟩ := hread 1 (List.replicate 1024 0) resetWorld
    (List.replicate 2046 willing) List.length_replicate hcalm (by rw [List.length_replicate])
  rw [hok.mpr haccepts] at hres
  exact ⟨⟨buf', w', rs', hres⟩, (hroutes _).reset.mpr (by decide)⟩

end RateHub.Http
