import RateHub.Http.Sse
import RateHub.Lib.Handles

/-!
# Who owns a descriptor

Every function of the server is given the descriptors that are live before it and says
which ones are live after it. Most leave the set as it is: they poll, send and receive on
a descriptor of the set, or open a file and close it on every way out. The few that do
not say so in their result: `accept_client` adds the descriptor it returns,
`drop_if_closed` and the pump give back what is left in `client_fd`.

Waiting, at any point, only asks that nothing improper has happened so far.
-/

namespace RateHub.Http

open Interaction Handles

/-! ## What a call does with descriptors -/

def Event.gets : Event → Option Fd
  | .socket got => got
  | .accept _ got => got
  | .openFile _ got => got
  | _ => none

def Event.uses : Event → List Fd
  | .setup fd => [fd]
  | .poll fds _ => fds
  | .accept listen _ => [listen]
  | .recv fd => [fd]
  | .send fd _ _ => [fd]
  | .fstat fd => [fd]
  | .read fd => [fd]
  | _ => []

def Event.frees : Event → Option Fd
  | .close fd => some fd
  | _ => none

/-- The descriptors as handles. -/
def descriptors : Treatment Event Fd := ⟨Event.gets, Event.uses, Event.frees⟩

/-- So far every descriptor was treated properly. -/
def Tidy (base : Set Fd) (h : List Event) : Prop := descriptors.Clean base h

/-- The live descriptors are those of `S`, and the next one will be new. -/
structure Owns (base S : Set Fd) (h : List Event) (w : World) : Prop where
  owned : Owned descriptors base S h
  below : ∀ fd, fd ∈ base ∨ fd ∈ descriptors.obtained h → fd < w.next

theorem Owns.tidy {base S : Set Fd} {h : List Event} {w : World} (hown : Owns base S h w) :
    Tidy base h := hown.owned.clean

/-- A descriptor of the set is not the next one. -/
theorem Owns.lt {base S : Set Fd} {h : List Event} {w : World} (hown : Owns base S h w)
    {fd : Fd} (hfd : fd ∈ S) : fd < w.next :=
  hown.below fd ((hown.owned.live fd).mpr hfd).1

/-- The call uses descriptors of the set and neither obtains nor closes one. -/
structure Plain (S : Set Fd) (e : Event) : Prop where
  gets : e.gets = none
  frees : e.frees = none
  uses : ∀ fd ∈ e.uses, fd ∈ S

/-- The program leaves the set of live descriptors as it is. -/
def Keeps {α : Type} (base S : Set Fd) (p : Sys α) : Prop :=
  Triple (Owns base S) p (fun _ => Owns base S) (Tidy base)

/-- The live descriptors are those of `S` and, when there is one, the one in `c`. -/
structure Holds (base S : Set Fd) (c : Option Fd) (h : List Event) (w : World) : Prop where
  apart : ∀ fd, c = some fd → fd ∉ S
  owns : Owns base {fd | c = some fd ∨ fd ∈ S} h w

section

variable {base S : Set Fd} {α β : Type} {fd : Fd}

theorem holds_none {h : List Event} {w : World} :
    Holds base S none h w ↔ Owns base S h w := by
  have hset : {fd | none = some fd ∨ fd ∈ S} = S := by
    ext fd
    simp
  constructor
  · intro hh
    simpa only [hset] using hh.owns
  · intro hown
    exact ⟨by simp, by simpa only [hset] using hown⟩

theorem holds_some {h : List Event} {w : World} :
    Holds base S (some fd) h w ↔ fd ∉ S ∧ Owns base (insert fd S) h w := by
  have hset : {x | some fd = some x ∨ x ∈ S} = insert fd S := by
    ext x
    simp [eq_comm]
  constructor
  · intro hh
    exact ⟨hh.apart fd rfl, by simpa only [hset] using hh.owns⟩
  · rintro ⟨hfd, hown⟩
    refine ⟨?_, by simpa only [hset] using hown⟩
    rintro x hx
    obtain rfl := Option.some.inj hx
    exact hfd

theorem Owns.plain {h : List Event} {w : World} {e : Event} (hown : Owns base S h w)
    (he : Plain S e) : Owns base S (h ++ [e]) w where
  owned := hown.owned.use he.gets he.frees he.uses
  below := by
    intro fd hfd
    apply hown.below fd
    have hgets : descriptors.gets e = none := he.gets
    simpa [Treatment.obtained, hgets] using hfd

/-- A call on one descriptor of the set. -/
theorem plain_on (e : Event) (hfd : fd ∈ S) (hgets : e.gets = none) (hfrees : e.frees = none)
    (huses : e.uses = [fd]) : Plain S e := by
  refine ⟨hgets, hfrees, ?_⟩
  rw [huses]
  simpa using hfd

/-- With nothing in `c` it is the set alone. -/
theorem triple_of_holds_none {p : Sys α} {Q : α → List Event → World → Prop}
    (hp : Triple (Owns base S) p Q (Tidy base)) :
    Triple (Holds base S none) p Q (Tidy base) :=
  hp.mono (fun _ _ h => holds_none.mp h) (fun _ _ _ h => h) fun _ h => h

/-- With `fd` in `c`, it is new to the set. -/
theorem triple_of_holds_some {p : Sys α} {Q : α → List Event → World → Prop}
    (hp : fd ∉ S → Triple (Owns base (insert fd S)) p Q (Tidy base)) :
    Triple (Holds base S (some fd)) p Q (Tidy base) := by
  intro h w rs hh
  obtain ⟨hfd, hown⟩ := holds_some.mp hh
  exact hp hfd h w rs hown

/-! ## The calls -/

theorem keeps_pure (a : α) : Keeps base S (pure a) := .pure fun _ _ h => h

theorem Keeps.bind {p : Sys α} {f : α → Sys β} (hp : Keeps base S p)
    (hf : ∀ a, Keeps base S (f a)) : Keeps base S (p >>= f) := Triple.bind hp hf

theorem keeps_ask : Keeps base S (Proc.ask : Sys Reply) := .ask fun _ _ h => h.tidy

theorem keeps_emit {e : Event} (he : Plain S e) : Keeps base S (Proc.emit e) :=
  .emit fun _ _ h => h.plain he

theorem keeps_uninit (n : Nat) : Keeps base S (uninit n) := keeps_ask.bind fun _ => keeps_pure _

theorem keeps_callOn {e : Event} (he : Plain S e) : Keeps base S (callOn e) :=
  keeps_ask.bind fun _ => (keeps_emit he).bind fun _ => keeps_pure _

theorem keeps_receive {e : Event} (he : Plain S e) (fd : Fd) (most : Nat) :
    Keeps base S (receive fd most e) := by
  refine keeps_ask.bind fun r => (keeps_emit he).bind fun _ => ?_
  split
  · exact keeps_pure _
  · refine Triple.bind Triple.get fun w => ?_
    refine Triple.bind (Triple.set (Q := fun _ => Owns base S) ?_) fun _ => keeps_pure _
    rintro h v ⟨rfl, hown⟩
    exact ⟨hown.owned, hown.below⟩

theorem keeps_send (hfd : fd ∈ S) (data : List UInt8) : Keeps base S (send fd data) := by
  refine keeps_ask.bind fun r => ?_
  split <;> exact (keeps_emit (plain_on (.send fd _ _) hfd rfl rfl rfl)).bind fun _ => keeps_pure _

theorem keeps_loop {body : β → Sys (β ⊕ α)} (hbody : ∀ b, Keeps base S (body b)) (b : β) :
    Keeps base S (Proc.loop body b) := by
  refine Triple.loop (I := fun _ => Owns base S) ?_ (fun _ _ _ h => h.tidy) b
  intro b
  refine (hbody b).mono (fun _ _ h => h) ?_ fun _ h => h
  rintro (b' | a) h w hown <;> exact hown

/-- The next descriptor is obtained. -/
theorem Owns.get {h : List Event} {w : World} {e : Event} (hown : Owns base S h w)
    (hgets : e.gets = some w.next) (hfrees : e.frees = none) (huses : ∀ fd ∈ e.uses, fd ∈ S) :
    Owns base (insert w.next S) (h ++ [e]) { w with next := w.next + 1 } where
  owned := by
    refine hown.owned.get hgets hfrees huses ⟨?_, ?_⟩
    · exact fun hb => Nat.lt_irrefl _ (hown.below _ (.inl hb))
    · exact fun ho => Nat.lt_irrefl _ (hown.below _ (.inr ho))
  below := by
    intro fd hfd
    show fd < w.next + 1
    rw [Handles.obtained_append, List.mem_append, Handles.mem_obtained_singleton, ← or_assoc]
      at hfd
    rcases hfd with hold | hlast
    · exact Nat.lt_succ_of_lt (hown.below fd hold)
    · obtain rfl := Option.some.inj (hgets.symm.trans hlast)
      exact Nat.lt_succ_self _

/-- A new descriptor joins the set. -/
theorem acquire_owns {event : Option Fd → Event} (hgets : ∀ got, (event got).gets = got)
    (hfrees : ∀ got, (event got).frees = none) (huses : ∀ got, ∀ fd ∈ (event got).uses, fd ∈ S) :
    Triple (Owns base S) (acquire event) (fun got => Holds base S got) (Tidy base) := by
  refine Triple.bind keeps_ask fun r => ?_
  split
  · refine Triple.bind (keeps_emit ⟨hgets _, hfrees _, huses _⟩) fun _ => ?_
    exact .pure fun _ _ h => holds_none.mpr h
  · rintro h w rs hown
    have hout : w.next ∉ S := fun hin => Nat.lt_irrefl _ (hown.lt hin)
    exact Outcome.meets_some
      (holds_some.mpr ⟨hout, hown.get (hgets _) (hfrees _) (huses _)⟩)

/-- A descriptor leaves the set. -/
theorem close_owns (hfd : fd ∉ S) :
    Triple (Owns base (insert fd S)) (close fd) (fun _ => Owns base S) (Tidy base) := by
  refine .emit fun h w hown => ⟨hown.owned.free rfl rfl ?_ hfd, ?_⟩
  · intro y hy
    exact absurd hy List.not_mem_nil
  · intro x hx
    apply hown.below x
    simpa [Treatment.obtained, descriptors, Event.gets] using hx

/-! ## The functions of the server -/

theorem keeps_sendAll (hfd : fd ∈ S) (data : List UInt8) (len : Nat) :
    Keeps base S (sendAll fd data len) := by
  refine keeps_loop (fun sent => ?_) 0
  unfold sendRound
  split
  · exact keeps_pure _
  · refine (keeps_callOn (plain_on (.poll [fd] 500) hfd rfl rfl rfl)).bind fun pfd => ?_
    split
    · exact keeps_pure _
    · refine (keeps_send hfd _).bind fun n => ?_
      split <;> exact keeps_pure _

theorem keeps_sendText (hfd : fd ∈ S) (s : String) : Keeps base S (sendText fd s) :=
  keeps_sendAll hfd _ _

theorem keeps_sendSseHeaders (hfd : fd ∈ S) : Keeps base S (sendSseHeaders fd) := by
  unfold sendSseHeaders
  exact keeps_sendText hfd _

theorem keeps_sendResetOk (hfd : fd ∈ S) : Keeps base S (sendResetOk fd) := by
  unfold sendResetOk
  exact keeps_sendText hfd _

theorem keeps_sendNotFound (hfd : fd ∈ S) : Keeps base S (sendNotFound fd) := by
  unfold sendNotFound
  exact keeps_sendText hfd _

theorem keeps_readRequest (hfd : fd ∈ S) (buf : List UInt8) (cap : Nat) :
    Keeps base S (readRequest fd buf cap) := by
  refine keeps_loop (fun b => ?_) _
  obtain ⟨got, buf⟩ := b
  simp only [readRound]
  split
  · refine (keeps_callOn (plain_on (.poll [fd] 500) hfd rfl rfl rfl)).bind fun pfd => ?_
    split
    · exact keeps_pure _
    · refine (keeps_receive (plain_on (.recv fd) hfd rfl rfl rfl) fd _).bind fun chunk => ?_
      split
      · exact keeps_pure _
      · split <;> exact keeps_pure _
  · exact keeps_pure _

theorem keeps_setNonblock (hfd : fd ∈ S) : Keeps base S (setNonblock fd) := by
  refine (keeps_callOn (plain_on (.setup fd) hfd rfl rfl rfl)).bind fun flags => ?_
  split
  · exact (keeps_callOn (plain_on (.setup fd) hfd rfl rfl rfl)).bind fun _ => keeps_pure _
  · exact keeps_pure _

theorem keeps_sendFormatted (hfd : fd ∈ S) (cap past : Nat) (s : List UInt8) :
    Keeps base S (sendFormatted fd cap past s) := by
  refine (keeps_uninit _).bind fun stack => ?_
  split
  split
  · exact keeps_pure _
  · exact keeps_sendAll hfd _ _

theorem keeps_sendSseData (hfd : fd ∈ S) (payload : List UInt8) (len : Nat) :
    Keeps base S (sendSseData fd payload len) := by
  unfold sendSseData
  split
  · exact keeps_pure _
  · exact keeps_sendFormatted hfd _ _ _

/-- A close followed by a result. -/
theorem close_then {Q : α → List Event → World → Prop} {a : α} (hfd : fd ∉ S)
    (hQ : ∀ h w, Owns base S h w → Q a h w) :
    Triple (Owns base (insert fd S))
      (do
        close fd
        pure a : Sys α)
      Q (Tidy base) :=
  Triple.bind (close_owns hfd) fun _ => .pure hQ

/-- The file is closed on every way out. -/
theorem keeps_sendDashboard (hfd : fd ∈ S) (webRoot : Option (List UInt8)) :
    Keeps base S (sendDashboard fd webRoot) := by
  refine (keeps_uninit _).bind fun stack => ?_
  split
  split
  · exact keeps_pure _
  · refine Triple.bind (acquire_owns (fun _ => rfl) (fun _ => rfl) ?_) fun got => ?_
    · intro got x hx
      exact absurd hx List.not_mem_nil
    · cases got with
      | none => exact triple_of_holds_none (keeps_sendNotFound hfd)
      | some file =>
        refine triple_of_holds_some fun hfile => ?_
        have hfd' : fd ∈ insert file S := Set.mem_insert_of_mem _ hfd
        have hin : file ∈ insert file S := Set.mem_insert _ _
        refine Triple.bind (keeps_callOn (plain_on (.fstat _) hin rfl rfl rfl)) fun st => ?_
        split
        · exact close_then hfile fun _ _ h => h
        · refine Triple.bind (keeps_sendFormatted hfd' _ _ _) fun ok => ?_
          split
          · refine Triple.bind (keeps_loop (fun _ => ?_) ()) fun ok => close_then hfile fun _ _ h => h
            refine (keeps_receive (plain_on (.read _) hin rfl rfl rfl) file _).bind fun chunk => ?_
            split
            · exact keeps_pure _
            · split
              · exact keeps_pure _
              · exact (keeps_sendAll hfd' _ _).bind fun _ => keeps_pure _
          · exact close_then hfile fun _ _ h => h

theorem dropIfClosed_holds (c : Option Fd) :
    Triple (Holds base S c) (dropIfClosed c) (fun c' => Holds base S c') (Tidy base) := by
  cases c with
  | none => exact .pure fun _ _ h => h
  | some fd =>
      refine triple_of_holds_some fun hfd => ?_
      have hin : fd ∈ insert fd S := Set.mem_insert _ _
      refine Triple.bind (keeps_receive (plain_on (.recv _) hin rfl rfl rfl) fd 32) fun n => ?_
      split
      · split
        · exact .pure fun _ _ h => holds_some.mpr ⟨hfd, h⟩
        · exact close_then hfd fun _ _ h => holds_none.mpr h
      · split
        · exact close_then hfd fun _ _ h => holds_none.mpr h
        · exact .pure fun _ _ h => holds_some.mpr ⟨hfd, h⟩

theorem pumpDrop_holds (fds : Reply) (c : Option Fd) :
    Triple (Holds base S c) (pumpDrop fds c) (fun c' => Holds base S c') (Tidy base) := by
  unfold pumpDrop
  split
  · exact dropIfClosed_holds c
  · exact .pure fun _ _ h => h

theorem closeFd_holds (c : Option Fd) :
    Triple (Holds base S c) (closeFd c) (fun _ => Owns base S) (Tidy base) := by
  cases c with
  | none => exact .pure fun _ _ h => holds_none.mp h
  | some fd => exact triple_of_holds_some fun hfd => close_owns hfd

theorem acceptClient_holds {listen : Fd} (hlisten : listen ∈ S) :
    Triple (Owns base S) (acceptClient listen) (fun got => Holds base S got) (Tidy base) := by
  refine Triple.bind (acquire_owns (fun _ => rfl) (fun _ => rfl) ?_) fun got => ?_
  · intro got x hx
    obtain rfl := List.mem_singleton.mp hx
    exact hlisten
  · cases got with
    | none => exact .pure fun _ _ h => h
    | some fd =>
        refine triple_of_holds_some fun hfd => ?_
        refine Triple.bind (keeps_setNonblock (Set.mem_insert _ _)) fun _ => ?_
        exact .pure fun _ _ h => holds_some.mpr ⟨hfd, h⟩

theorem pumpEvent_holds (c : Option Fd) (json : Option (List UInt8)) (jsonLen : Nat) :
    Triple (Holds base S c) (pumpEvent c json jsonLen) (fun c' => Holds base S c')
      (Tidy base) := by
  unfold pumpEvent
  split
  · split
    · refine triple_of_holds_some fun hfd => ?_
      refine Triple.bind (keeps_sendSseData (Set.mem_insert _ _) _ _) fun ok => ?_
      split
      · exact .pure fun _ _ h => holds_some.mpr ⟨hfd, h⟩
      · exact close_then hfd fun _ _ h => holds_none.mpr h
    · exact .pure fun _ _ h => h
  · exact .pure fun _ _ h => h

/-- The incoming connection beside the held client: it is closed, or takes the client's
place after the client was closed. -/
theorem pumpDispatch_holds (incoming : Fd) (req : List UInt8) {c : Option Fd}
    (webRoot : Option (List UInt8)) (reset : Option Bool) (hapart : ∀ fd, c = some fd → fd ∉ S) :
    Triple (Holds base {fd | c = some fd ∨ fd ∈ S} (some incoming))
      (pumpDispatch incoming req c webRoot reset) (fun r => Holds base S r.1) (Tidy base) := by
  refine triple_of_holds_some fun hnew => ?_
  have hin : ∀ {U : Set Fd}, incoming ∈ insert incoming U := Set.mem_insert _ _
  have hback : ∀ h w, Owns base {fd | c = some fd ∨ fd ∈ S} h w → Holds base S c h w :=
    fun _ _ h => ⟨hapart, h⟩
  unfold pumpDispatch
  split
  split
  · exact Triple.bind (keeps_sendDashboard hin _) fun _ => close_then hnew hback
  · split
    · -- the old client goes first
      have hfirst : Triple (Owns base (insert incoming {fd | c = some fd ∨ fd ∈ S})) (closeFd c)
          (fun _ => Owns base (insert incoming S)) (Tidy base) := by
        refine (closeFd_holds c).mono (fun h w hown => ⟨?_, ?_⟩) (fun _ _ _ h => h) fun _ h => h
        · rintro fd rfl hfd
          rcases Set.mem_insert_iff.mp hfd with rfl | hS
          · exact hnew (.inl rfl)
          · exact hapart fd rfl hS
        · convert hown using 1
          ext fd
          simp only [Set.mem_ofPred_eq, Set.mem_insert_iff]
          tauto
      have hS : incoming ∉ S := fun h => hnew (.inr h)
      refine Triple.bind hfirst fun _ => Triple.bind (keeps_sendSseHeaders hin) fun ok => ?_
      split
      · refine Triple.bind (keeps_emit ⟨rfl, rfl, by simp [Event.uses]⟩) fun _ => ?_
        exact .pure fun _ _ h => holds_some.mpr ⟨hS, h⟩
      · exact close_then hS fun _ _ h => holds_none.mpr h
    · split
      · exact Triple.bind (keeps_sendResetOk hin) fun _ => close_then hnew hback
      · exact Triple.bind (keeps_sendNotFound hin) fun _ => close_then hnew hback

theorem pumpAccept_holds (fds : Reply) {listen : Fd} (hlisten : listen ∈ S) (c : Option Fd)
    (webRoot : Option (List UInt8)) (reset : Option Bool) :
    Triple (Holds base S c) (pumpAccept fds listen c webRoot reset) (fun r => Holds base S r.1)
      (Tidy base) := by
  unfold pumpAccept
  split
  case isFalse => exact .pure fun _ _ h => h
  refine Triple.exact fun h w hc => ?_
  have hapart := hc.apart
  refine Triple.mono (P := Owns base {fd | c = some fd ∨ fd ∈ S}) ?_ ?_ (fun _ _ _ h => h)
    fun _ h => h
  case refine_2 =>
    rintro t v ⟨rfl, rfl⟩
    exact hc.owns
  refine Triple.bind (acceptClient_holds (.inr hlisten)) fun got => ?_
  cases got with
  | none => exact .pure fun _ _ h => ⟨hapart, (holds_none.mp h)⟩
  | some incoming =>
      have hkeep : ∀ {α : Type} {p : Sys α},
          Keeps base (insert incoming {fd | c = some fd ∨ fd ∈ S}) p →
          Triple (Holds base {fd | c = some fd ∨ fd ∈ S} (some incoming)) p
            (fun _ => Holds base {fd | c = some fd ∨ fd ∈ S} (some incoming)) (Tidy base) :=
        fun hp => triple_of_holds_some fun hnew =>
          hp.mono (fun _ _ h => h) (fun _ _ _ h => holds_some.mpr ⟨hnew, h⟩) fun _ h => h
      refine Triple.bind (hkeep (keeps_uninit _)) fun req => ?_
      refine Triple.bind (hkeep (keeps_readRequest (Set.mem_insert _ _) _ _)) fun r => ?_
      split
      split
      · exact pumpDispatch_holds incoming _ webRoot reset hapart
      · exact triple_of_holds_some fun hnew => close_then hnew fun _ _ h => ⟨hapart, h⟩

/-- **One call of the pump**: what is live afterwards is the set, and `client_fd`. -/
theorem httpSsePump_holds {srv : HttpSseServer} (hsrv : ∀ fd, srv.listenFd = some fd → fd ∈ S)
    (c : Option Fd) (webRoot : Option (List UInt8)) (json : Option (List UInt8)) (jsonLen : Nat)
    (timeoutMs : Int) (reset : Option Bool) :
    Triple (Holds base S c) (httpSsePump srv c webRoot json jsonLen timeoutMs reset)
      (fun r => Holds base S r.clientFd) (Tidy base) := by
  have hwait : ∀ {c : Option Fd} h w, Holds base S c h w → Tidy base h := fun _ _ h => h.owns.tidy
  unfold httpSsePump
  split
  · exact .pure fun _ _ h => h
  · rename_i listen hlisten
    have hin := hsrv listen hlisten
    have hpoll : Triple (Holds base S c) (poll (listen :: c.toList) timeoutMs)
        (fun _ => Holds base S c) (Tidy base) := by
      refine Triple.bind (Triple.ask hwait) fun r => Triple.bind (Triple.emit fun h w hc => ?_)
        fun _ => .pure fun _ _ h => h
      refine ⟨hc.apart, hc.owns.plain ⟨rfl, rfl, ?_⟩⟩
      intro fd hfd
      simp only [Event.uses, List.mem_cons, Option.mem_toList] at hfd
      rcases hfd with rfl | hc
      · exact .inr hin
      · exact .inl hc
    refine Triple.bind hpoll fun fds => ?_
    split
    · exact .pure fun _ _ h => h
    · refine Triple.bind (pumpDrop_holds fds c) fun c' => ?_
      refine Triple.bind (pumpAccept_holds fds hin c' webRoot reset) fun r => ?_
      split
      exact Triple.bind (pumpEvent_holds _ json jsonLen) fun _ => .pure fun _ _ h => h

/-! ## Whole runs -/

theorem pumps_holds {srv : HttpSseServer} (hsrv : ∀ fd, srv.listenFd = some fd → fd ∈ S)
    (calls : List PumpCall) (c : Option Fd) :
    Triple (Holds base S c) (pumps srv calls c) (fun c' => Holds base S c') (Tidy base) := by
  induction calls generalizing c with
  | nil => exact .pure fun _ _ h => h
  | cons call rest ih =>
      exact Triple.bind (httpSsePump_holds hsrv c _ _ _ _ _) fun pumped => ih pumped.clientFd

theorem httpSseClose_holds (srv : HttpSseServer) :
    Triple (Holds base S srv.listenFd) (httpSseClose srv)
      (fun srv' h w => srv'.listenFd = none ∧ Owns base S h w) (Tidy base) :=
  Triple.bind (closeFd_holds srv.listenFd) fun _ => .pure fun _ _ h => ⟨rfl, h⟩

/-- With the listening socket the only other descriptor, the cleanup leaves none. -/
theorem observeCleanup_owns (srv : HttpSseServer) (c : Option Fd) :
    Triple (Holds base {fd | srv.listenFd = some fd} c) (observeCleanup srv c)
      (fun _ => Owns base ∅) (Tidy base) := by
  have hlast : Triple (Owns base {fd | srv.listenFd = some fd}) (httpSseClose srv)
      (fun srv' h w => srv'.listenFd = none ∧ Owns base ∅ h w) (Tidy base) := by
    refine (httpSseClose_holds srv).mono ?_ (fun _ _ _ h => h) fun _ h => h
    intro h w hown
    refine ⟨by simp, ?_⟩
    simpa using hown
  refine Triple.bind (closeFd_holds c) fun _ => ?_
  exact Triple.bind hlast fun _ => .pure fun _ _ h => h.2

/-- A failed step of the set-up closes the socket. -/
theorem httpSseListenSteps_owns (hfd : fd ∉ S) (n : Nat) :
    Triple (Owns base (insert fd S)) (httpSseListenSteps fd n)
      (fun ok h w => (ok = true ∧ Owns base (insert fd S) h w) ∨ (ok = false ∧ Owns base S h w))
      (Tidy base) := by
  induction n with
  | zero => exact .pure fun _ _ h => .inl ⟨rfl, h⟩
  | succ n ih =>
      refine Triple.bind (keeps_callOn (plain_on (.setup _) (Set.mem_insert _ _) rfl rfl rfl)) fun r => ?_
      split
      · exact close_then hfd fun _ _ h => .inr ⟨rfl, h⟩
      · exact ih

/-- What a fresh server holds after `http_sse_listen` is its socket. -/
theorem httpSseListen_holds :
    Triple (Owns base S) (httpSseListen {})
      (fun r h w => Holds base S r.1.listenFd h w ∧ (r.2 = false → r.1.listenFd = none))
      (Tidy base) := by
  refine Triple.bind ((httpSseClose_holds {}).mono (fun _ _ h => holds_none.mpr h)
    (fun _ _ _ h => h) fun _ h => h) fun srv => ?_
  refine Triple.exact fun h w hsrv => ?_
  obtain ⟨hnone, hown⟩ := hsrv
  refine Triple.mono (P := Owns base S) ?_ (by rintro t v ⟨rfl, rfl⟩; exact hown)
    (fun _ _ _ h => h) fun _ h => h
  refine Triple.bind (acquire_owns (fun _ => rfl) (fun _ => rfl) ?_) fun got => ?_
  · intro got x hx
    exact absurd hx List.not_mem_nil
  cases got with
  | none => exact .pure fun _ _ h => ⟨by simpa only [hnone] using h, fun _ => hnone⟩
  | some fd =>
      refine triple_of_holds_some fun hfd => ?_
      refine Triple.bind (keeps_callOn (plain_on (.setup _) (Set.mem_insert _ _) rfl rfl rfl)) fun _ => ?_
      refine Triple.bind (httpSseListenSteps_owns hfd 3) fun ok => ?_
      cases ok with
      | true =>
          refine .pure fun _ _ h => ⟨?_, by simp⟩
          obtain ⟨-, hown⟩ | ⟨hno, -⟩ := h
          · exact holds_some.mpr ⟨hfd, hown⟩
          · simp at hno
      | false =>
          refine .pure fun _ _ h => ⟨?_, fun _ => hnone⟩
          obtain ⟨hno, -⟩ | ⟨-, hown⟩ := h
          · simp at hno
          · simpa only [hnone] using holds_none.mpr hown

/-- A round of the loop of `run_observe`. -/
theorem observeRound_holds {srv : HttpSseServer} (hsrv : ∀ fd, srv.listenFd = some fd → fd ∈ S)
    (webRoot : Option (List UInt8)) (timeoutMs : Int) (b : Option Fd × List UInt8) :
    Triple (Holds base S b.1) (observeRound srv webRoot timeoutMs b)
      (Sum.elim (fun b' => Holds base S b'.1) fun c => Holds base S c) (Tidy base) := by
  have hwait : ∀ {c : Option Fd} h w, Holds base S c h w → Tidy base h := fun _ _ h => h.owns.tidy
  obtain ⟨c, json⟩ := b
  refine Triple.bind (Triple.ask hwait) fun stop => ?_
  split
  · exact .pure fun _ _ h => h
  · refine Triple.bind (Triple.ask hwait) fun found => ?_
    split
    split
    · exact .pure fun _ _ h => h
    · refine Triple.bind (httpSsePump_holds hsrv c _ _ _ _ _) fun pumped => ?_
      split
      · exact .pure fun _ _ h => h
      · refine Triple.bind (Q := fun _ => Holds base S pumped.clientFd) ?_ fun _ =>
          .pure fun _ _ h => h
        unfold requestRerunIf
        split
        · refine .emit fun h w hh => ⟨hh.apart, hh.owns.plain ⟨rfl, rfl, by simp [Event.uses]⟩⟩
        · exact .pure fun _ _ h => h

/-- `run_observe` leaves no descriptor behind. -/
theorem runObserve_owns (webRoot : Option (List UInt8)) (timeoutMs : Int) :
    Triple (Owns base ∅) (runObserve webRoot timeoutMs) (fun _ => Owns base ∅) (Tidy base) := by
  refine Triple.bind keeps_ask fun mapping => ?_
  split
  · exact .pure fun _ _ h => h
  · refine Triple.bind httpSseListen_holds fun r => ?_
    obtain ⟨srv, ok⟩ := r
    cases ok with
    | false =>
        refine .pure fun h w hsrv => ?_
        obtain ⟨hholds, hnone⟩ := hsrv
        have hno : srv.listenFd = none := hnone rfl
        rw [hno] at hholds
        exact holds_none.mp hholds
    | true =>
        have hset : {fd | srv.listenFd = some fd ∨ fd ∈ (∅ : Set Fd)}
            = {fd | srv.listenFd = some fd} := by simp
        refine Triple.mono (P := Owns base {fd | srv.listenFd = some fd}) ?_ ?_
          (fun _ _ _ h => h) fun _ h => h
        · refine Triple.bind (keeps_uninit _) fun json => ?_
          refine Triple.bind (Triple.mono (P := Holds base {fd | srv.listenFd = some fd} none)
            (Triple.loop (fun b => observeRound_holds (fun _ h => h) _ _ b)
              (fun _ _ _ h => h.owns.tidy) (none, json))
            (fun _ _ h => holds_none.mpr h) (fun _ _ _ h => h) fun _ h => h) fun c => ?_
          exact Triple.bind (observeCleanup_owns srv c) fun _ => .pure fun _ _ h => h
        · intro h w hsrv
          simpa only [hset] using hsrv.1.owns

/-! ## The trace, call by call -/

theorem mem_obtained {h : List Event} : fd ∈ descriptors.obtained h ↔ ∃ e ∈ h, e.gets = some fd := by
  simp [Treatment.obtained, descriptors]

theorem frees_iff {e : Event} : e.frees = some fd ↔ e = .close fd := by
  cases e <;> simp [Event.frees]

theorem mem_released {h : List Event} : fd ∈ descriptors.released h ↔ Event.close fd ∈ h := by
  simp [Treatment.released, descriptors, frees_iff]

/-- The releases of a descriptor are its `close` calls. -/
theorem count_released (h : List Event) :
    (descriptors.released h).count fd = h.count (.close fd) := by
  rw [Treatment.released, List.count, List.countP_filterMap, List.count]
  apply List.countP_congr
  intro e _
  cases e <;> simp [descriptors, Event.frees]

/-- Nothing is done with a descriptor after its `close`, not even another one. -/
def QuietAfterClose (h : List Event) : Prop :=
  ∀ before e after, h = before ++ e :: after → ∀ fd, Event.close fd ∈ before →
    fd ∉ e.uses ∧ e ≠ .close fd

/-- The descriptor came from a call of this run. -/
def Obtained (h : List Event) (fd : Fd) : Prop := ∃ e ∈ h, e.gets = some fd

theorem Tidy.quiet {h : List Event} (htidy : Tidy base h) : QuietAfterClose h := by
  intro before e after heq fd hclosed
  obtain ⟨huses, hfrees, -⟩ := Clean.after_release htidy heq (mem_released.mpr hclosed)
  refine ⟨huses, ?_⟩
  rintro rfl
  exact hfrees rfl

theorem Owns.closed_once {h : List Event} {w : World} (hown : Owns base ∅ h w)
    (hfd : Obtained h fd) : h.count (.close fd) = 1 := by
  rw [← count_released]
  refine Clean.release_once hown.tidy (mem_obtained.mpr hfd) ?_
  rw [hown.owned.live]
  exact Set.notMem_empty fd

theorem Holds.open_iff {h : List Event} {w : World} {c : Option Fd} (hholds : Holds base base c h w)
    (hfd : Obtained h fd) : Event.close fd ∉ h ↔ c = some fd := by
  have hin := mem_obtained.mpr hfd
  have hlive := hholds.owns.owned.live fd
  have hout := Clean.obtained_new hholds.owns.tidy fd hin
  rw [Treatment.Live, mem_released] at hlive
  simp only [hin, or_true, true_and, hout, or_false, Set.mem_ofPred_eq] at hlive
  exact hlive

end

/-- What is noted at the start of a run: the server's socket is an older descriptor. -/
theorem holds_start {srv : HttpSseServer} {w : World}
    (hsrv : ∀ fd, srv.listenFd = some fd → fd < w.next) :
    Holds {fd | srv.listenFd = some fd} {fd | srv.listenFd = some fd} none [] w := by
  refine holds_none.mpr ⟨Owned.start _ _, ?_⟩
  intro fd hfd
  rcases hfd with hb | ho
  · exact hsrv fd hb
  · exact absurd ho List.not_mem_nil

/--
**Every socket and file is closed exactly once.**

For every sequence of calls of the pump that starts without a client and every reply of
the kernel to every call, followed by the cleanup of `run_observe`:

* at no point is anything done with a descriptor that was closed before;
* after the calls, the descriptors obtained and not closed are the one in `client_fd`, if
  there is one;
* after the cleanup each descriptor obtained was closed exactly once.
-/
theorem socket_ownership {srv : HttpSseServer} {w : World}
    (hsrv : ∀ fd, srv.listenFd = some fd → fd < w.next) (calls : List PumpCall) (rs : List Reply) :
    QuietAfterClose ((pumps srv calls none >>= observeCleanup srv) w rs).trace
      ∧ (∀ c w' rs', (pumps srv calls none w rs).result = some (c, w', rs') →
          ∀ fd, Obtained (pumps srv calls none w rs).trace fd →
            (Event.close fd ∉ (pumps srv calls none w rs).trace ↔ c = some fd))
      ∧ (((pumps srv calls none >>= observeCleanup srv) w rs).result.isSome →
          ∀ fd, Obtained ((pumps srv calls none >>= observeCleanup srv) w rs).trace fd →
            ((pumps srv calls none >>= observeCleanup srv) w rs).trace.count (.close fd) = 1) := by
  have hstart := holds_start hsrv
  have hpumps := pumps_holds (fun _ h => h) calls none [] w rs hstart
  have hall := Triple.bind (pumps_holds (fun _ h => h) calls none)
    (fun c => observeCleanup_owns srv c) [] w rs hstart
  refine ⟨?_, ?_, ?_⟩
  · cases hres : ((pumps srv calls none >>= observeCleanup srv) w rs).result with
    | none => exact Tidy.quiet (hall.waits hres)
    | some x => exact (hall.ends _ _ _ hres).tidy.quiet
  · intro c w' rs' hres fd hfd
    exact (hpumps.ends c w' rs' hres).open_iff hfd
  · intro hsome fd hfd
    obtain ⟨x, hres⟩ := Option.isSome_iff_exists.mp hsome
    exact (hall.ends _ _ _ hres).closed_once hfd

/-- A server, and a client that connects and asks for the events. -/
def eventsWorld : World :=
  { source := fun _ => text "GET /events HTTP/1.1\r\n\r\n", next := 1 }

/-- The client is held after the call and closed by the cleanup. -/
theorem socket_ownership_held :
    (pumps ⟨some 0⟩ [⟨none, none, 0, 100, none⟩] none eventsWorld
        (List.replicate 9 willing)).result.map (·.1) = some (some 1)
      ∧ ((pumps ⟨some 0⟩ [⟨none, none, 0, 100, none⟩] none >>= observeCleanup ⟨some 0⟩)
          eventsWorld (List.replicate 9 willing)).trace.count (.close 1) = 1 := by
  refine ⟨by decide +kernel, (socket_ownership ?_ _ _).2.2 (by decide +kernel) 1 ?_⟩
  · simp [eventsWorld]
  · exact ⟨.accept 0 (some 1), by decide +kernel, rfl⟩

/-- **`run_observe` closes everything it opened**, its listening socket included. -/
theorem runObserve_closes (webRoot : Option (List UInt8)) (timeoutMs : Int) (w : World)
    (rs : List Reply) :
    QuietAfterClose (runObserve webRoot timeoutMs w rs).trace
      ∧ ((runObserve webRoot timeoutMs w rs).result.isSome →
          ∀ fd, Obtained (runObserve webRoot timeoutMs w rs).trace fd →
            (runObserve webRoot timeoutMs w rs).trace.count (.close fd) = 1) := by
  have hstart : Owns ∅ ∅ [] w := ⟨Owned.start _ _, by simp [Treatment.obtained]⟩
  have hall := runObserve_owns webRoot timeoutMs [] w rs hstart
  refine ⟨?_, ?_⟩
  · cases hres : (runObserve webRoot timeoutMs w rs).result with
    | none => exact Tidy.quiet (hall.waits hres)
    | some x => exact (hall.ends _ _ _ hres).tidy.quiet
  · intro hsome fd hfd
    obtain ⟨x, hres⟩ := Option.isSome_iff_exists.mp hsome
    exact (hall.ends _ _ _ hres).closed_once hfd

end RateHub.Http
