import Mathlib.Data.Set.Insert
import RateHub.Http.Routing

/-!
# Whose requests become reruns

A round of `run_observe` calls `request_rerun` when the pump set `*reset_out`. Over a whole run of
the process, whatever the kernel replies, the calls are accounted for one by one: a connection
asks for a rerun when its request begins with `POST /reset ` and the blank line was among the
bytes that the kernel handed over, and each connection that asks gets its call, also one that
is not there any more for the answer.

What a connection sends is a function of its descriptor that only reading from it changes, so
the argument is about footprints: every part of the server reads from the descriptors it was
given and from those it opens itself.
-/

namespace RateHub.Http

open Interaction Proc

/-! ## Footprints -/

/-- Neither a new connection nor a rerun. -/
def Event.plain : Event → Bool
  | .accept _ (some _) => false
  | .rerun => false
  | _ => true

/-- Nothing was read but from `S` and from descriptors opened in between. -/
structure Beside (S : Set Fd) (w w' : World) : Prop where
  next : w.next ≤ w'.next
  source : ∀ fd, fd ∉ S → fd < w.next ∨ w'.next ≤ fd → w'.source fd = w.source fd

/-- The same, with nothing to account for. -/
def Apart (S : Set Fd) (w : World) (t : List Event) (w' : World) : Prop :=
  (∀ e ∈ t, e.plain = true) ∧ Beside S w w'

section

variable {S : Set Fd} {α β : Type}

theorem Beside.refl (w : World) : Beside S w w := ⟨Nat.le_refl _, fun _ _ _ => rfl⟩

theorem Beside.trans {w v w' : World} (h : Beside S w v) (h' : Beside S v w') : Beside S w w' where
  next := Nat.le_trans h.next h'.next
  source := by
    intro fd hfd hold
    rw [h'.source fd hfd (hold.imp_left fun hlt => Nat.lt_of_lt_of_le hlt h.next),
      h.source fd hfd (hold.imp_right (Nat.le_trans h'.next))]

theorem apart_effect (S : Set Fd) : Effect (E := Event) (Apart S) where
  refl := fun w => ⟨by simp, .refl w⟩
  trans := by
    rintro w v w' t u ⟨ht, hwv⟩ ⟨hu, hvw⟩
    refine ⟨fun e he => ?_, hwv.trans hvw⟩
    rcases List.mem_append.mp he with hfirst | hsecond
    · exact ht e hfirst
    · exact hu e hsecond

theorem apart_bind {p : Sys α} {f : α → Sys β} (hp : Does (Apart S) p)
    (hf : ∀ a, Does (Apart S) (f a)) : Does (Apart S) (p >>= f) :=
  Does.bind (apart_effect S) hp hf

theorem apart_pure (a : α) : Does (Apart S) (pure a : Sys α) := Does.pure (apart_effect S) a

theorem apart_ask : Does (Apart S) (Proc.ask : Sys Reply) := Does.ask (apart_effect S)

theorem apart_emit {e : Event} (he : e.plain = true) : Does (Apart S) (Proc.emit e : Sys Unit) :=
  Does.emit fun w => ⟨by simpa using he, .refl w⟩

theorem apart_loop {body : β → Sys (β ⊕ α)} (hbody : ∀ b, Does (Apart S) (body b)) (b : β) :
    Does (Apart S) (loop body b) := Does.loop (apart_effect S) hbody b

theorem apart_uninit (n : Nat) : Does (Apart S) (uninit n) := apart_bind apart_ask fun _ => apart_pure _

theorem apart_callOn {e : Event} (he : e.plain = true) : Does (Apart S) (callOn e) :=
  apart_bind apart_ask fun _ => apart_bind (apart_emit he) fun _ => apart_pure _

/-- Reading from one of the descriptors. -/
theorem apart_receive {e : Event} (he : e.plain = true) {fd : Fd} (hfd : fd ∈ S) (most : Nat) :
    Does (Apart S) (receive fd most e) := by
  refine apart_bind apart_ask fun r => apart_bind (apart_emit he) fun _ => ?_
  split
  · exact apart_pure _
  · intro w rs a w' rs' hres
    cases hres
    refine ⟨by rintro e ⟨⟩, Nat.le_refl _, fun fd' hfd' _ => ?_⟩
    exact Function.update_of_ne (by rintro rfl; exact hfd' hfd) _ _

theorem run_acquire_none {event : Option Fd → Event} {w : World} {r : Reply} {rs : List Reply}
    (hr : r.ret < 0) : acquire event w (r :: rs) = ⟨[event none], some (none, w, rs)⟩ := by
  rw [acquire, run_bind, run_ask, andThen]
  simp only [if_pos hr]
  rfl

theorem run_acquire_some {event : Option Fd → Event} {w : World} {r : Reply} {rs : List Reply}
    (hr : ¬ r.ret < 0) :
    acquire event w (r :: rs)
      = ⟨[event (some w.next)], some (some w.next, { w with next := w.next + 1 }, rs)⟩ := by
  rw [acquire, run_bind, run_ask, andThen]
  simp only [if_neg hr]
  rfl

/-- A new descriptor is beside every other one, whatever is read from it. -/
theorem apart_acquire {event : Option Fd → Event} (he : ∀ got, (event got).plain = true)
    {f : Option Fd → Sys α} (hnone : Does (Apart S) (f none))
    (hsome : ∀ fd, Does (Apart (insert fd S)) (f (some fd))) :
    Does (Apart S) (acquire event >>= f) := by
  intro w rs a w' rs' hres
  cases rs with
  | nil => cases hres
  | cons r rs =>
      by_cases hr : r.ret < 0
      · rw [run_bind, run_acquire_none hr, andThen] at hres ⊢
        exact (apart_effect S).trans ⟨by simpa using he none, .refl w⟩ (hnone w rs a w' rs' hres)
      · rw [run_bind, run_acquire_some hr, andThen] at hres ⊢
        obtain ⟨ht, hnext, hsource⟩ := hsome w.next _ rs a w' rs' hres
        refine ⟨?_, Nat.le_of_succ_le hnext, fun fd hfd hold => ?_⟩
        · intro e hmem
          rcases List.mem_cons.mp hmem with rfl | hlater
          · exact he _
          · exact ht e hlater
        · have hne : fd ≠ w.next := by
            rintro rfl
            exact hold.elim (Nat.lt_irrefl _) (Nat.not_le_of_lt hnext)
          exact hsource fd (by simp [hne, hfd]) (hold.imp_left Nat.lt_succ_of_lt)

/-! ## The parts of the server -/

variable {fd : Fd}

theorem apart_send (fd : Fd) (data : List UInt8) : Does (Apart S) (send fd data) := by
  refine apart_bind apart_ask fun r => ?_
  split <;> exact apart_bind (apart_emit rfl) fun _ => apart_pure _

theorem apart_sendAll (fd : Fd) (data : List UInt8) (len : Nat) :
    Does (Apart S) (sendAll fd data len) := by
  refine apart_loop (fun sent => ?_) 0
  unfold sendRound
  split
  · exact apart_pure _
  · refine apart_bind (apart_callOn rfl) fun pfd => ?_
    split
    · exact apart_pure _
    · refine apart_bind (apart_send fd _) fun n => ?_
      split <;> exact apart_pure _

theorem apart_sendFormatted (fd : Fd) (cap past : Nat) (s : List UInt8) :
    Does (Apart S) (sendFormatted fd cap past s) := by
  refine apart_bind (apart_uninit _) fun stack => ?_
  split
  split
  · exact apart_pure _
  · exact apart_sendAll fd _ _

theorem apart_sendText (fd : Fd) (s : String) : Does (Apart S) (sendText fd s) :=
  apart_sendAll fd _ _

theorem apart_sendSseData (fd : Fd) (payload : List UInt8) (len : Nat) :
    Does (Apart S) (sendSseData fd payload len) := by
  unfold sendSseData
  split
  · exact apart_pure _
  · exact apart_sendFormatted fd _ _ _

theorem apart_close_pure (fd : Fd) (a : α) :
    Does (Apart S) (do
      close fd
      pure a : Sys α) :=
  apart_bind (apart_emit rfl) fun _ => apart_pure a

theorem apart_closeFd (c : Option Fd) : Does (Apart S) (closeFd c) := by
  cases c with
  | none => exact apart_pure ()
  | some fd => exact apart_emit rfl

theorem apart_setNonblock (fd : Fd) : Does (Apart S) (setNonblock fd) := by
  refine apart_bind (apart_callOn rfl) fun flags => ?_
  split
  · exact apart_bind (apart_callOn rfl) fun _ => apart_pure _
  · exact apart_pure _

theorem apart_readRequest (hfd : fd ∈ S) (buf : List UInt8) (cap : Nat) :
    Does (Apart S) (readRequest fd buf cap) := by
  refine apart_loop (fun b => ?_) _
  obtain ⟨got, buf⟩ := b
  simp only [readRound]
  split
  · refine apart_bind (apart_callOn rfl) fun pfd => ?_
    split
    · exact apart_pure _
    · refine apart_bind (apart_receive rfl hfd _) fun chunk => ?_
      split
      · exact apart_pure _
      · split <;> exact apart_pure _
  · exact apart_pure _

/-- The file is a descriptor of its own. -/
theorem apart_sendDashboard (fd : Fd) (webRoot : Option (List UInt8)) :
    Does (Apart S) (sendDashboard fd webRoot) := by
  refine apart_bind (apart_uninit _) fun stack => ?_
  split
  split
  · exact apart_pure _
  · refine apart_acquire (fun _ => rfl) (apart_sendText fd _) fun file => ?_
    refine apart_bind (apart_callOn rfl) fun st => ?_
    split
    · exact apart_close_pure file _
    · refine apart_bind (apart_sendFormatted fd _ _ _) fun ok => ?_
      split
      · refine apart_bind (apart_loop (fun _ => ?_) ()) fun ok => apart_close_pure file ok
        refine apart_bind (apart_receive rfl (Set.mem_insert _ _) _) fun chunk => ?_
        split
        · exact apart_pure _
        · split
          · exact apart_pure _
          · exact apart_bind (apart_sendAll fd _ _) fun _ => apart_pure _
      · exact apart_close_pure file _

theorem apart_httpSseListenSteps (fd : Fd) (n : Nat) :
    Does (Apart S) (httpSseListenSteps fd n) := by
  induction n with
  | zero => exact apart_pure _
  | succ n ih =>
      refine apart_bind (apart_callOn rfl) fun r => ?_
      split
      · exact apart_close_pure fd _
      · exact ih

theorem apart_httpSseClose (srv : HttpSseServer) : Does (Apart S) (httpSseClose srv) :=
  apart_bind (apart_closeFd _) fun _ => apart_pure _

theorem apart_httpSseListen (srv : HttpSseServer) : Does (Apart S) (httpSseListen srv) := by
  refine apart_bind (apart_httpSseClose srv) fun srv => ?_
  refine apart_acquire (fun _ => rfl) (apart_pure _) fun fd => ?_
  refine apart_bind (apart_callOn rfl) fun _ => apart_bind (apart_httpSseListenSteps fd 3) fun ok => ?_
  split <;> exact apart_pure _

theorem apart_observeCleanup (srv : HttpSseServer) (c : Option Fd) :
    Does (Apart S) (observeCleanup srv c) :=
  apart_bind (apart_closeFd c) fun _ => apart_bind (apart_httpSseClose srv) fun _ => apart_pure _

end

/-! ## What was handed over -/

/-- What the kernel handed over of what a peer sends. -/
def handed (w₀ w : World) (fd : Fd) : List UInt8 :=
  (w₀.source fd).take ((w₀.source fd).length - (w.source fd).length)

/-- The first bytes of the stream were read, and `ok` says if the request is among them. -/
def Took (fd : Fd) (stream : List UInt8) (ok : Bool) (w : World) : Prop :=
  ∃ n ≤ stream.length, w.source fd = stream.drop n ∧ (ok = true ↔ Accepts (stream.take n))

theorem handed_drop {w₀ w : World} {fd : Fd} {n : Nat} (hn : n ≤ (w₀.source fd).length)
    (hw : w.source fd = (w₀.source fd).drop n) : handed w₀ w fd = (w₀.source fd).take n := by
  rw [handed, hw, List.length_drop, Nat.sub_sub_self hn]

theorem not_accepts_nil : ¬ Accepts [] := by
  rintro ⟨pre, post, heq, -⟩
  simp [blankLine, text] at heq

section

variable {fd : Fd} {stream buf : List UInt8} {got : Nat} {w : World}

/-- As long as it reads on, there is no request. -/
theorem Reading.took (h : Reading fd stream got buf w) : Took fd stream false w := by
  refine ⟨got, h.filled.le, h.source, by simp, fun hacc => absurd ?_ h.none⟩
  have hblank := hacc.blank
  rwa [List.take_take, Nat.min_eq_right h.filled.room] at hblank

theorem Reading.moved {w' : World} (h : Reading fd stream got buf w)
    (hw' : w'.source fd = stream.drop got) : Reading fd stream got buf w' :=
  ⟨h.filled, hw', h.none⟩

/-- The chunk that completes the request. -/
theorem Reading.took_chunk {chunk buf' : List UInt8} {w' : World} {ok : Bool}
    (h : Reading fd stream got buf w) (hchunk : chunk <+: stream.drop got)
    (hroom : got + chunk.length ≤ 1023) (hafter : afterChunk got buf chunk = .inr (ok, buf'))
    (hw' : w'.source fd = stream.drop (got + chunk.length)) : Took fd stream ok w' := by
  obtain ⟨⟨rest, hbuf⟩, hfilled⟩ := h.filled.received hchunk hroom
  have hcstr : cstr (received buf got chunk) = cstr (stream.take (got + chunk.length)) := by
    rw [hbuf, cstr_append_nul]
  rw [afterChunk] at hafter
  split at hafter
  · rename_i hstrstr
    cases hafter
    rw [strstr, hcstr, decide_eq_true_eq] at hstrstr
    refine ⟨_, hfilled.le, hw', fun _ => accepts_of_blank hroom ?_, fun _ => rfl⟩
    rwa [List.take_take, Nat.min_self]
  · cases hafter

/-- What `recv` does, for every reply. -/
theorem recv_spec (fd : Fd) (most : Nat) (v : World) :
    Triple (fun _ w => w = v) (recv fd most)
      (fun x _ w => (∃ e, x = .error e ∧ w = v)
        ∨ ∃ n ≤ most, x = .ok ((v.source fd).take n) ∧ w = v.taken fd n) (fun _ => True) := by
  rintro h w rs rfl
  refine ⟨fun a w' rs' hres => ?_, fun _ => trivial⟩
  cases rs with
  | nil => cases hres
  | cons r rs =>
      cases hr : r.count most with
      | error e =>
          rw [recv, run_receive_error hr] at hres
          cases hres
          exact .inl ⟨e, rfl, rfl⟩
      | ok n =>
          rw [recv, run_receive hr] at hres
          cases hres
          exact .inr ⟨n, count_le hr, rfl, rfl⟩

/-- What a round leaves: it reads on, or it has decided. -/
def Decided (fd : Fd) (stream : List UInt8) :
    (Nat × List UInt8) ⊕ (Bool × List UInt8) → List Event → World → Prop :=
  Sum.elim (fun b _ w => Reading fd stream b.1 b.2 w) fun x _ w => Took fd stream x.1 w

theorem readRound_took (fd : Fd) (stream : List UInt8) (b : Nat × List UInt8) :
    Triple (fun _ w => Reading fd stream b.1 b.2 w) (readRound fd 1024 b) (Decided fd stream)
      (fun _ => True) := by
  obtain ⟨got, buf⟩ := b
  simp only [readRound]
  split
  case isFalse => exact .pure fun _ _ hreading => hreading.took
  refine Triple.bind (Q := fun _ _ w => Reading fd stream got buf w)
    (Triple.bind (Triple.ask fun _ _ _ => trivial) fun _ =>
      Triple.bind (Triple.emit fun _ _ hreading => hreading) fun _ => .pure fun _ _ h => h) fun pfd => ?_
  split
  · exact .pure fun _ _ hreading => hreading.took
  refine Triple.exact fun h v hreading => ?_
  refine Triple.bind ((recv_spec fd _ v).mono (fun _ _ h => h.2) (fun _ _ _ h => h) fun _ h => h)
    fun chunk => ?_
  split
  · -- nothing was taken
    refine .pure fun _ w hchunk => ?_
    obtain ⟨e, hx, rfl⟩ | ⟨n, -, hx, -⟩ := hchunk
    · split
      · exact hreading
      · exact hreading.took
    · cases hx
  · rename_i chunk
    split
    · -- the end of the stream
      rename_i hnil
      refine .pure fun _ w hchunk => ?_
      obtain ⟨e, hx, -⟩ | ⟨n, hn, hx, rfl⟩ := hchunk
      · cases hx
      · cases hx
        have hsource := taken_source hreading.source n
        rw [hnil, Nat.add_zero] at hsource
        exact (hreading.moved hsource).took
    · refine .pure fun _ w hchunk => ?_
      obtain ⟨e, hx, -⟩ | ⟨n, hn, hx, rfl⟩ := hchunk
      · cases hx
      · cases hx
        have hlen := List.length_take_le n (v.source fd)
        have hpre : (v.source fd).take n <+: stream.drop got :=
          hreading.source ▸ List.take_prefix _ _
        have hleft := taken_source hreading.source n
        show Decided fd stream (afterChunk got buf ((v.source fd).take n)) _ _
        rcases hreading.chunk hpre (by omega) with ⟨buf', heq, -⟩ | ⟨buf', heq, hnext⟩
        · rw [heq]
          exact hreading.took_chunk hpre (by omega) heq hleft
        · rw [heq]
          exact hnext _ hleft

theorem readRequest_took (fd : Fd) (stream : List UInt8) {buf : List UInt8}
    (hbuf : buf.length = 1024) :
    Triple (fun _ w => w.source fd = stream) (readRequest fd buf 1024)
      (fun x _ w => Took fd stream x.1 w) (fun _ => True) := by
  refine (Triple.loop (readRound_took fd stream) (fun _ _ _ _ => trivial) (0, buf)).mono ?_
    (fun _ _ _ h => h) fun _ h => h
  rintro h w rfl
  exact .start hbuf

end

/-! ## The account -/

/-- A connection that asked for a rerun, and was read to the end of its request. -/
structure AsksReset (w₀ : World) (h : List Event) (w : World) (fd : Fd) : Prop where
  accepted : ∃ listen, Event.accept listen (some fd) ∈ h
  line : text "POST /reset " <+: w₀.source fd
  whole : Accepts (handed w₀ w fd)

/-- Every connection that asked had its rerun, but for `due` of them. -/
structure Tally (w₀ : World) (due : Nat) (h : List Event) (w : World) : Prop where
  fresh : ∀ fd, w.next ≤ fd → w.source fd = w₀.source fd
  known : ∀ listen fd, Event.accept listen (some fd) ∈ h → fd < w.next
  paid : ∃ askers : List Fd, askers.Nodup ∧ (∀ fd, fd ∈ askers ↔ AsksReset w₀ h w fd)
    ∧ askers.length = h.count .rerun + due

/-- It does not matter how much of this client is read. -/
def Harmless (w₀ w : World) (fd : Fd) : Prop :=
  fd < w.next ∧ ¬ text "POST /reset " <+: w₀.source fd

/-- The account, with the client that is held. -/
structure Accounted (w₀ : World) (due : Nat) (c : Option Fd) (h : List Event) (w : World) :
    Prop where
  tally : Tally w₀ due h w
  client : ∀ fd, c = some fd → Harmless w₀ w fd

section

variable {w₀ w w' : World} {h t : List Event} {due : Nat} {S : Set Fd} {c : Option Fd} {fd : Fd}

theorem accept_mem_append (ht : ∀ e ∈ t, e.plain = true) (listen : Fd) :
    Event.accept listen (some fd) ∈ h ++ t ↔ Event.accept listen (some fd) ∈ h := by
  rw [List.mem_append, or_iff_left]
  exact fun hmem => absurd (ht _ hmem) (by simp [Event.plain])

theorem count_rerun_append (ht : ∀ e ∈ t, e.plain = true) :
    (h ++ t).count .rerun = h.count .rerun := by
  have hnone : t.count .rerun = 0 :=
    List.count_eq_zero.mpr fun hmem => absurd (ht _ hmem) (by simp [Event.plain])
  rw [List.count_append, hnone, Nat.add_zero]

/-- Another connection asks what it asked. -/
theorem asksReset_congr (ht : ∀ e ∈ t, e.plain = true) (hsource : w'.source fd = w.source fd) :
    AsksReset w₀ (h ++ t) w' fd ↔ AsksReset w₀ h w fd := by
  have hhanded : handed w₀ w' fd = handed w₀ w fd := by rw [handed, handed, hsource]
  constructor
  · rintro ⟨⟨listen, hacc⟩, hline, hwhole⟩
    exact ⟨⟨listen, (accept_mem_append ht listen).mp hacc⟩, hline, hhanded ▸ hwhole⟩
  · rintro ⟨⟨listen, hacc⟩, hline, hwhole⟩
    exact ⟨⟨listen, (accept_mem_append ht listen).mpr hacc⟩, hline, hhanded ▸ hwhole⟩

theorem Tally.start (w₀ : World) : Tally w₀ 0 [] w₀ where
  fresh := fun _ _ => rfl
  known := fun _ _ hmem => absurd hmem List.not_mem_nil
  paid := by
    refine ⟨[], List.nodup_nil, fun fd => ?_, rfl⟩
    simp only [List.not_mem_nil, false_iff]
    rintro ⟨⟨listen, hmem⟩, -, -⟩
    exact absurd hmem List.not_mem_nil

theorem Tally.beside (hT : Tally w₀ due h w) (ha : Apart S w t w') (hS : ∀ fd ∈ S, fd < w.next) :
    (∀ fd, w'.next ≤ fd → w'.source fd = w₀.source fd)
      ∧ ∀ listen fd, Event.accept listen (some fd) ∈ h ++ t → fd < w'.next := by
  obtain ⟨ht, hnext, hsource⟩ := ha
  refine ⟨fun fd hle => ?_, fun listen fd hmem => ?_⟩
  · have hold : w.next ≤ fd := Nat.le_trans hnext hle
    rw [hsource fd (fun hfd => Nat.not_le_of_lt (hS fd hfd) hold) (.inr hle), hT.fresh fd hold]
  · exact Nat.lt_of_lt_of_le (hT.known listen fd ((accept_mem_append ht listen).mp hmem)) hnext

/-- A part of the server that reads from no connection that may ask. -/
theorem Tally.apart (hT : Tally w₀ due h w) (ha : Apart S w t w')
    (hS : ∀ fd ∈ S, Harmless w₀ w fd) : Tally w₀ due (h ++ t) w' := by
  obtain ⟨hfresh, hknown⟩ := hT.beside ha fun fd hfd => (hS fd hfd).1
  obtain ⟨askers, hnodup, hmem, hlen⟩ := hT.paid
  refine ⟨hfresh, hknown, askers, hnodup, fun fd => ?_, by rw [count_rerun_append ha.1, hlen]⟩
  rw [hmem]
  by_cases hfd : fd ∈ S
  · have hno : ∀ h w, ¬ AsksReset w₀ h w fd := fun _ _ hasks => (hS fd hfd).2 hasks.line
    exact iff_of_false (hno _ _) (hno _ _)
  · constructor
    · intro hasks
      obtain ⟨listen, hacc⟩ := hasks.accepted
      exact (asksReset_congr ha.1 (ha.2.source fd hfd (.inl (hT.known listen fd hacc)))).mpr hasks
    · intro hasks
      obtain ⟨listen, hacc⟩ := hasks.accepted
      have hacc' := (accept_mem_append ha.1 listen).mp hacc
      exact (asksReset_congr ha.1 (ha.2.source fd hfd (.inl (hT.known listen fd hacc')))).mp hasks

/-- A connection that nothing was read from does not ask. -/
theorem not_asksReset (hsource : w.source fd = w₀.source fd) : ¬ AsksReset w₀ h w fd := by
  intro hasks
  have hwhole := hasks.whole
  rw [handed, hsource, Nat.sub_self, List.take_zero] at hwhole
  exact not_accepts_nil hwhole

/-- A connection comes in. -/
theorem Tally.accept (hT : Tally w₀ due h w) (listen : Fd) :
    Tally w₀ due (h ++ [.accept listen (some w.next)]) { w with next := w.next + 1 } := by
  obtain ⟨askers, hnodup, hmem, hlen⟩ := hT.paid
  have hnew : w.source w.next = w₀.source w.next := hT.fresh _ (Nat.le_refl _)
  refine ⟨fun fd hle => hT.fresh fd (Nat.le_of_succ_le hle), fun l fd hacc => ?_, askers, hnodup,
    fun fd => ?_, ?_⟩
  · rcases List.mem_append.mp hacc with hold | hlast
    · exact Nat.lt_succ_of_lt (hT.known l fd hold)
    · cases List.mem_singleton.mp hlast
      exact Nat.lt_succ_self _
  · rw [hmem]
    constructor
    · rintro ⟨⟨l, hacc⟩, hline, hwhole⟩
      exact ⟨⟨l, List.mem_append_left _ hacc⟩, hline, hwhole⟩
    · intro hasks
      obtain ⟨l, hacc⟩ := hasks.accepted
      rcases List.mem_append.mp hacc with hold | hlast
      · exact ⟨⟨l, hold⟩, hasks.line, hasks.whole⟩
      · cases List.mem_singleton.mp hlast
        exact absurd hasks (not_asksReset hnew)
  · rw [List.count_append, hlen]
    simp

/-- The pump goes through a request: the connection asks if it was read to the end. -/
theorem Tally.read {ok : Bool} (hT : Tally w₀ 0 h w) (ha : Apart {fd} w t w')
    (hacc : ∃ listen, Event.accept listen (some fd) ∈ h) (hnew : w.source fd = w₀.source fd)
    (htook : Took fd (w₀.source fd) ok w') :
    Tally w₀ (if ok = true ∧ route (w₀.source fd) = .reset then 1 else 0) (h ++ t) w' := by
  obtain ⟨listen, hacc⟩ := hacc
  obtain ⟨hfresh, hknown⟩ := hT.beside ha fun g hg => by
    obtain rfl := hg
    exact hT.known listen g hacc
  obtain ⟨askers, hnodup, hmem, hlen⟩ := hT.paid
  obtain ⟨n, hn, hleft, hok⟩ := htook
  have hasks : AsksReset w₀ (h ++ t) w' fd ↔ ok = true ∧ route (w₀.source fd) = .reset := by
    rw [(routes _).reset, hok, ← handed_drop hn hleft]
    constructor
    · exact fun hasks => ⟨hasks.whole, hasks.line⟩
    · exact fun hread => ⟨⟨listen, List.mem_append_left _ hacc⟩, hread.2, hread.1⟩
  have hothers : ∀ g, g ≠ fd → (AsksReset w₀ (h ++ t) w' g ↔ g ∈ askers) := by
    intro g hg
    rw [hmem]
    constructor
    · intro hasks
      obtain ⟨l, hacc⟩ := hasks.accepted
      have hlt := hT.known l g ((accept_mem_append ha.1 l).mp hacc)
      exact (asksReset_congr ha.1 (ha.2.source g hg (.inl hlt))).mp hasks
    · intro hasks
      obtain ⟨l, hacc⟩ := hasks.accepted
      exact (asksReset_congr ha.1 (ha.2.source g hg (.inl (hT.known l g hacc)))).mpr hasks
  have hout : fd ∉ askers := fun hin => not_asksReset hnew ((hmem fd).mp hin)
  refine ⟨hfresh, hknown, ?_⟩
  by_cases hread : ok = true ∧ route (w₀.source fd) = .reset
  · refine ⟨fd :: askers, List.nodup_cons.mpr ⟨hout, hnodup⟩, fun g => ?_, ?_⟩
    · by_cases hg : g = fd
      · rw [hg]
        exact iff_of_true List.mem_cons_self (hasks.mpr hread)
      · rw [List.mem_cons, or_iff_right hg, hothers g hg]
    · rw [if_pos hread, List.length_cons, count_rerun_append ha.1, hlen]
  · refine ⟨askers, hnodup, fun g => ?_, ?_⟩
    · by_cases hg : g = fd
      · rw [hg]
        exact iff_of_false hout (mt hasks.mp hread)
      · rw [hothers g hg]
    · rw [if_neg hread, count_rerun_append ha.1, hlen]

/-- `request_rerun`. -/
theorem Tally.rerun (hT : Tally w₀ 1 h w) : Tally w₀ 0 (h ++ [.rerun]) w := by
  obtain ⟨askers, hnodup, hmem, hlen⟩ := hT.paid
  have hacc : ∀ listen fd, Event.accept listen (some fd) ∈ h ++ [.rerun]
      ↔ Event.accept listen (some fd) ∈ h := by simp
  refine ⟨hT.fresh, fun l fd hin => hT.known l fd ((hacc l fd).mp hin), askers, hnodup,
    fun fd => ?_, ?_⟩
  · rw [hmem]
    constructor
    · rintro ⟨⟨l, hin⟩, hline, hwhole⟩
      exact ⟨⟨l, (hacc l fd).mpr hin⟩, hline, hwhole⟩
    · rintro ⟨⟨l, hin⟩, hline, hwhole⟩
      exact ⟨⟨l, (hacc l fd).mp hin⟩, hline, hwhole⟩
  · rw [List.count_append, hlen]
    simp

end

/-! ## The pump -/

section

variable {w₀ : World} {due : Nat} {c : Option Fd} {α : Type}

theorem Accounted.apart {h t : List Event} {w w' : World} (hA : Accounted w₀ due c h w)
    (ha : Apart {fd | c = some fd} w t w') : Accounted w₀ due c (h ++ t) w' where
  tally := hA.tally.apart ha hA.client
  client := fun fd hfd =>
    ⟨Nat.lt_of_lt_of_le (hA.client fd hfd).1 ha.2.next, (hA.client fd hfd).2⟩

/-- A part of the server that only has to do with the client. -/
theorem accounted_apart {p : Sys α} (hp : Does (Apart {fd | c = some fd}) p) :
    Triple (Accounted w₀ due c) p (fun _ => Accounted w₀ due c) (fun _ => True) :=
  hp.triple fun _ _ _ _ hA ha => hA.apart ha

theorem Accounted.drop {h : List Event} {w : World} (hA : Accounted w₀ due c h w) :
    Accounted w₀ due none h w :=
  ⟨hA.tally, by simp⟩

theorem accounted_close (fd : Fd) :
    Triple (Accounted w₀ due c)
      (do
        close fd
        pure none : Sys (Option Fd))
      (fun c' => Accounted w₀ due c') (fun _ => True) :=
  Triple.bind (accounted_apart (apart_emit rfl)) fun _ => .pure fun _ _ hA => hA.drop

theorem pumpDrop_accounted (fds : Reply) :
    Triple (Accounted w₀ due c) (pumpDrop fds c) (fun c' => Accounted w₀ due c')
      (fun _ => True) := by
  unfold pumpDrop
  split
  case isFalse => exact .pure fun _ _ hA => hA
  cases c with
  | none => exact .pure fun _ _ hA => hA
  | some fd =>
      have hfd : fd ∈ {g | some fd = some g} := rfl
      refine Triple.bind (accounted_apart (apart_receive rfl hfd 32)) fun bytes => ?_
      split
      · split
        · exact .pure fun _ _ hA => hA
        · exact accounted_close fd
      · split
        · exact accounted_close fd
        · exact .pure fun _ _ hA => hA

theorem pumpEvent_accounted (json : Option (List UInt8)) (jsonLen : Nat) :
    Triple (Accounted w₀ due c) (pumpEvent c json jsonLen) (fun c' => Accounted w₀ due c')
      (fun _ => True) := by
  unfold pumpEvent
  split
  · split
    · refine Triple.bind (accounted_apart (apart_sendSseData _ _ _)) fun ok => ?_
      split
      · exact .pure fun _ _ hA => hA
      · exact accounted_close _
    · exact .pure fun _ _ hA => hA
  · exact .pure fun _ _ hA => hA

/-- The connection that came in, before anything is read from it. -/
structure Incoming (w₀ : World) (fd : Fd) (h : List Event) (w : World) : Prop where
  accepted : ∃ listen, Event.accept listen (some fd) ∈ h
  source : w.source fd = w₀.source fd

theorem acceptClient_accounted (listen : Fd) :
    Triple (Accounted w₀ due c) (acceptClient listen)
      (fun got h w => Accounted w₀ due c h w ∧ ∀ fd, got = some fd → Incoming w₀ fd h w)
      (fun _ => True) := by
  have haccept : Triple (Accounted w₀ due c) (accept listen)
      (fun got h w => Accounted w₀ due c h w
        ∧ ∀ fd, got = some fd → fd < w.next ∧ (c ≠ some fd) ∧ Incoming w₀ fd h w)
      (fun _ => True) := by
    intro h w rs hA
    refine ⟨fun got w' rs' hres => ?_, fun _ => trivial⟩
    cases rs with
    | nil => cases hres
    | cons r rs =>
        by_cases hr : r.ret < 0
        · rw [accept, run_acquire_none hr] at hres ⊢
          cases hres
          exact ⟨hA.apart ⟨by simp [Event.plain], .refl w⟩, by simp⟩
        · rw [accept, run_acquire_some hr] at hres ⊢
          cases hres
          refine ⟨⟨hA.tally.accept listen, fun fd hfd => ?_⟩, fun fd hfd => ?_⟩
          · exact ⟨Nat.lt_succ_of_lt (hA.client fd hfd).1, (hA.client fd hfd).2⟩
          · cases hfd
            refine ⟨Nat.lt_succ_self _, fun hc => ?_, ⟨listen, by simp⟩, ?_⟩
            · exact Nat.lt_irrefl _ (hA.client _ hc).1
            · exact hA.tally.fresh _ (Nat.le_refl _)
  refine Triple.bind haccept fun got => ?_
  cases got with
  | none => exact .pure fun _ _ hA => ⟨hA.1, by simp⟩
  | some fd =>
      have hfcntl : Does (Apart {fd | c = some fd}) (setNonblock fd) := apart_setNonblock fd
      refine Triple.bind (hfcntl.triple (Q := fun h w => Accounted w₀ due c h w
        ∧ Incoming w₀ fd h w) ?_) fun _ => .pure ?_
      · rintro h t w w' ⟨hA, hfd⟩ ha
        obtain ⟨hlt, hne, ⟨l, hacc⟩, hsource⟩ := hfd fd rfl
        refine ⟨hA.apart ha, ⟨l, List.mem_append_left _ hacc⟩, ?_⟩
        rw [ha.2.source fd hne (.inl hlt), hsource]
      · rintro h w ⟨hA, hin⟩
        refine ⟨hA, fun g hg => ?_⟩
        cases hg
        exact hin

/-- The answer, and who is the client after it. -/
theorem pumpAnswer_accounted {incoming : Fd} (webRoot : Option (List UInt8))
    {response : Response} (hline : response = .sse → ¬ text "POST /reset " <+: w₀.source incoming) :
    Triple (fun h w => Accounted w₀ due c h w ∧ incoming < w.next)
      (pumpAnswer incoming c webRoot response) (fun c' => Accounted w₀ due c') (fun _ => True) := by
  have hkeep : ∀ {p : Sys Bool}, Does (Apart {fd | c = some fd}) p →
      Triple (fun h w => Accounted w₀ due c h w ∧ incoming < w.next)
        (do
          let _ ← p
          close incoming
          pure c)
        (fun c' => Accounted w₀ due c') (fun _ => True) := fun hp =>
    Triple.bind ((accounted_apart hp).mono (fun _ _ hA => hA.1) (fun _ _ _ hA => hA) fun _ h => h)
      fun _ => Triple.bind (accounted_apart (apart_emit rfl)) fun _ => .pure fun _ _ hA => hA
  cases response with
  | dashboard => exact hkeep (apart_sendDashboard _ _)
  | reset => exact hkeep (apart_sendText _ _)
  | notFound => exact hkeep (apart_sendText _ _)
  | sse =>
      have hapart : ∀ {α : Type} {p : Sys α}, Does (Apart {fd | c = some fd}) p →
          Triple (fun h w => Accounted w₀ due c h w ∧ incoming < w.next) p
            (fun _ h w => Accounted w₀ due c h w ∧ incoming < w.next) (fun _ => True) :=
        fun hp => hp.triple fun _ _ _ _ hA ha =>
          ⟨hA.1.apart ha, Nat.lt_of_lt_of_le hA.2 ha.2.next⟩
      refine Triple.bind (hapart (apart_closeFd c)) fun _ => ?_
      refine Triple.bind (hapart (apart_sendText _ _)) fun ok => ?_
      split
      · refine Triple.bind (hapart (apart_emit rfl)) fun _ => .pure fun _ _ hA => ?_
        refine ⟨hA.1.tally, fun fd hfd => ?_⟩
        cases hfd
        exact ⟨hA.2, hline rfl⟩
      · exact (accounted_close incoming).mono (fun _ _ hA => hA.1) (fun _ _ _ hA => hA) fun _ h => h

/-- Reading the request of the connection. -/
theorem readRequest_accounted {incoming : Fd} {buf : List UInt8} (hbuf : buf.length = 1024) :
    Triple (fun h w => Accounted w₀ 0 c h w ∧ Incoming w₀ incoming h w)
      (readRequest incoming buf 1024)
      (fun x h w => Accounted w₀
          (if x.1 = true ∧ route (w₀.source incoming) = .reset then 1 else 0) c h w
        ∧ incoming < w.next) (fun _ => True) := by
  refine Triple.exact fun h w hin => ?_
  obtain ⟨hA, ⟨listen, hacc⟩, hsource⟩ := hin
  have hread := (readRequest_took incoming (w₀.source incoming) hbuf).and
    ((apart_readRequest (S := {incoming}) rfl buf 1024).triple (P := fun t v => t = h ∧ v = w)
      (Q := fun t v => ∃ u, t = h ++ u ∧ Apart {incoming} w u v)
      (by
        rintro _ u _ v ⟨rfl, rfl⟩ ha
        exact ⟨u, rfl, ha⟩))
  refine hread.mono ?_ ?_ fun _ _ => trivial
  · rintro _ _ ⟨rfl, rfl⟩
    exact ⟨hsource, rfl, rfl⟩
  · rintro x _ v ⟨htook, u, rfl, ha⟩
    have hlt := hA.tally.known listen incoming hacc
    refine ⟨⟨hA.tally.read ha ⟨listen, hacc⟩ hsource htook, fun fd hfd => ?_⟩,
      Nat.lt_of_lt_of_le hlt ha.2.next⟩
    exact ⟨Nat.lt_of_lt_of_le (hA.client fd hfd).1 ha.2.next, (hA.client fd hfd).2⟩

theorem uninit_sized {P : List Event → World → Prop} (n : Nat) :
    Triple P (uninit n) (fun buf h w => buf.length = n ∧ P h w) (fun _ => True) := by
  intro h w rs hP
  refine ⟨fun buf w' rs' hres => ?_, fun _ => trivial⟩
  obtain ⟨hlen, rfl⟩ := uninit_result hres
  refine ⟨hlen, ?_⟩
  cases rs with
  | nil => cases hres
  | cons r rs => simpa only [uninit, run_bind, run_ask, andThen, run_pure, List.append_nil] using hP

/-- What the pump owes for `*reset_out`. -/
def owed (reset : Option Bool) : Nat := if reset = some true then 1 else 0

theorem owed_resetAfter (response : Response) :
    owed (resetAfter response (some false)) = if response = .reset then 1 else 0 := by
  cases response <;> rfl

theorem routedAccept_accounted (fds : Reply) (listen : Fd) (webRoot : Option (List UInt8)) :
    Triple (Accounted w₀ 0 c) (routedAccept fds listen c webRoot (some false))
      (fun r => Accounted w₀ (owed r.2) r.1) (fun _ => True) := by
  unfold routedAccept
  split
  case isFalse => exact .pure fun _ _ hA => hA
  refine Triple.bind (acceptClient_accounted listen) fun got => ?_
  cases got with
  | none => exact .pure fun _ _ hA => hA.1
  | some incoming =>
      refine Triple.bind Triple.get fun v => ?_
      refine Triple.exact fun h w hv => ?_
      obtain ⟨rfl, hA, hin⟩ := hv
      have hin := hin incoming rfl
      refine Triple.mono (P := fun h w => Accounted w₀ 0 c h w ∧ Incoming w₀ incoming h w) ?_
        (by rintro _ _ ⟨rfl, rfl⟩; exact ⟨hA, hin⟩) (fun _ _ _ h => h) fun _ h => h
      refine Triple.bind (uninit_sized 1024) fun req => ?_
      refine Triple.exact fun h' w' hreq => ?_
      refine Triple.bind ((readRequest_accounted hreq.1).mono
        (by rintro _ _ ⟨rfl, rfl⟩; exact hreq.2) (fun _ _ _ h => h) fun _ h => h) fun x => ?_
      obtain ⟨ok, buf⟩ := x
      simp only [hin.source]
      cases ok with
      | false =>
          refine Triple.bind (Triple.mono (accounted_apart (apart_emit rfl))
            (fun _ _ hA => by simpa using hA.1) (fun _ _ _ hA => hA) fun _ h => h) fun _ => ?_
          exact .pure fun _ _ hA => hA
      | true =>
          refine Triple.bind (pumpAnswer_accounted webRoot fun hsse hline => ?_) fun c' => .pure ?_
          · exact absurd ((routes _).reset.mpr hline) (by simp [hsse])
          · intro h w hA
            rw [owed_resetAfter]
            simpa using hA

/-- **One call of the pump.** -/
theorem httpSsePump_accounted (srv : HttpSseServer) (webRoot json : Option (List UInt8))
    (jsonLen : Nat) (timeoutMs : Int) :
    Triple (Accounted w₀ 0 c) (httpSsePump srv c webRoot json jsonLen timeoutMs (some false))
      (fun p h w => Accounted w₀ (owed p.reset) p.clientFd h w ∧ (p.ok = false → owed p.reset = 0))
      (fun _ => True) := by
  rw [httpSsePump_eq]
  unfold routedPump
  split
  · exact .pure fun _ _ hA => ⟨hA, fun _ => rfl⟩
  · refine Triple.bind (accounted_apart (apart_callOn rfl)) fun fds => ?_
    split
    · exact .pure fun _ _ hA => ⟨hA, fun _ => rfl⟩
    · refine Triple.bind (pumpDrop_accounted fds) fun c' => ?_
      refine Triple.bind (routedAccept_accounted fds _ webRoot) fun r => ?_
      split
      exact Triple.bind (pumpEvent_accounted json jsonLen) fun _ =>
        .pure fun _ _ hA => ⟨hA, by simp⟩

/-! ## `run_observe` -/

theorem requestRerunIf_accounted (reset : Option Bool) :
    Triple (Accounted w₀ (owed reset) c) (requestRerunIf (reset = some true))
      (fun _ => Accounted w₀ 0 c) (fun _ => True) := by
  unfold requestRerunIf owed
  by_cases hreset : reset = some true
  · simp only [hreset, decide_true, if_true]
    exact .emit fun _ _ hA => ⟨hA.tally.rerun, hA.client⟩
  · simp only [hreset, decide_false, if_false, Bool.false_eq_true]
    exact .pure fun _ _ hA => hA

/-- **A round pays what it owes.** -/
theorem observeRound_accounted (srv : HttpSseServer) (webRoot : Option (List UInt8))
    (timeoutMs : Int) (b : Option Fd × List UInt8) :
    Triple (Accounted w₀ 0 b.1) (observeRound srv webRoot timeoutMs b)
      (Sum.elim (fun b' => Accounted w₀ 0 b'.1) fun c => Accounted w₀ 0 c) (fun _ => True) := by
  obtain ⟨c, json⟩ := b
  refine Triple.bind (accounted_apart apart_ask) fun stop => ?_
  split
  · exact .pure fun _ _ hA => hA
  refine Triple.bind (accounted_apart apart_ask) fun found => ?_
  split
  split
  · exact .pure fun _ _ hA => hA
  refine Triple.bind (httpSsePump_accounted srv _ _ _ _) fun pumped => ?_
  split
  · rename_i hok
    refine .pure fun h w hp => ?_
    have hzero := hp.2 (by simpa using hok)
    rw [hzero] at hp
    exact hp.1
  · refine Triple.bind ((requestRerunIf_accounted pumped.reset).mono (fun _ _ hp => hp.1)
      (fun _ _ _ hA => hA) fun _ h => h) fun _ => .pure fun _ _ hA => hA

theorem runObserve_accounted (w₀ : World) (webRoot : Option (List UInt8)) (timeoutMs : Int) :
    Triple (Accounted w₀ 0 none) (runObserve webRoot timeoutMs)
      (fun _ h w => ∃ c, Accounted w₀ 0 c h w) (fun _ => True) := by
  refine Triple.bind (accounted_apart apart_ask) fun mapping => ?_
  split
  · exact .pure fun _ _ hA => ⟨none, hA⟩
  refine Triple.bind (accounted_apart (apart_httpSseListen _)) fun r => ?_
  split
  split
  · exact .pure fun _ _ hA => ⟨none, hA⟩
  refine Triple.bind (accounted_apart (apart_uninit _)) fun json => ?_
  refine Triple.bind (Triple.loop (observeRound_accounted _ _ _) (fun _ _ _ _ => trivial)
    (none, json)) fun c => ?_
  exact Triple.bind (accounted_apart (apart_observeCleanup _ c)) fun _ =>
    .pure fun _ _ hA => ⟨c, hA⟩

end

/--
**Each connection that asks for a rerun gets one, and nobody else does.**

In every run of `run_observe` that has ended, whatever the kernel replied to every call, the
calls of `request_rerun` are as many as the connections accepted whose request begins with
`POST /reset ` and of which the kernel handed over the blank line in the first 1023 bytes, with no
NUL in front of its end.
-/
theorem reruns_by_bytes {webRoot : Option (List UInt8)} {timeoutMs code : Int} {w w' : World}
    {rs rs' : List Reply} (hrun : (runObserve webRoot timeoutMs w rs).result = some (code, w', rs')) :
    ∃ askers : List Fd, askers.Nodup
      ∧ (∀ fd, fd ∈ askers ↔ AsksReset w (runObserve webRoot timeoutMs w rs).trace w' fd)
      ∧ (runObserve webRoot timeoutMs w rs).trace.count .rerun = askers.length := by
  obtain ⟨c, hA⟩ := (runObserve_accounted w webRoot timeoutMs [] w rs
    ⟨.start w, by simp⟩).ends _ _ _ hrun
  obtain ⟨askers, hnodup, hmem, hlen⟩ := hA.tally.paid
  exact ⟨askers, hnodup, hmem, by simpa using hlen.symm⟩

/-- The mapping is found and the socket set up; a client is read from and answered; then a signal
stops the observer. -/
def oneReset : List Reply :=
  {} :: willing :: List.replicate 7 {} ++ List.replicate 9 willing ++ [willing]

theorem reruns_by_bytes_one :
    (runObserve none 0 resetWorld oneReset).trace.count .rerun = 1
      ∧ ∃ w' fd, AsksReset resetWorld (runObserve none 0 resetWorld oneReset).trace w' fd := by
  have h : (runObserve none 0 resetWorld oneReset).result.isSome = true
      ∧ (runObserve none 0 resetWorld oneReset).trace.count .rerun = 1 := by decide +kernel
  obtain ⟨hends, hcount⟩ := h
  obtain ⟨⟨code, w', rs'⟩, hrun⟩ := Option.isSome_iff_exists.mp hends
  obtain ⟨askers, -, hmem, hlen⟩ := reruns_by_bytes hrun
  obtain ⟨fd, hfd⟩ := List.exists_mem_of_length_pos (by omega : 0 < askers.length)
  exact ⟨hcount, w', fd, (hmem fd).mp hfd⟩

end RateHub.Http
