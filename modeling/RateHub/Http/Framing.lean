import RateHub.Http.Ownership
import RateHub.Http.Sending

/-!
# What one call of the pump sends to whom

Three sockets matter in a call: the client held before it, the connection accepted in it,
and the one that is the client when the event is sent (`mid`), which is one of the two or
none. Everything but the event goes to the accepted connection; it becomes the client only
after the whole header block went out. The event goes to `mid`, and unless all of it went
out `mid` is closed.

`Segment` says this of the calls `t` made since the pump was called, with `y` the part of
the event that is out. It holds at every point where the pump may be left waiting.
-/

namespace RateHub.Http

open Interaction

/-! ## Who is sent to -/

/-- A call that sends nothing to anyone but `fd`, and does not hold a client. -/
structure OnlyTo (fd : Fd) (e : Event) : Prop where
  hold : ∀ g, e ≠ .hold g
  out : ∀ g, g ≠ fd → e.out g = []

/-- A call that sends nothing, and does not hold a client. -/
structure Silent (e : Event) : Prop where
  hold : ∀ g, e ≠ .hold g
  out : ∀ g, e.out g = []

/-- Sending nothing is sending nothing to anyone else. -/
theorem Silent.onlyTo {e : Event} (he : Silent e) (fd : Fd) : OnlyTo fd e :=
  ⟨he.hold, fun g _ => he.out g⟩

/-- Silent calls deliver nothing, to nobody. -/
theorem delivered_silent {t : List Event} (ht : ∀ e ∈ t, Silent e) (g : Fd) :
    delivered g t = [] := by
  rw [delivered, List.flatMap_eq_nil_iff]
  exact fun e he => (ht e he).out g

/-- Calls that send to one descriptor deliver nothing to another. -/
theorem delivered_onlyTo {fd : Fd} {t : List Event} (ht : ∀ e ∈ t, OnlyTo fd e) {g : Fd}
    (hg : g ≠ fd) : delivered g t = [] := by
  rw [delivered, List.flatMap_eq_nil_iff]
  exact fun e he => (ht e he).out g hg

/-- Neither a `send` nor the mark that a client is held. -/
def Event.quiet : Event → Bool
  | .send _ _ _ => false
  | .hold _ => false
  | _ => true

/-- Every call but `send`, and every mark but that of a held client, is silent. -/
theorem silent_of_quiet (e : Event) (he : e.quiet = true) : Silent e where
  hold := by
    rintro g rfl
    simp [Event.quiet] at he
  out := by
    intro g
    cases e with
    | send fd data n => simp [Event.quiet] at he
    | _ => rfl

/-- A `send` delivers to its own descriptor. -/
theorem onlyTo_send (fd : Fd) (data : List UInt8) (n : Nat) : OnlyTo fd (.send fd data n) :=
  ⟨by simp, fun g hg => by simp [Event.out, Ne.symm hg]⟩

section

variable {A : Event → Prop} {fd : Fd}

theorem emits_uninit (n : Nat) : Emits A (uninit n) := Emits.ask.bind fun _ => .pure _

theorem emits_callOn {e : Event} (he : A e) : Emits A (callOn e) :=
  Emits.ask.bind fun _ => (Emits.emit he).bind fun _ => .pure _

theorem emits_receive {e : Event} (he : A e) (fd : Fd) (most : Nat) :
    Emits A (receive fd most e) := by
  refine Emits.ask.bind fun r => (Emits.emit he).bind fun _ => ?_
  split
  · exact .pure _
  · exact Emits.get.bind fun _ => (Emits.set _).bind fun _ => .pure _

theorem emits_acquire {event : Option Fd → Event} (he : ∀ got, A (event got)) :
    Emits A (acquire event) := by
  refine Emits.ask.bind fun r => ?_
  split
  · exact (Emits.emit (he _)).bind fun _ => .pure _
  · refine Emits.bind ?_ fun fd => (Emits.emit (he _)).bind fun _ => .pure _
    exact Emits.get.bind fun _ => (Emits.set _).bind fun _ => .pure _

theorem emits_send (fd : Fd) (data : List UInt8) : Emits (OnlyTo fd) (send fd data) := by
  refine Emits.ask.bind fun r => ?_
  split <;> exact (Emits.emit (onlyTo_send fd _ _)).bind fun _ => .pure _

/-- `send_all` polls and sends on one descriptor, however its loop goes. -/
theorem emits_sendAll (fd : Fd) (data : List UInt8) (len : Nat) :
    Emits (OnlyTo fd) (sendAll fd data len) := by
  refine Emits.loop (fun sent => ?_) 0
  unfold sendRound
  split
  · exact .pure _
  · refine (emits_callOn ((silent_of_quiet (.poll _ _) rfl).onlyTo fd)).bind fun pfd => ?_
    split
    · exact .pure _
    · refine (emits_send fd _).bind fun n => ?_
      split <;> exact .pure _

/-- `read_request` sends nothing, whatever comes in. -/
theorem emits_readRequest (fd : Fd) (buf : List UInt8) (cap : Nat) :
    Emits Silent (readRequest fd buf cap) := by
  refine Emits.loop (fun b => ?_) _
  obtain ⟨got, buf⟩ := b
  simp only [readRound]
  split
  · refine (emits_callOn (silent_of_quiet (.poll _ _) rfl)).bind fun pfd => ?_
    split
    · exact .pure _
    · refine (emits_receive (silent_of_quiet (.recv fd) rfl) fd _).bind fun chunk => ?_
      split
      · exact .pure _
      · split <;> exact .pure _
  · exact .pure _

theorem emits_setNonblock (fd : Fd) : Emits Silent (setNonblock fd) := by
  refine (emits_callOn (silent_of_quiet (.setup fd) rfl)).bind fun flags => ?_
  split
  · exact (emits_callOn (silent_of_quiet (.setup fd) rfl)).bind fun _ => .pure _
  · exact .pure _

/-- A formatted text goes to one descriptor. -/
theorem emits_sendFormatted (fd : Fd) (cap past : Nat) (s : List UInt8) :
    Emits (OnlyTo fd) (sendFormatted fd cap past s) := by
  refine (emits_uninit _).bind fun stack => ?_
  split
  split
  · exact .pure _
  · exact emits_sendAll fd _ _

theorem emits_sendNotFound (fd : Fd) : Emits (OnlyTo fd) (sendNotFound fd) := by
  unfold sendNotFound
  exact emits_sendAll fd _ _

theorem emits_sendResetOk (fd : Fd) : Emits (OnlyTo fd) (sendResetOk fd) := by
  unfold sendResetOk
  exact emits_sendAll fd _ _

/-- The file is only read from. -/
theorem emits_sendDashboard (fd : Fd) (webRoot : Option (List UInt8)) :
    Emits (OnlyTo fd) (sendDashboard fd webRoot) := by
  have hclose : ∀ (file : Fd) (ok : Bool), Emits (OnlyTo fd)
      (do
        close file
        pure ok : Sys Bool) :=
    fun file ok =>
      (Emits.emit ((silent_of_quiet (.close file) rfl).onlyTo fd)).bind fun _ => .pure _
  refine (emits_uninit _).bind fun stack => ?_
  split
  split
  · -- the path did not fit its array
    exact .pure _
  · refine (emits_acquire fun got =>
      (silent_of_quiet (.openFile _ got) rfl).onlyTo fd).bind fun got => ?_
    cases got with
    | none => exact emits_sendNotFound fd
    | some file =>
        refine (emits_callOn ((silent_of_quiet (.fstat file) rfl).onlyTo fd)).bind fun st => ?_
        split
        · -- `fstat` failed
          exact hclose file _
        · refine (emits_sendFormatted fd _ _ _).bind fun ok => ?_
          split
          · -- the header went out; now the file, chunk by chunk
            refine (Emits.loop (fun _ => ?_) ()).bind fun ok => hclose file ok
            refine (emits_receive ((silent_of_quiet (.read file) rfl).onlyTo fd)
              file _).bind fun chunk => ?_
            split
            · exact .pure _
            · split
              · exact .pure _
              · exact (emits_sendAll fd _ _).bind fun _ => .pure _
          · exact hclose file _

end

/-! ## The calls since the pump was called -/

/-- The calls made since `h₀` are such that `F`. -/
def Since (h₀ : List Event) (F : List Event → Prop) (h : List Event) (_w : World) : Prop :=
  ∃ t, h = h₀ ++ t ∧ F t

/-- The same for a program left waiting. -/
def Waits (h₀ : List Event) (F : List Event → Prop) (h : List Event) : Prop :=
  ∃ t, h = h₀ ++ t ∧ F t

section

variable {h₀ : List Event} {F G W : List Event → Prop} {α : Type}

/-- Waiting for a reply adds no call. -/
theorem since_ask (hW : ∀ t, F t → W t) :
    Triple (Since h₀ F) (Proc.ask : Sys Reply) (fun _ => Since h₀ F) (Waits h₀ W) := by
  refine .ask ?_
  rintro h w ⟨t, ht, hF⟩
  exact ⟨t, ht, hW t hF⟩

/-- One call more. -/
theorem since_emit {e : Event} (hG : ∀ t, F t → G (t ++ [e])) :
    Triple (Since h₀ F) (Proc.emit e : Sys Unit) (fun _ => Since h₀ G) (Waits h₀ W) := by
  refine .emit ?_
  rintro h w ⟨t, rfl, hF⟩
  exact ⟨t ++ [e], List.append_assoc _ _ _, hG t hF⟩

/-- A return adds nothing. -/
theorem since_pure {a : α} {Q : α → List Event → Prop} (hG : ∀ t, F t → Q a t) :
    Triple (Since h₀ F) (pure a : Sys α) (fun a => Since h₀ (Q a)) (Waits h₀ W) := by
  refine .pure ?_
  rintro h w ⟨t, ht, hF⟩
  exact ⟨t, ht, hG t hF⟩

/-- A program that only makes calls of the kind `A`. -/
theorem since_emits {A : Event → Prop} {p : Sys α} (hp : Emits A p)
    (hG : ∀ t u, F t → (∀ e ∈ u, A e) → G (t ++ u)) (hW : ∀ t, G t → W t) :
    Triple (Since h₀ F) p (fun _ => Since h₀ G) (Waits h₀ W) := by
  have hstep : ∀ h u, (∃ t, h = h₀ ++ t ∧ F t) → (∀ e ∈ u, A e) →
      ∃ t, h ++ u = h₀ ++ t ∧ G t := by
    rintro h u ⟨t, rfl, hF⟩ hu
    exact ⟨t ++ u, List.append_assoc _ _ _, hG t u hF hu⟩
  refine hp.triple hstep ?_
  intro h u hF hu
  obtain ⟨t, ht, hGt⟩ := hstep h u hF hu
  exact ⟨t, ht, hW t hGt⟩

/-- What is known of the calls may be forgotten. -/
theorem Since.mono {h : List Event} {w : World} (hs : Since h₀ F h w) (hFG : ∀ t, F t → G t) :
    Since h₀ G h w := by
  obtain ⟨t, ht, hF⟩ := hs
  exact ⟨t, ht, hFG t hF⟩

end

/-- What the calls `t` since the pump was called with the client `c₀` have sent: `inc` is
the connection accepted, `mid` the client the event goes to, `y` the part of the event `ev`
that is out. -/
structure Segment (c₀ : Option Fd) (ev : List UInt8) (t : List Event) (inc mid : Option Fd)
    (y : List UInt8) : Prop where
  got : ∀ g, inc = some g → ∃ e ∈ t, e.gets = some g
  quiet : ∀ g, inc ≠ some g → mid ≠ some g → delivered g t = []
  held : ∀ g, .hold g ∈ t → inc = some g ∧ mid = some g ∧ delivered g t = text sseHeaders ++ y
  old : ∀ g, mid = some g → .hold g ∉ t → c₀ = some g ∧ (inc ≠ some g → delivered g t = y)
  part : y <+: ev

/-- The client held before is still the client, or was closed. -/
def Kept (c₀ c : Option Fd) (t : List Event) : Prop :=
  c = c₀ ∨ ∀ g, c₀ = some g → .close g ∈ t

/-- The pump may be left waiting here. -/
def Midway (c₀ : Option Fd) (ev : List UInt8) (t : List Event) : Prop :=
  ∃ inc mid y, Segment c₀ ev t inc mid y

/-- The event is about to be sent to `c`. -/
def Ready (c₀ : Option Fd) (ev : List UInt8) (c : Option Fd) (t : List Event) : Prop :=
  ∃ inc, Segment c₀ ev t inc c [] ∧ Kept c₀ c t

/-- The pump is about to return, with the client `c`. -/
def Finished (c₀ : Option Fd) (ev : List UInt8) (c : Option Fd) (t : List Event) : Prop :=
  ∃ inc mid y, Segment c₀ ev t inc mid y ∧ Kept c₀ mid t
    ∧ ((c = mid ∧ (y = [] ∨ y = ev))
      ∨ (c = none ∧ y ≠ ev ∧ ∃ g, mid = some g ∧ .close g ∈ t))

/-- Nothing is sent yet, and the client is `c`. -/
structure Listening (c₀ c inc : Option Fd) (t : List Event) : Prop where
  silent : ∀ e ∈ t, Silent e
  got : ∀ g, inc = some g → ∃ e ∈ t, e.gets = some g
  client : c = c₀ ∨ c = none
  kept : Kept c₀ c t

/-- Nothing but the connection `g` was sent to, and the client is `c`. -/
structure Answering (c₀ c : Option Fd) (g : Fd) (t : List Event) : Prop where
  only : ∀ e ∈ t, OnlyTo g e
  got : ∃ e ∈ t, e.gets = some g
  client : c = c₀ ∨ c = none
  kept : Kept c₀ c t

section

variable {c₀ c inc : Option Fd} {ev : List UInt8} {t u : List Event} {g : Fd}

/-- A close stays in the record. -/
theorem Kept.append (h : Kept c₀ c t) (u : List Event) : Kept c₀ c (t ++ u) := by
  rcases h with heq | hclosed
  · exact .inl heq
  · exact .inr fun g hg => List.mem_append_left _ (hclosed g hg)

/-- Where the pump begins. -/
theorem Listening.start (c₀ : Option Fd) : Listening c₀ c₀ none [] :=
  ⟨by simp, by simp, .inl rfl, .inl rfl⟩

/-- Silent calls leave the pump listening. -/
theorem Listening.append (h : Listening c₀ c inc t) (hu : ∀ e ∈ u, Silent e) :
    Listening c₀ c inc (t ++ u) where
  silent := by
    intro e he
    rcases List.mem_append.mp he with hold | hnew
    · exact h.silent e hold
    · exact hu e hnew
  got := by
    intro g hg
    obtain ⟨e, he, hgets⟩ := h.got g hg
    exact ⟨e, List.mem_append_left _ he, hgets⟩
  client := h.client
  kept := h.kept.append u

/-- While the pump listens nobody was sent anything, so the segment is empty. -/
theorem Listening.segment (h : Listening c₀ c inc t) (ev : List UInt8) :
    Segment c₀ ev t inc c [] where
  got := h.got
  quiet := fun g _ _ => delivered_silent h.silent g
  held := fun g hg => absurd rfl ((h.silent _ hg).hold g)
  old := by
    intro g hg _
    refine ⟨?_, fun _ => delivered_silent h.silent g⟩
    rcases h.client with rfl | rfl
    · exact hg
    · exact absurd hg (by simp)
  part := List.nil_prefix

theorem Listening.ready (h : Listening c₀ c inc t) : Ready c₀ ev c t :=
  ⟨inc, h.segment ev, h.kept⟩

/-- From here on the accepted connection may be sent to. -/
theorem Listening.answering (h : Listening c₀ c (some g) t) : Answering c₀ c g t :=
  ⟨fun e he => (h.silent e he).onlyTo g, h.got g rfl, h.client, h.kept⟩

/-- Calls that send to the accepted connection only. -/
theorem Answering.append (h : Answering c₀ c g t) (hu : ∀ e ∈ u, OnlyTo g e) :
    Answering c₀ c g (t ++ u) where
  only := by
    intro e he
    rcases List.mem_append.mp he with hold | hnew
    · exact h.only e hold
    · exact hu e hnew
  got := by
    obtain ⟨e, he, hgets⟩ := h.got
    exact ⟨e, List.mem_append_left _ he, hgets⟩
  client := h.client
  kept := h.kept.append u

/-- An answered connection is not the client, so what it was sent does not matter. -/
theorem Answering.segment (h : Answering c₀ c g t) (ev : List UInt8) :
    Segment c₀ ev t (some g) c [] where
  got := by
    intro x hx
    obtain rfl := Option.some.inj hx
    exact h.got
  quiet := by
    intro x hx _
    exact delivered_onlyTo h.only fun heq => hx (congrArg some heq.symm)
  held := fun x hx => absurd rfl ((h.only _ hx).hold x)
  old := by
    intro x hx _
    refine ⟨?_, fun hne => delivered_onlyTo h.only fun heq => hne (congrArg some heq.symm)⟩
    rcases h.client with rfl | rfl
    · exact hx
    · exact absurd hx (by simp)
  part := List.nil_prefix

theorem Answering.ready (h : Answering c₀ c g t) : Ready c₀ ev c t :=
  ⟨some g, h.segment ev, h.kept⟩

/-- The client is closed and forgotten. -/
theorem Listening.close (h : Listening c₀ (some g) inc t) :
    Listening c₀ none inc (t ++ [.close g]) := by
  have hsilent : ∀ e ∈ [Event.close g], Silent e :=
    List.forall_mem_singleton.mpr (silent_of_quiet (.close g) rfl)
  have happ := h.append hsilent
  refine ⟨happ.silent, happ.got, .inr rfl, .inr ?_⟩
  intro x hx
  rcases h.client with heq | hnone
  · rw [← heq] at hx
    obtain rfl := Option.some.inj hx
    exact List.mem_append_right _ (List.mem_singleton.mpr rfl)
  · exact absurd hnone (by simp)

/-- The whole header block went out, and the connection becomes the client. -/
theorem Listening.hold {sent : Nat} (h : Listening c₀ none (some g) t)
    (hs : Sending g (text sseHeaders) u sent) (hall : (text sseHeaders).length ≤ sent) :
    Ready c₀ ev (some g) (t ++ u ++ [.hold g]) := by
  -- the connection is held now and was not before
  have hu : ∀ x, Event.hold x ∉ t ++ u := by
    intro x hx
    rcases List.mem_append.mp hx with ht | hu
    · exact (h.silent _ ht).hold x rfl
    · rcases hs.calls _ hu with hpoll | ⟨i, n, hsend⟩
      · exact absurd hpoll (by simp)
      · exact absurd hsend (by simp)
  have hmem : ∀ x, Event.hold x ∈ t ++ u ++ [.hold g] → x = g := by
    intro x hx
    rcases List.mem_append.mp hx with hold | hnew
    · exact absurd hold (hu x)
    · simpa using hnew
  have hout : ∀ x, delivered x (t ++ u ++ [.hold g]) = delivered x u := by
    intro x
    rw [delivered_append, delivered_append, delivered_silent h.silent, delivered_singleton]
    simp [Event.out]
  refine ⟨some g, ⟨?_, ?_, ?_, ?_, List.nil_prefix⟩, ?_⟩
  · -- it was accepted in this call
    intro x hx
    obtain ⟨e, he, hgets⟩ := h.got x hx
    exact ⟨e, List.mem_append_left _ (List.mem_append_left _ he), hgets⟩
  · intro x hx _
    rw [hout]
    exact hs.out_other fun heq => hx (congrArg some heq.symm)
  · intro x hx
    obtain rfl := hmem x hx
    refine ⟨rfl, rfl, ?_⟩
    rw [hout, hs.out, List.take_of_length_le hall, List.append_nil]
  · intro x hx hno
    obtain rfl := Option.some.inj hx
    exact absurd (List.mem_append_right _ (List.mem_singleton.mpr rfl)) hno
  · -- the client of before, if there was one, was closed to make room
    right
    rcases h.kept with hnone | hclosed
    · intro x hx
      rw [← hnone] at hx
      exact absurd hx (by simp)
    · intro x hx
      exact List.mem_append_left _ (List.mem_append_left _ (hclosed x hx))

end

/-! ## The message of a call -/

/-- After calls such that `F`, the message `msg` was sent to `g` as far as `C` says. -/
def SentTo (F : List Event → Prop) (g : Fd) (msg : List UInt8) (C : Nat → Prop)
    (t : List Event) : Prop :=
  ∃ t₁ u sent, t = t₁ ++ u ∧ F t₁ ∧ Sending g msg u sent ∧ C sent

section

variable {h₀ : List Event} {F : List Event → Prop} {g : Fd}

/-- Before the first `send` nothing of the message is out. -/
theorem SentTo.start {t : List Event} {msg : List UInt8} {C : Nat → Prop} (hF : F t) (hC : C 0) :
    SentTo F g msg C t := ⟨t, [], 0, by simp, hF, Sending.nil g msg, hC⟩

/-- `send_all` after the calls made so far, from `sendAll_spec`. -/
theorem sendAll_since {data msg : List UInt8} {len : Nat} (hmsg : data.take len = msg) :
    Triple (Since h₀ F) (sendAll g data len)
      (fun ok => Since h₀ (SentTo F g msg fun sent => ok = true ↔ len ≤ sent))
      (Waits h₀ (SentTo F g msg fun _ => True)) := by
  subst hmsg
  refine Triple.exact fun h w hF => ?_
  obtain ⟨t₁, rfl, hF⟩ := hF
  refine (sendAll_spec g data len (h₀ ++ t₁) w).mono (fun _ _ h => h) ?_ ?_
  · rintro ok h v ⟨sent, ⟨-, u, rfl, hs⟩, hok⟩
    exact ⟨t₁ ++ u, List.append_assoc _ _ _, t₁, u, sent, rfl, hF, hs, hok⟩
  · rintro h ⟨u, sent, rfl, hs⟩
    exact ⟨t₁ ++ u, List.append_assoc _ _ _, t₁, u, sent, rfl, hF, hs, trivial⟩

/-- The same for a literal. -/
theorem sendText_since (s : String) :
    Triple (Since h₀ F) (sendText g s)
      (fun ok => Since h₀ (SentTo F g (text s) fun sent => ok = true ↔ (text s).length ≤ sent))
      (Waits h₀ (SentTo F g (text s) fun _ => True)) :=
  sendAll_since List.take_length

/-- An event is sent in full, or the result is false and it is not. -/
theorem sendSseData_since (payload : List UInt8) (len : Nat) :
    Triple (Since h₀ F) (sendSseData g payload len)
      (fun ok => Since h₀ (SentTo F g (sseEvent payload len) fun sent =>
        ok = true ↔ (sseEvent payload len).length ≤ sent))
      (Waits h₀ (SentTo F g (sseEvent payload len) fun _ => True)) := by
  have hlen := length_sseEvent payload len
  have hle := length_precise_le len payload
  rw [sendSseData]
  split
  · refine since_pure fun t hF => SentTo.start hF ?_
    simp only [Bool.false_eq_true, false_iff]
    omega
  · refine Triple.bind (Q := fun _ => Since h₀ F) ?_ fun stack => ?_
    · refine Triple.bind (since_ask fun t hF => SentTo.start hF trivial) fun r => ?_
      exact since_pure fun _ hF => hF
    · obtain ⟨hn, htake, -⟩ := @snprintf_fits stack (sseEvent payload len) 8192
        (by omega) (by omega)
      show Triple (Since h₀ F) (if (snprintf stack 8192 (sseEvent payload len)).2 ≤ 0 then
          pure false
        else sendAll g (snprintf stack 8192 (sseEvent payload len)).1
          (snprintf stack 8192 (sseEvent payload len)).2.toNat) _ _
      rw [hn, if_neg (by omega), Int.toNat_natCast]
      exact sendAll_since htake

end

/-! ## The pump -/

/-- The event a call may send. -/
def eventOf (json : Option (List UInt8)) (jsonLen : Nat) : List UInt8 :=
  match json with
  | none => []
  | some payload => if 0 < jsonLen then sseEvent payload jsonLen else []

section

variable {h₀ : List Event} {c₀ c inc : Option Fd} {ev : List UInt8} {t u : List Event} {g : Fd}

/-- Some of the event goes out to the client. -/
theorem Segment.send {sent : Nat} (h : Segment c₀ ev t inc (some g) [])
    (hs : Sending g ev u sent) : Segment c₀ ev (t ++ u) inc (some g) (ev.take sent) where
  got := by
    intro x hx
    obtain ⟨e, he, hgets⟩ := h.got x hx
    exact ⟨e, List.mem_append_left _ he, hgets⟩
  quiet := by
    intro x hinc hmid
    rw [delivered_append, h.quiet x hinc hmid]
    exact hs.out_other fun heq => hmid (congrArg some heq.symm)
  held := by
    intro x hx
    rcases List.mem_append.mp hx with hold | hnew
    · obtain ⟨h1, h2, h3⟩ := h.held x hold
      obtain rfl := Option.some.inj h2
      refine ⟨h1, rfl, ?_⟩
      rw [delivered_append, h3, hs.out, List.append_nil]
    · rcases hs.calls _ hnew with hpoll | ⟨i, n, hsend⟩
      · exact absurd hpoll (by simp)
      · exact absurd hsend (by simp)
  old := by
    intro x hx hno
    obtain rfl := Option.some.inj hx
    obtain ⟨h1, h2⟩ := h.old g rfl fun hin => hno (List.mem_append_left _ hin)
    refine ⟨h1, fun hinc => ?_⟩
    rw [delivered_append, h2 hinc, hs.out, List.nil_append]
  part := List.take_prefix _ _

/-- Calls that send nothing change nothing. -/
theorem Segment.append {mid : Option Fd} {y : List UInt8} (h : Segment c₀ ev t inc mid y)
    (hu : ∀ e ∈ u, Silent e) : Segment c₀ ev (t ++ u) inc mid y := by
  have hout : ∀ x, delivered x (t ++ u) = delivered x t := by
    intro x
    rw [delivered_append, delivered_silent hu, List.append_nil]
  have hhold : ∀ x, Event.hold x ∈ t ++ u → Event.hold x ∈ t := by
    intro x hx
    rcases List.mem_append.mp hx with hold | hnew
    · exact hold
    · exact absurd rfl ((hu _ hnew).hold x)
  refine ⟨?_, ?_, ?_, ?_, h.part⟩
  · intro x hx
    obtain ⟨e, he, hgets⟩ := h.got x hx
    exact ⟨e, List.mem_append_left _ he, hgets⟩
  · intro x hinc hmid
    rw [hout, h.quiet x hinc hmid]
  · intro x hx
    rw [hout]
    exact h.held x (hhold x hx)
  · intro x hmid hno
    rw [hout]
    exact h.old x hmid fun hin => hno (List.mem_append_left _ hin)

/-- The pump may be left waiting while it listens. -/
theorem Listening.midway (h : Listening c₀ c inc t) : Midway c₀ ev t := ⟨inc, c, [], h.segment ev⟩

theorem Answering.midway (h : Answering c₀ c g t) : Midway c₀ ev t :=
  ⟨some g, c, [], h.segment ev⟩

/-- `drop_if_closed` reads from the client, and closes it or keeps it. -/
theorem dropIfClosed_since (c : Option Fd) :
    Triple (Since h₀ (Listening c₀ c none)) (dropIfClosed c)
      (fun c' => Since h₀ (Listening c₀ c' none)) (Waits h₀ (Midway c₀ ev)) := by
  cases c with
  | none => exact since_pure fun _ h => h
  | some fd =>
      have hclosed : Triple (Since h₀ (Listening c₀ (some fd) none))
          (do
            close fd
            pure none : Sys (Option Fd))
          (fun c' => Since h₀ (Listening c₀ c' none)) (Waits h₀ (Midway c₀ ev)) :=
        Triple.bind (since_emit fun t h => h.close) fun _ => since_pure fun _ h => h
      have hopen : Triple (Since h₀ (Listening c₀ (some fd) none)) (pure (some fd) : Sys _)
          (fun c' => Since h₀ (Listening c₀ c' none)) (Waits h₀ (Midway c₀ ev)) :=
        since_pure fun _ h => h
      refine Triple.bind (since_emits (emits_receive (silent_of_quiet (.recv fd) rfl) fd 32)
        (fun t u h hu => h.append hu) fun t h => h.midway) fun n => ?_
      split
      · -- an error: kept when it is one to try again after
        split
        · exact hopen
        · exact hclosed
      · -- no error: closed when the peer has closed
        split
        · exact hclosed
        · exact hopen

/-- The first `if` of the pump: the client of before is looked at, or is not. -/
theorem pumpDrop_since (fds : Reply) (c : Option Fd) :
    Triple (Since h₀ (Listening c₀ c none)) (pumpDrop fds c)
      (fun c' => Since h₀ (Listening c₀ c' none)) (Waits h₀ (Midway c₀ ev)) := by
  unfold pumpDrop
  split
  · exact dropIfClosed_since c
  · exact since_pure fun _ h => h

/-- `accept_client` gives a new connection, or none. -/
theorem acceptClient_since (listen : Fd) :
    Triple (Since h₀ (Listening c₀ c none)) (acceptClient listen)
      (fun got => Since h₀ (Listening c₀ c got)) (Waits h₀ (Midway c₀ ev)) := by
  have hone : ∀ got, ∀ e ∈ [Event.accept listen got], Silent e :=
    fun got => List.forall_mem_singleton.mpr (silent_of_quiet (.accept listen got) rfl)
  have haccept : Triple (Since h₀ (Listening c₀ c none)) (accept listen)
      (fun got => Since h₀ (Listening c₀ c got)) (Waits h₀ (Midway c₀ ev)) := by
    refine Triple.bind (since_ask fun t h => h.midway) fun r => ?_
    split
    · refine Triple.bind (since_emit fun t h => h.append (hone none)) fun _ => ?_
      exact since_pure fun _ h => h
    · refine Triple.bind (since_emits (A := Silent) ?_ (fun t u h hu => h.append hu)
        fun t h => h.midway) fun fd => ?_
      · exact Emits.get.bind fun _ => (Emits.set _).bind fun _ => .pure _
      · refine Triple.bind (since_emit (G := Listening c₀ c (some fd)) fun t h => ?_) fun _ =>
          since_pure fun _ h => h
        have happ := h.append (hone (some fd))
        refine ⟨happ.silent, ?_, happ.client, happ.kept⟩
        intro x hx
        exact ⟨_, List.mem_append_right _ (List.mem_singleton.mpr rfl), hx⟩
  refine Triple.bind haccept fun got => ?_
  cases got with
  | none => exact since_pure fun _ h => h
  | some fd =>
      refine Triple.bind (since_emits (emits_setNonblock fd) (fun t u h hu => h.append hu)
        fun t h => h.midway) fun _ => ?_
      exact since_pure fun _ h => h

/-- The client of before is closed to make room for the new one. -/
theorem closeFd_since (c : Option Fd) :
    Triple (Since h₀ (Listening c₀ c inc)) (closeFd c)
      (fun _ => Since h₀ (Listening c₀ none inc)) (Waits h₀ (Midway c₀ ev)) := by
  cases c with
  | none => exact since_pure (Q := fun _ => Listening c₀ none inc) fun _ h => h
  | some fd => exact since_emit fun t h => h.close

/-- A message goes to its descriptor only. -/
theorem Sending.onlyTo {msg : List UInt8} {sent : Nat} (hs : Sending g msg u sent) :
    ∀ e ∈ u, OnlyTo g e := by
  intro e he
  rcases hs.calls e he with rfl | ⟨i, n, rfl⟩
  · exact (silent_of_quiet (.poll _ _) rfl).onlyTo g
  · exact onlyTo_send g _ _

/-- The headers on their way, in whole or in part. -/
theorem answering_of_sentTo {msg : List UInt8} {C : Nat → Prop}
    (h : SentTo (Listening c₀ c (some g)) g msg C t) : Answering c₀ c g t := by
  obtain ⟨t₁, u, sent, rfl, hF, hs, -⟩ := h
  exact hF.answering.append hs.onlyTo

/-- The connection is closed, and the client is what it was. -/
theorem close_ready (r : Option Bool) :
    Triple (Since h₀ (Answering c₀ c g))
      (do
        close g
        pure (c, r) : Sys (Option Fd × Option Bool))
      (fun r => Since h₀ (Ready c₀ ev r.1)) (Waits h₀ (Midway c₀ ev)) := by
  refine Triple.bind (since_emit (G := Answering c₀ c g) fun t h => h.append ?_) fun _ => ?_
  · exact List.forall_mem_singleton.mpr ((silent_of_quiet (.close g) rfl).onlyTo g)
  · exact since_pure (Q := fun r : Option Fd × Option Bool => Ready c₀ ev r.1) fun t h => h.ready

/-- A response to a connection that does not become the client. -/
theorem answer_ready {α : Type} {p : Sys α} (hp : Emits (OnlyTo g) p) (r : Option Bool) :
    Triple (Since h₀ (Listening c₀ c (some g)))
      (do
        let _ ← p
        close g
        pure (c, r) : Sys (Option Fd × Option Bool))
      (fun r => Since h₀ (Ready c₀ ev r.1)) (Waits h₀ (Midway c₀ ev)) :=
  Triple.bind (since_emits hp (fun _ _ h hu => h.answering.append hu) fun _ h => h.midway)
    fun _ => close_ready r

/-- **The routes of the pump.** Only `/events` makes the connection the client. -/
theorem pumpDispatch_since (incoming : Fd) (req : List UInt8) (c : Option Fd)
    (webRoot : Option (List UInt8)) (reset : Option Bool) :
    Triple (Since h₀ (Listening c₀ c (some incoming)))
      (pumpDispatch incoming req c webRoot reset) (fun r => Since h₀ (Ready c₀ ev r.1))
      (Waits h₀ (Midway c₀ ev)) := by
  unfold pumpDispatch
  split
  split
  · exact answer_ready (emits_sendDashboard incoming webRoot) reset
  · split
    · -- `/events`: the old client is closed before the new one is sent its header block
      refine Triple.bind (closeFd_since c) fun _ => ?_
      refine Triple.bind ((sendText_since sseHeaders).mono (fun _ _ h => h) (fun _ _ _ h => h)
        ?_) fun ok => ?_
      · rintro h ⟨t, ht, hs⟩
        exact ⟨t, ht, (answering_of_sentTo hs).midway⟩
      · cases ok with
        | true =>
            -- the whole header block is out, so the connection is held
            refine Triple.bind (since_emit (G := Ready c₀ ev (some incoming)) fun t h => ?_)
              fun _ => since_pure (Q := fun r : Option Fd × Option Bool => Ready c₀ ev r.1)
                fun t h => h
            obtain ⟨t₁, u, sent, rfl, hF, hs, hall⟩ := h
            exact hF.hold hs (hall.mp rfl)
        | false =>
            -- a part of it is: the connection is closed, and nobody is the client
            refine (close_ready reset).mono ?_ (fun _ _ _ h => h) fun _ h => h
            exact fun _ _ h => h.mono fun t hs => answering_of_sentTo hs
    · split
      · exact answer_ready (emits_sendResetOk incoming) _
      · exact answer_ready (emits_sendNotFound incoming) reset

/-- The second `if` of the pump: a connection is accepted, read from and answered. -/
theorem pumpAccept_since (fds : Reply) (listen : Fd) (c : Option Fd)
    (webRoot : Option (List UInt8)) (reset : Option Bool) :
    Triple (Since h₀ (Listening c₀ c none)) (pumpAccept fds listen c webRoot reset)
      (fun r => Since h₀ (Ready c₀ ev r.1)) (Waits h₀ (Midway c₀ ev)) := by
  have hnobody : Triple (Since h₀ (Listening c₀ c none)) (pure (c, reset) : Sys _)
      (fun r => Since h₀ (Ready c₀ ev r.1)) (Waits h₀ (Midway c₀ ev)) :=
    since_pure (Q := fun r : Option Fd × Option Bool => Ready c₀ ev r.1) fun t h => h.ready
  unfold pumpAccept
  split
  case isFalse => exact hnobody
  refine Triple.bind (acceptClient_since listen) fun got => ?_
  cases got with
  | none => exact hnobody
  | some incoming =>
      have hsilent : ∀ {α : Type} {p : Sys α}, Emits Silent p →
          Triple (Since h₀ (Listening c₀ c (some incoming))) p
            (fun _ => Since h₀ (Listening c₀ c (some incoming))) (Waits h₀ (Midway c₀ ev)) :=
        fun hp => since_emits hp (fun t u h hu => h.append hu) fun t h => h.midway
      refine Triple.bind (hsilent (emits_uninit _)) fun req => ?_
      refine Triple.bind (hsilent (emits_readRequest _ _ _)) fun r => ?_
      split
      split
      · exact pumpDispatch_since incoming _ c webRoot reset
      · -- no request came in
        refine (close_ready reset).mono ?_ (fun _ _ _ h => h) fun _ h => h
        exact fun _ _ h => h.mono fun t hl => hl.answering

/-- The event is sent, or the client is closed after a part of it. -/
theorem pumpEvent_since (c : Option Fd) (json : Option (List UInt8)) (jsonLen : Nat) :
    Triple (Since h₀ (Ready c₀ (eventOf json jsonLen) c)) (pumpEvent c json jsonLen)
      (fun c' => Since h₀ (Finished c₀ (eventOf json jsonLen) c'))
      (Waits h₀ (Midway c₀ (eventOf json jsonLen))) := by
  have hskip : ∀ {ev : List UInt8} t, Ready c₀ ev c t → Finished c₀ ev c t := by
    rintro ev t ⟨inc, hseg, hkept⟩
    exact ⟨inc, c, [], hseg, hkept, .inl ⟨rfl, .inl rfl⟩⟩
  unfold pumpEvent
  split
  · -- there is a client and a text
    rename_i fd payload
    split
    · rename_i hpos
      rw [eventOf, if_pos hpos]
      refine Triple.bind ((sendSseData_since payload jsonLen).mono (fun _ _ h => h)
        (fun _ _ _ h => h) ?_) fun ok => ?_
      · rintro h ⟨t, ht, t₁, u, sent, rfl, ⟨inc, hseg, -⟩, hs, -⟩
        exact ⟨t₁ ++ u, ht, inc, some fd, _, hseg.send hs⟩
      · cases ok with
        | true =>
            -- all of the event is out
            refine since_pure (Q := Finished c₀ _) ?_
            rintro t ⟨t₁, u, sent, rfl, ⟨inc, hseg, hkept⟩, hs, hall⟩
            refine ⟨inc, some fd, _, hseg.send hs, hkept.append u, .inl ⟨rfl, .inr ?_⟩⟩
            exact List.take_of_length_le (hall.mp rfl)
        | false =>
            -- less than all of it is, and the client is closed
            refine Triple.bind (since_emit (G := Finished c₀ _ none) ?_) fun _ =>
              since_pure (Q := Finished c₀ _) fun t h => h
            rintro t ⟨t₁, u, sent, rfl, ⟨inc, hseg, hkept⟩, hs, hall⟩
            have hlt : sent < (sseEvent payload jsonLen).length := by
              by_contra hge
              exact absurd (hall.mpr (Nat.le_of_not_lt hge)) (by simp)
            have hclose : ∀ e ∈ [Event.close fd], Silent e :=
              List.forall_mem_singleton.mpr (silent_of_quiet (.close fd) rfl)
            refine ⟨inc, some fd, _, (hseg.send hs).append hclose, (hkept.append u).append _,
              .inr ⟨rfl, ?_, fd, rfl, List.mem_append_right _ (List.mem_singleton.mpr rfl)⟩⟩
            intro heq
            have hlen := congrArg List.length heq
            rw [List.length_take] at hlen
            omega
    · exact since_pure (Q := Finished c₀ _) hskip
  · exact since_pure (Q := Finished c₀ _) hskip

/-- **One call of the pump.** -/
theorem httpSsePump_since (h₀ : List Event) (srv : HttpSseServer) (c₀ : Option Fd)
    (webRoot json : Option (List UInt8)) (jsonLen : Nat) (timeoutMs : Int)
    (reset : Option Bool) :
    Triple (fun h _ => h = h₀) (httpSsePump srv c₀ webRoot json jsonLen timeoutMs reset)
      (fun r => Since h₀ (Finished c₀ (eventOf json jsonLen) r.clientFd))
      (Waits h₀ (Midway c₀ (eventOf json jsonLen))) := by
  have hstart : ∀ h w, h = h₀ → Since h₀ (Listening c₀ c₀ none) h w := by
    rintro h w rfl
    exact ⟨[], (List.append_nil _).symm, Listening.start c₀⟩
  have hdone : ∀ {ev : List UInt8} {c inc : Option Fd} t, Listening c₀ c inc t →
      Finished c₀ ev c t := by
    intro ev c inc t hl
    exact ⟨inc, c, [], hl.segment ev, hl.kept, .inl ⟨rfl, .inl rfl⟩⟩
  refine Triple.mono (P := Since h₀ (Listening c₀ c₀ none)) ?_ hstart (fun _ _ _ h => h)
    fun _ h => h
  unfold httpSsePump
  split
  · -- no listening descriptor
    exact since_pure (Q := fun r : Pumped => Finished c₀ _ r.clientFd) hdone
  · refine Triple.bind (since_emits (emits_callOn (silent_of_quiet (.poll _ _) rfl))
      (fun _ _ h hu => h.append hu)
      fun _ h => h.midway) fun fds => ?_
    split
    · -- `poll` failed
      exact since_pure (Q := fun r : Pumped => Finished c₀ _ r.clientFd) hdone
    · refine Triple.bind (pumpDrop_since fds c₀) fun c => ?_
      refine Triple.bind (pumpAccept_since fds _ c webRoot reset) fun r => ?_
      split
      refine Triple.bind (pumpEvent_since _ json jsonLen) fun c' => ?_
      exact since_pure (Q := fun r : Pumped => Finished c₀ _ r.clientFd) fun _ h => h

end

end RateHub.Http
