import RateHub.Http.Sse
import RateHub.Http.TextProof

/-!
# What is sent, and from where

`send_all` sends a message from some memory: its polls and sends are the only calls, each
`send` is handed what is left of the message, and the bytes taken so far are a prefix of
it. Whether the message is the text that was formatted is up to the caller, who passes the
number that `snprintf` returned. That is the number of characters of the whole text, and
the text is in the buffer only when it is shorter than the buffer.
-/

namespace RateHub.Http

open Interaction

/-! ## The bytes taken by the kernel -/

/-- The bytes of one call that go out on `fd`. -/
def Event.out (fd : Fd) : Event → List UInt8
  | .send g data n => if g = fd then data.take n else []
  | _ => []

/-- The bytes that went out on `fd`, in order. -/
def delivered (fd : Fd) (h : List Event) : List UInt8 := h.flatMap (Event.out fd)

@[simp] theorem delivered_nil (fd : Fd) : delivered fd [] = [] := rfl

@[simp] theorem delivered_append (fd : Fd) (h t : List Event) :
    delivered fd (h ++ t) = delivered fd h ++ delivered fd t := List.flatMap_append

@[simp] theorem delivered_singleton (fd : Fd) (e : Event) : delivered fd [e] = e.out fd := by
  simp [delivered]

/-- The calls `t` send the message `msg` on `fd`; `sent` bytes of it are out. -/
structure Sending (fd : Fd) (msg : List UInt8) (t : List Event) (sent : Nat) : Prop where
  calls : ∀ e ∈ t, e = .poll [fd] 500 ∨ ∃ i n, e = .send fd (msg.drop i) n
  out : delivered fd t = msg.take sent
  sent_le : sent ≤ msg.length

namespace Sending

variable {fd : Fd} {msg : List UInt8} {t : List Event} {sent : Nat}

theorem nil (fd : Fd) (msg : List UInt8) : Sending fd msg [] 0 :=
  ⟨by simp, by simp, Nat.zero_le _⟩

theorem poll (h : Sending fd msg t sent) : Sending fd msg (t ++ [.poll [fd] 500]) sent where
  calls := by
    intro e he
    rcases List.mem_append.mp he with hold | hnew
    · exact h.calls e hold
    · exact .inl (List.mem_singleton.mp hnew)
  out := by simp [h.out, Event.out]
  sent_le := h.sent_le

theorem send (h : Sending fd msg t sent) {n : Nat} (hn : n ≤ (msg.drop sent).length) :
    Sending fd msg (t ++ [.send fd (msg.drop sent) n]) (sent + n) where
  calls := by
    intro e he
    rcases List.mem_append.mp he with hold | hnew
    · exact h.calls e hold
    · exact .inr ⟨sent, n, List.mem_singleton.mp hnew⟩
  out := by
    rw [delivered_append, delivered_singleton, h.out]
    simp only [Event.out, if_true]
    exact List.take_add.symm
  sent_le := by
    rw [List.length_drop] at hn
    have := h.sent_le
    omega

/-- Nothing goes out elsewhere. -/
theorem out_other (h : Sending fd msg t sent) {g : Fd} (hg : g ≠ fd) : delivered g t = [] := by
  rw [delivered, List.flatMap_eq_nil_iff]
  intro e he
  rcases h.calls e he with rfl | ⟨i, n, rfl⟩
  · rfl
  · simp [Event.out, Ne.symm hg]

end Sending

/-- Since `h₀` nothing was done but send the message, and `sent` bytes of it are out. -/
def Underway (fd : Fd) (msg : List UInt8) (h₀ : List Event) (w₀ : World) (sent : Nat)
    (h : List Event) (w : World) : Prop :=
  w = w₀ ∧ ∃ t, h = h₀ ++ t ∧ Sending fd msg t sent

/-- The same, without the count. -/
def Partly (fd : Fd) (msg : List UInt8) (h₀ : List Event) (h : List Event) : Prop :=
  ∃ t sent, h = h₀ ++ t ∧ Sending fd msg t sent

section

variable {fd : Fd} {msg : List UInt8} {h₀ : List Event} {w₀ : World} {sent : Nat}

theorem Underway.partly {h : List Event} {w : World} (hu : Underway fd msg h₀ w₀ sent h w) :
    Partly fd msg h₀ h := by
  obtain ⟨-, t, ht, hs⟩ := hu
  exact ⟨t, sent, ht, hs⟩

theorem poll_underway :
    Triple (Underway fd msg h₀ w₀ sent) (poll [fd] 500) (fun _ => Underway fd msg h₀ w₀ sent)
      (Partly fd msg h₀) := by
  refine Triple.bind (Triple.ask fun _ _ h => h.partly) fun r => Triple.bind (Triple.emit ?_)
    fun _ => .pure fun _ _ h => h
  rintro h w ⟨hw, t, rfl, hs⟩
  exact ⟨hw, t ++ [.poll [fd] 500], List.append_assoc _ _ _, hs.poll⟩

/-- A `send` of the rest of the message gets some of it out. -/
theorem send_underway :
    Triple (Underway fd msg h₀ w₀ sent) (send fd (msg.drop sent))
      (fun r => Underway fd msg h₀ w₀ (sent + r.toOption.getD 0)) (Partly fd msg h₀) := by
  refine Triple.bind (Triple.ask fun _ _ h => h.partly) fun r => ?_
  have hemit : ∀ n, n ≤ (msg.drop sent).length →
      Triple (Underway fd msg h₀ w₀ sent) (Proc.emit (.send fd (msg.drop sent) n) : Sys Unit)
        (fun _ => Underway fd msg h₀ w₀ (sent + n)) (Partly fd msg h₀) := by
    intro n hn
    refine .emit ?_
    rintro h w ⟨hw, t, rfl, hs⟩
    exact ⟨hw, t ++ [_], List.append_assoc _ _ _, hs.send hn⟩
  split
  · exact Triple.bind (hemit 0 (Nat.zero_le _)) fun _ => .pure fun _ _ h => h
  · rename_i n hn
    refine Triple.bind (hemit n ?_) fun _ => .pure fun _ _ h => h
    rw [Reply.count] at hn
    split at hn
    · exact absurd hn (by simp)
    · obtain rfl := Except.ok.inj hn
      exact Nat.min_le_right _ _

/-- **`send_all`.** It works on the first `len` bytes of the memory it is given, and returns
true exactly when that many are out. -/
theorem sendAll_spec (fd : Fd) (data : List UInt8) (len : Nat) (h₀ : List Event) (w₀ : World) :
    Triple (fun h w => h = h₀ ∧ w = w₀) (sendAll fd data len)
      (fun ok h w => ∃ sent, Underway fd (data.take len) h₀ w₀ sent h w
        ∧ (ok = true ↔ len ≤ sent))
      (Partly fd (data.take len) h₀) := by
  refine Triple.mono (P := Underway fd (data.take len) h₀ w₀ 0)
    (Triple.loop (I := Underway fd (data.take len) h₀ w₀) (fun sent => ?_)
      (fun _ _ _ h => h.partly) 0) ?_ (fun _ _ _ h => h) fun _ h => h
  · unfold sendRound
    split
    · rename_i hle
      exact .pure fun _ _ h => ⟨sent, h, by simp [hle]⟩
    · rename_i hlt
      have hrest : (data.drop sent).take (len - sent) = (data.take len).drop sent :=
        List.drop_take.symm
      refine Triple.bind poll_underway fun pfd => ?_
      split
      · exact .pure fun _ _ h => ⟨sent, h, by simp [hlt]⟩
      · rw [hrest]
        refine Triple.bind send_underway fun r => ?_
        split
        · split
          · exact .pure fun _ _ h => h
          · exact .pure fun _ _ h => ⟨sent, h, by simp [hlt]⟩
        · split
          · rename_i n hn
            subst hn
            exact .pure fun _ _ h => ⟨sent, h, by simp [hlt]⟩
          · exact .pure fun _ _ h => h
  · rintro h w ⟨rfl, rfl⟩
    exact ⟨rfl, [], by simp, Sending.nil _ _⟩

end

/-! ## The formatted texts -/

/-- How many characters `snprintf(_, cap, ..)` stores, without the NUL. -/
def stored (cap : Nat) (s : List UInt8) : Nat := min s.length (cap - 1)

/-- Every `send` on the way is handed the end of the text, from some byte on. -/
def HandsOver (s : List UInt8) (h : List Event) : Prop :=
  ∀ fd data n, Event.send fd data n ∈ h → data <:+ s

theorem Partly.handsOver {fd : Fd} {msg : List UInt8} {h : List Event} (hp : Partly fd msg [] h) :
    HandsOver msg h := by
  obtain ⟨t, sent, rfl, hs⟩ := hp
  intro g data n hmem
  rcases hs.calls _ hmem with hpoll | ⟨i, m, hsend⟩
  · exact absurd hpoll (by simp)
  · injection hsend with _ hdata _
    rw [hdata]
    exact List.drop_suffix i msg

theorem Partly.out {fd : Fd} {msg : List UInt8} {h : List Event} (hp : Partly fd msg [] h) :
    delivered fd h <+: msg := by
  obtain ⟨t, sent, rfl, hs⟩ := hp
  rw [hs.out]
  exact List.take_prefix sent msg

/-- What a call does with a text: every `send` is handed the end of it from some byte on, and
what gets out is a beginning of it, all of it exactly when the call returns true. -/
structure Sends (fd : Fd) (s : List UInt8) (r : Outcome Event Reply World Bool) : Prop where
  handsOver : HandsOver s r.trace
  out : delivered fd r.trace <+: s
  complete : ∀ ok w rs, r.result = some (ok, w, rs) → (ok = true ↔ delivered fd r.trace = s)

/-- A run of `send_all` on its own. -/
theorem sendAll_sends (fd : Fd) {data : List UInt8} {len : Nat} (hlen : len ≤ data.length)
    (w : World) (rs : List Reply) : Sends fd (data.take len) (sendAll fd data len w rs) := by
  have hmeets := sendAll_spec fd data len [] w [] w rs ⟨rfl, rfl⟩
  have hpartly : Partly fd (data.take len) [] (sendAll fd data len w rs).trace := by
    rw [← List.nil_append (sendAll fd data len w rs).trace]
    cases hres : (sendAll fd data len w rs).result with
    | none => exact hmeets.waits hres
    | some x =>
        obtain ⟨ok, w', rs'⟩ := x
        obtain ⟨sent, hu, -⟩ := hmeets.ends ok w' rs' hres
        exact hu.partly
  refine ⟨hpartly.handsOver, hpartly.out, ?_⟩
  intro ok w' rs' hres
  obtain ⟨sent, ⟨-, t, ht, hs⟩, hok⟩ := hmeets.ends ok w' rs' hres
  rw [List.nil_append, List.nil_append] at ht
  have hall : (data.take len).length = len := List.length_take_of_le hlen
  rw [hok, ht, hs.out]
  constructor
  · intro hle
    exact List.take_of_length_le (by omega)
  · intro hwhole
    have hsent := congrArg List.length hwhole
    rw [List.length_take, hall] at hsent
    omega

/-- A text formatted into an array of `cap` bytes and sent: the length that `send_all` is called
with is at most the number of characters stored, and the text is what it sends. -/
structure TextExact (cap past : Nat) (s : List UInt8) (send : Fd → Sys Bool) : Prop where
  /-- The call of `send_all`, with its length. -/
  passes : ∀ fd, send fd = uninit (cap + past) >>= fun stack =>
    sendAll fd (snprintf stack cap s).1 (snprintf stack cap s).2.toNat
  length : ∀ stack, (snprintf stack cap s).2 ≤ stored cap s
  sends : ∀ fd w rs, Sends fd s (send fd w rs)

/-- `send_dashboard` with a file of this size sends its header exactly. -/
def HeaderExact (size : Int64) : Prop :=
  TextExact 128 64 (dashboardHeader size) fun fd => sendHeader fd size

/-- `send_sse_data` sends its event exactly; from 8000 bytes on it formats and sends nothing. -/
structure EventExact (payload : List UInt8) (len : Nat) : Prop where
  sends : len < 8000 → TextExact 8192 0 (sseEvent payload len) fun fd => sendSseData fd payload len
  refuses : 8000 ≤ len → ∀ fd, sendSseData fd payload len = pure false

/-- Where the text is not empty and its length fits `int`, `hlen <= 0` is never the case. -/
theorem sendFormatted_passes {s : List UInt8} (hpos : 0 < s.length) (hint : s.length < 2 ^ 31)
    (fd : Fd) (cap past : Nat) :
    sendFormatted fd cap past s = uninit (cap + past) >>= fun stack =>
      sendAll fd (snprintf stack cap s).1 (snprintf stack cap s).2.toNat := by
  unfold sendFormatted
  congr 1
  funext stack
  have hlen : (snprintf stack cap s).2 = s.length := if_pos hint
  have hsome : ¬ (snprintf stack cap s).2 ≤ 0 := by
    rw [hlen]
    omega
  exact if_neg hsome

/-- A text that fits is sent exactly. -/
theorem sendFormatted_exact {s : List UInt8} {cap : Nat} (hpos : 0 < s.length)
    (hlt : s.length < cap) (hint : s.length < 2 ^ 31) (past : Nat) :
    TextExact cap past s fun fd => sendFormatted fd cap past s := by
  refine ⟨fun fd => sendFormatted_passes hpos hint fd cap past, fun stack => ?_, ?_⟩
  · rw [(snprintf_fits hlt hint).1, stored]
    omega
  intro fd w rs
  cases rs with
  | nil =>
      -- nothing has come back yet, so nothing was sent
      refine ⟨?_, List.nil_prefix, ?_⟩
      · intro g data k hmem
        exact absurd hmem List.not_mem_nil
      · intro ok w' rs' hres
        cases hres
  | cons r rest =>
      let stack := (r.junk ++ List.replicate (cap + past) 0).take (cap + past)
      obtain ⟨hlen, htake, hroom⟩ := @snprintf_fits stack s cap hlt hint
      have hall := sendAll_sends fd (Nat.le_of_lt hroom) w rest
      rw [htake] at hall
      rw [sendFormatted_passes hpos hint]
      show Sends fd s (sendAll fd (snprintf stack cap s).1 (snprintf stack cap s).2.toNat w rest)
      rw [hlen]
      exact hall

/-! ### The dashboard's header -/

/-- A size that is not negative, as the number that `%lld` prints. -/
theorem exists_size {size : Int64} (hsize : 0 ≤ size) :
    ∃ n : Nat, size.toInt = n ∧ n < 2 ^ 63 ∧ (size < 1000000 ↔ n < 10 ^ 6) := by
  have hpos : 0 ≤ size.toInt := Int64.le_iff_toInt_le.mp hsize
  have hlt := size.toInt_lt
  obtain ⟨n, hn⟩ := Int.eq_ofNat_of_zero_le hpos
  have hmillion : (1000000 : Int64).toInt = 1000000 := by decide
  refine ⟨n, hn, by omega, ?_⟩
  rw [Int64.lt_iff_toInt_lt, hn, hmillion]
  omega

/-- 121 characters and the digits. -/
theorem length_dashboardHeader {size : Int64} {n : Nat} (hsize : size.toInt = n) :
    (dashboardHeader size).length = 121 + (Nat.toDigits 10 n).length := by
  have hsigned : signed size.toInt = decimal n := by
    rw [hsize]
    rfl
  have hfront : (text
      "HTTP/1.1 200 OK\r\nContent-Type: text/html; charset=utf-8\r\nContent-Length: ").length = 73 := by
    decide
  have hback : (text "\r\nCache-Control: no-cache\r\nConnection: close\r\n\r\n").length = 48 := by
    decide
  simp only [dashboardHeader, printed, List.flatMap_cons, List.flatMap_nil, List.append_nil,
    List.length_append, hsigned, hfront, hback, decimal, List.length_map]
  omega

/-- The header fits its buffer exactly for sizes of up to six digits. -/
theorem length_dashboardHeader_lt {size : Int64} (hsize : 0 ≤ size) :
    (dashboardHeader size).length < 128 ↔ size < 1000000 := by
  obtain ⟨n, hn, -, hiff⟩ := exists_size hsize
  rw [length_dashboardHeader hn, hiff, ← Nat.length_toDigits_le_iff (by decide) (by decide)]
  omega

/-- It is never longer than the memory kept behind it. -/
theorem length_dashboardHeader_le {size : Int64} (hsize : 0 ≤ size) :
    (dashboardHeader size).length ≤ 140 := by
  obtain ⟨n, hn, hlt, -⟩ := exists_size hsize
  have hdigits : (Nat.toDigits 10 n).length ≤ 19 := by
    rw [Nat.length_toDigits_le_iff (by decide) (by decide)]
    exact Nat.lt_trans hlt (by decide)
  rw [length_dashboardHeader hn]
  omega

theorem headerExact_iff {size : Int64} (hsize : 0 ≤ size) :
    HeaderExact size ↔ size < 1000000 := by
  obtain ⟨n, hn, -⟩ := exists_size hsize
  have hlen := length_dashboardHeader hn
  have hle := length_dashboardHeader_le hsize
  have hint : (dashboardHeader size).length < 2 ^ 31 := Nat.lt_of_le_of_lt hle (by decide)
  rw [← length_dashboardHeader_lt hsize]
  constructor
  · intro hexact
    have hstored := hexact.length []
    rw [show (snprintf [] 128 (dashboardHeader size)).2 = (dashboardHeader size).length from
      if_pos hint, stored] at hstored
    omega
  · intro hlt
    exact sendFormatted_exact (by omega) hlt hint 64

/-! ### The events -/

theorem length_precise_le (len : Nat) (mem : List UInt8) : (precise len mem).length ≤ len :=
  Nat.le_trans (List.takeWhile_sublist _).length_le (List.length_take_le _ _)

/-- An event is eight characters longer than what it prints. -/
theorem length_sseEvent (payload : List UInt8) (len : Nat) :
    (sseEvent payload len).length = (precise len payload).length + 8 := by
  have hfront : (text "data: ").length = 6 := by decide
  have hback : (text "\n\n").length = 2 := by decide
  rw [sseEvent, List.length_append, List.length_append, hfront, hback]
  omega

theorem eventExact (payload : List UInt8) (len : Nat) : EventExact payload len := by
  have hlen := length_sseEvent payload len
  have hle := length_precise_le len payload
  refine ⟨fun hsmall => ?_, fun hlarge fd => ?_⟩
  · have heq : (fun fd => sendSseData fd payload len)
        = fun fd => sendFormatted fd 8192 0 (sseEvent payload len) := by
      funext fd
      rw [sendSseData, if_neg (by omega)]
    rw [heq]
    exact sendFormatted_exact (by omega) (by omega) (by omega) 0
  · rw [sendSseData, if_pos hlarge]

/--
**When the bytes sent are the bytes formatted.**

For a dashboard of any size that is not negative, `send_dashboard` passes a length that its
header buffer really holds, and sends the header it formatted, all of it when `send_all`
succeeds and otherwise a beginning, exactly when the size is below one million. `send_sse_data`
always does, for every payload and length, short of the lengths it refuses.
-/
theorem responses_exact (size : Int64) (hsize : 0 ≤ size) (payload : List UInt8) (len : Nat) :
    (HeaderExact size ↔ size < 1000000) ∧ EventExact payload len :=
  ⟨headerExact_iff hsize, eventExact payload len⟩

/-- The dashboard of the repository has 12552 bytes. -/
theorem responses_exact_small : HeaderExact 12552 :=
  (responses_exact 12552 (by decide) [] 0).1.mpr (by decide)

/-- **A header that does not fit.** For a dashboard of one million bytes the header has 128
characters; `send` is handed the 127 that were stored, and the NUL behind them. -/
theorem header_sent_with_nul :
    ¬ ((∀ size : Int64, 0 ≤ size → HeaderExact size) ∧ ∀ payload len, EventExact payload len) := by
  rintro ⟨hall, -⟩
  have hsends := (hall 1000000 (by decide)).sends 0 ⟨fun _ => [], 1⟩ (List.replicate 3 willing)
    |>.handsOver 0 ((dashboardHeader 1000000).take 127 ++ [0]) 128
  exact absurd (hsends (by decide +kernel)) (by decide +kernel)

end RateHub.Http
