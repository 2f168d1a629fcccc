import MulticastTunnel.Tunnel

/-!
# Runs of a tunnel

Everything that can happen to a tunnel, in any order: its owner starts it,
closes it and sends reports, its relay answers, a pending timer runs out. In
between the world moves on: the clock, the other interfaces and the answers
that the transport will give. Only this tunnel sends under its own key.
-/

namespace MulticastTunnel

namespace Event

/-- The message that this event handed to the transport of `key`, whether or
not the transport took it. -/
def sentBy? (key : InterfaceKey) : Event → Option Message
  | .sent k message _ => if k = key then some message else none
  | _ => none

end Event

namespace Message

/-- The nonce of a Relay Discovery. -/
def discoveryNonce? : Message → Option Nonce
  | .relayDiscovery nonce => some nonce
  | _ => none

/-- The nonce of a Request. -/
def requestNonce? : Message → Option Nonce
  | .request nonce _ => some nonce
  | _ => none

end Message

namespace World

/-- What `read` finds in the latest message of `key` in which it finds something. -/
def lastSent (read : Message → Option Nonce) (key : InterfaceKey) (w : World) : Option Nonce :=
  w.trace.findSome? fun e => (e.sentBy? key).bind read

/-- The nonce of the latest Relay Discovery sent for `key`. -/
abbrev lastDiscovery := lastSent Message.discoveryNonce?

/-- The nonce of the latest Request sent for `key`. -/
abbrev lastRequest := lastSent Message.requestNonce?

/-- The world `v` is a later state of `w` in which nothing more was sent for `key`. -/
def Elapsed (key : InterfaceKey) (w v : World) : Prop :=
  ∃ others : List Event, v.trace = others ++ w.trace ∧ ∀ e ∈ others, e.sentBy? key = none

variable {read : Message → Option Nonce} {key : InterfaceKey} {w v : World}

theorem Elapsed.lastSent_eq (h : Elapsed key w v) : v.lastSent read key = w.lastSent read key := by
  obtain ⟨others, ht, ho⟩ := h
  have hn : others.findSome? (fun e => (e.sentBy? key).bind read) = none := by
    rw [List.findSome?_eq_none_iff]
    intro e he
    simp [ho e he]
  rw [lastSent, lastSent, ht, List.findSome?_append, hn, Option.none_or]

theorem Elapsed.refl (key : InterfaceKey) (w : World) : Elapsed key w w := ⟨[], rfl, by simp⟩

theorem Elapsed.trans {u : World} (h : Elapsed key w v) (h' : Elapsed key v u) :
    Elapsed key w u := by
  obtain ⟨before, hb, hbn⟩ := h
  obtain ⟨after, ha, han⟩ := h'
  refine ⟨after ++ before, by rw [ha, hb, List.append_assoc], fun e he => ?_⟩
  rcases List.mem_append.mp he with he | he
  · exact han e he
  · exact hbn e he

theorem elapsed_timer (key : InterfaceKey) (w : World) (delay : Nat) :
    Elapsed key w (w.timer delay).2 := ⟨[], rfl, by simp⟩

/-- Sending a message that holds what is read makes it the latest one. -/
theorem lastSent_send_of_some {m : Message} {n : Nonce} (hm : read m = some n) (key : InterfaceKey)
    (w : World) : (w.send key m).2.lastSent read key = some n := by
  simp [lastSent, send, record, Event.sentBy?, hm]

/-- Sending any other message leaves the latest one. -/
theorem lastSent_send_of_none {m : Message} (hm : read m = none) (key : InterfaceKey)
    (w : World) : (w.send key m).2.lastSent read key = w.lastSent read key := by
  simp [lastSent, send, record, Event.sentBy?, hm]

end World

namespace Tunnel

/-- What can happen to a tunnel. -/
inductive Input
  | start
  | send (packet : Packet)
  /-- Receiving gave a datagram, or an error. -/
  | receive (received : Except SocketError Bytes)
  /-- A timer ran out. -/
  | fire (alarm : Alarm)
  | close

/-- Only a timer that is pending runs out. -/
def Input.Possible (t : Tunnel) : Input → Prop
  | .fire alarm => ∃ timer, (timer, alarm) ∈ t.alarms
  | _ => True

def step (input : Input) (t : Tunnel) (w : World) : Tunnel × World :=
  match input with
  | .start => (t.start w).2
  | .send packet => (t.send packet w).2
  | .receive received => (t.receive received w).2
  | .fire alarm => t.fire alarm w
  | .close => (t.close, w)

/-- The states that a tunnel comes to from its creation on. -/
inductive Reachable (key : InterfaceKey) (settings : TunnelSettings) : Tunnel → World → Prop
  | created (w : World) : Reachable key settings { key, settings } w
  | step {t : Tunnel} {w : World} (input : Input) : Reachable key settings t w →
      input.Possible t → Reachable key settings (t.step input w).1 (t.step input w).2
  | elapse {t : Tunnel} {w v : World} : Reachable key settings t w → w.Elapsed key v →
      Reachable key settings t v

end Tunnel

end MulticastTunnel
