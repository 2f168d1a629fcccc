import MulticastTunnel.Proofs.Tunnel.Course

/-!
# The clock of a tunnel

Whatever happens to a tunnel happens at one moment: only what goes on around it takes time.
-/

namespace MulticastTunnel

namespace Tunnel

variable (t : Tunnel) (w : World)

theorem now_sendRequest (message : Message) : (sendRequest message t w).2.now = w.now := by
  simp only [sendRequest]
  split <;> rfl

theorem now_beginRequest : (t.beginRequest w).2.now = w.now := by
  simp only [beginRequest]
  split
  · rfl
  · exact now_sendRequest _ _ _

theorem now_keepAlive : (t.keepAlive w).2.now = w.now := by
  unfold keepAlive
  split <;> rfl

theorem now_refuse : (t.refuse w).2.now = w.now := by
  simp only [refuse]
  split <;> rfl

theorem now_send (packet : Packet) : (t.send packet w).2.2.now = w.now := by
  unfold send
  split
  · rfl
  split
  · rfl
  split
  · rfl
  split
  · exact now_refuse t w
  next message _ =>
  split
  · next e v hsend =>
    have hv := (World.trace_of_send hsend).2
    split
    · exact hv
    · exact hv
  · next v hsend =>
    have hv := (World.trace_of_send hsend).2
    split
    · exact (now_keepAlive _ v).trans hv
    · exact hv

theorem now_onAdvertisement (nonce : Nonce) (relay : Address) :
    (t.onAdvertisement nonce relay w).2.now = w.now := by
  simp only [onAdvertisement]
  split
  · rfl
  split
  · next e v hconnect => exact (World.trace_of_connect hconnect).2
  · next v hconnect =>
    exact (now_beginRequest _ v).trans (World.trace_of_connect hconnect).2

theorem now_tearDown (stale : Option Grant) : (t.tearDown stale w).2.now = w.now := by
  unfold tearDown
  split
  · rfl
  split
  · next e v hsend => exact (World.trace_of_send hsend).2
  · next v hsend => exact (World.trace_of_send hsend).2

theorem now_onQuery (grant : Grant) (packet : Packet) :
    (t.onQuery grant packet w).2.2.now = w.now := by
  simp only [onQuery]
  split
  · rfl
  split
  · rfl
  split
  · rfl
  · exact now_tearDown _ w _

theorem now_handle (b : Bytes) : (t.handle b w).2.2.now = w.now := by
  unfold handle
  split
  · rfl
  · exact now_onAdvertisement t w _ _
  · exact now_onQuery t w _ _
  · rfl
  · rfl

theorem now_receive (received : Except SocketError Bytes) :
    (t.receive received w).2.2.now = w.now := by
  unfold receive
  split
  · exact now_handle t w _
  split
  · rfl
  split
  · simp only [onUnreachable]
    split <;> rfl
  · rfl

theorem now_start : (t.start w).2.2.now = w.now := by
  simp only [start]
  split
  · rfl
  split
  · rfl
  split <;> rfl

theorem now_fire (alarm : Alarm) : (t.fire alarm w).2.now = w.now := by
  cases alarm with
  | discovery =>
    simp only [fire, onDiscoveryTimer]
    split
    · rfl
    split <;> rfl
  | request =>
    simp only [fire, onRequestTimer]
    split
    · rfl
    split
    · rfl
    · rfl
    · exact now_sendRequest _ w _
  | keepalive =>
    simp only [fire, onKeepaliveTimer]
    split
    · rfl
    · exact now_beginRequest _ w

/-- Nothing that happens to a tunnel takes time. -/
theorem now_step (input : Input) : (t.step input w).2.now = w.now := by
  cases input with
  | start => exact now_start t w
  | send packet => exact now_send t w packet
  | receive received => exact now_receive t w received
  | fire alarm => exact now_fire t w alarm
  | close => rfl

end Tunnel

end MulticastTunnel
