import MulticastTunnel.Message.Codec
import MulticastTunnel.Proofs.Checked.Packets

/-!
# Messages are decoded safely

Each kind of message has a least length, and the fields at fixed places lie within it. What stands
behind an encapsulated packet begins at the length that was found when the packet was parsed.
-/

namespace MulticastTunnel.Checked

open Message

variable {ε : Type} {b : Bytes} {n : Nat}

/-- Octets that are long enough. -/
def require (b : Bytes) (n : Nat) : Checked MessageError Bytes :=
  if b.length < n then .refused (.truncated b.length) else pure b

def takeMac (b : Bytes) : Checked ε (Mac × Bytes) := do
  let (octets, b) ← takeInto 6 b
  pure (readMac octets, b)

def exactAddress (b : Bytes) : Checked MessageError Address :=
  if b.length = 4 then addressV4 b 0
  else if b.length = 16 then do
    let octets ← copied 16 b
    pure (.read .ipv6 octets)
  else .refused (.invalidAddressLength b.length)

def encapsulated (b : Bytes) : Checked MessageError Packet := mapError .encapsulated (parse b)

/-- The gateway's address in what stands behind a query. -/
def gateway (flags : UInt8) (total : Nat) (rest : Bytes) :
    Checked MessageError (Option SocketAddress) :=
  if flags.toNat % 2 = 0 then pure none
  else if rest.length < 2 then .refused (.truncated total)
  else do
    let port ← word16 rest 0
    let octets ← behind rest 2
    let address ← exactAddress octets
    pure (some ⟨address, .ofNat port, 0, 0⟩)

/-- The message of a kind in octets that are long enough for it. -/
def messageOf (kind : Kind) (bytes : Bytes) : Checked MessageError Message :=
  match kind with
  | .relayDiscovery => do
    let b ← advance 4 bytes
    let (nonce, _) ← take32 b
    pure (.relayDiscovery (.ofNat nonce))
  | .relayAdvertisement => do
    let b ← advance 4 bytes
    let (nonce, b) ← take32 b
    let relay ← exactAddress b
    pure (.relayAdvertisement (.ofNat nonce) relay)
  | .request => do
    let b ← advance 1 bytes
    let (flags, b) ← take8 b
    let b ← advance 2 b
    let (nonce, _) ← take32 b
    pure (.request (.ofNat nonce) (if flags.toNat % 2 = 0 then .ipv4 else .ipv6))
  | .membershipQuery => do
    let b ← advance 1 bytes
    let (flags, b) ← take8 b
    let (mac, b) ← takeMac b
    let (nonce, b) ← take32 b
    let query ← encapsulated b
    let rest ← behind b query.length
    let gateway ← gateway flags bytes.length rest
    pure (.membershipQuery (flags.toNat / 2 % 2 = 1) mac (.ofNat nonce) query gateway)
  | .membershipUpdate => do
    let b ← advance 2 bytes
    let (mac, b) ← takeMac b
    let (nonce, b) ← take32 b
    let report ← encapsulated b
    pure (.membershipUpdate mac (.ofNat nonce) report)
  | .multicastData => do
    let b ← behind bytes 2
    let packet ← encapsulated b
    pure (.multicastData packet)
  | .teardown => do
    let b ← advance 2 bytes
    let (mac, b) ← takeMac b
    let (nonce, b) ← take32 b
    let (port, b) ← take16 b
    let (octets, _) ← takeInto 16 b
    pure (.teardown mac (.ofNat nonce) ⟨readWide octets, .ofNat port, 0, 0⟩)

def message (b : Bytes) : Checked MessageError Message :=
  if b.length = 0 then .refused (.truncated 0)
  else do
    let first ← index b 0
    if first.toNat / 16 ≠ 0 then .refused (.unsupportedVersion (first.toNat / 16))
    else
      match Kind.ofCode? (first.toNat % 16) with
      | none => .refused (.unknownType (first.toNat % 16))
      | some kind => do
        let b ← require b kind.minimumLength
        messageOf kind b

theorem readMac_take (b : Bytes) (h : 6 ≤ n) : readMac (b.take n) = readMac b := by
  refine congrArg Mac.mk (Vector.ext fun i hi => ?_)
  simp only [Vector.getElem_ofFn]
  exact Bytes.octet_take (by omega)

theorem takeMac_eq (h : 6 ≤ b.length) :
    (takeMac b : Checked ε (Mac × Bytes)) = .value (readMac b, b.drop 6) := by
  simp only [takeMac, takeInto_eq h, value_bind, pure_eq, readMac_take b (Nat.le_refl 6)]

theorem readWide_take (b : Bytes) : readWide (b.take 16) = readWide b := by
  have hread : Address.read .ipv6 (b.take 16) = .read .ipv6 b :=
    Address.read_congr .ipv6 fun i hi => Bytes.octet_take hi
  rw [readWide, readWide, hread]

theorem exactAddress_eq (b : Bytes) : exactAddress b = of (readAddress b) := by
  rw [exactAddress, readAddress, Address.ofOctets?]
  split
  · next h => rw [addressV4_eq (by omega), List.drop_zero]; rfl
  split
  · next h => rw [copied_eq h]; rfl
  · rfl

theorem encapsulated_eq (b : Bytes) : encapsulated b = of (readPacket b) := by
  rw [encapsulated, parse_eq, mapError_of, readPacket]

theorem gateway_eq (flags : UInt8) (total : Nat) (rest : Bytes) :
    gateway flags total rest = of (readGateway flags.toNat total rest) := by
  rw [gateway, readGateway]
  split
  · rfl
  split
  · rfl
  · rw [word16_eq (by omega), value_bind, behind_eq (by omega), value_bind, exactAddress_eq,
      ← of_map]
    rfl

/-- A packet is no longer than the octets that it was read from. -/
theorem length_le_of_readPacket {p : Packet} (h : readPacket b = .ok p) : p.length ≤ b.length := by
  rw [readPacket] at h
  cases hparse : Packet.parse b with
  | error e =>
    rw [hparse] at h
    cases h
  | ok q =>
    rw [hparse] at h
    cases h
    obtain ⟨n, -, hbytes⟩ := Packet.bytes_of_parse hparse
    rw [Packet.length, hbytes, List.length_take]
    exact Nat.min_le_right _ _

theorem messageOf_eq (kind : Kind) (h : kind.minimumLength ≤ b.length) :
    messageOf kind b = of (decodeKind kind b) := by
  cases kind with
  | relayDiscovery =>
    have hlong : 8 ≤ b.length := h
    simp (disch := first | omega | (simp only [List.length_drop]; omega)) only [messageOf,
      advance_eq, value_bind, take32_eq, Bytes.word32_drop, pure_eq]
    rfl
  | relayAdvertisement =>
    have hlong : 8 ≤ b.length := h
    simp (disch := first | omega | (simp only [List.length_drop]; omega)) only [messageOf,
      advance_eq, value_bind, take32_eq, Bytes.word32_drop, List.drop_drop, exactAddress_eq,
      pure_eq]
    exact of_map _ _
  | request =>
    have hlong : 8 ≤ b.length := h
    simp (disch := first | omega | (simp only [List.length_drop]; omega)) only [messageOf,
      advance_eq, value_bind, take8_eq, take32_eq, Bytes.octet_drop, Bytes.word32_drop,
      List.drop_drop, pure_eq]
    rfl
  | membershipQuery =>
    have hlong : 12 ≤ b.length := h
    simp (disch := first | omega | (simp only [List.length_drop]; omega)) only [messageOf,
      advance_eq, value_bind, take8_eq, takeMac_eq, take32_eq, Bytes.octet_drop, Bytes.word32_drop,
      List.drop_drop, encapsulated_eq, pure_eq]
    cases hquery : readPacket (b.drop 12) with
    | error e => simp only [hquery, decodeKind]; rfl
    | ok query =>
      have hlength := length_le_of_readPacket hquery
      simp only [of_ok, value_bind, behind_eq hlength, gateway_eq, List.drop_drop, of_map,
        decodeKind, hquery, Nat.add_zero]
      simp only [bind, Except.bind]
      cases readGateway (b.octet 1).toNat b.length (b.drop (12 + query.length)) <;> rfl
  | membershipUpdate =>
    have hlong : 12 ≤ b.length := h
    simp (disch := first | omega | (simp only [List.length_drop]; omega)) only [messageOf,
      advance_eq, value_bind, takeMac_eq, take32_eq, Bytes.word32_drop, List.drop_drop,
      encapsulated_eq, pure_eq]
    exact of_map _ _
  | multicastData =>
    have hlong : 2 ≤ b.length := h
    simp only [messageOf, behind_eq hlong, value_bind, encapsulated_eq, pure_eq]
    exact of_map _ _
  | teardown =>
    have hlong : 30 ≤ b.length := h
    simp (disch := first | omega | (simp only [List.length_drop]; omega)) only [messageOf,
      advance_eq, value_bind, takeMac_eq, take16_eq, take32_eq, takeInto_eq, Bytes.word16_drop,
      Bytes.word32_drop, List.drop_drop, readWide_take, pure_eq]
    rfl

/-- Any octets are decoded without a trap. -/
theorem message_eq (b : Bytes) : message b = of (Message.decode b) := by
  rw [message, decode]
  split
  · rfl
  next hpos =>
  rw [index_eq (by omega), value_bind]
  split
  · rfl
  cases Kind.ofCode? ((b.octet 0).toNat % 16) with
  | none => rfl
  | some kind =>
    simp only [require]
    split
    · rfl
    · next hlong => exact messageOf_eq kind (Nat.le_of_not_lt hlong)

end MulticastTunnel.Checked
