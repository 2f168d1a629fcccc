import Mathlib.Tactic.Common
import MulticastTunnel.Message.Codec
import MulticastTunnel.Proofs.Octets

/-!
# Messages on the wire

A message is read from its octets as it was written, but for what octets do not carry: the
flow and link of a socket, and in a teardown whether an address was IPv4 or its mapped form. What is
left of a message is `carried`. Reading gives only messages that lose nothing by being written,
so what was read once is read again from its own octets, whatever form the first ones had.
-/

namespace MulticastTunnel

/-! ## Addresses -/

namespace Address

/-- The address with a mapped form told as the IPv4 address that it stands for. -/
def unmapped : Address → Address
  | .v4 o => .v4 o
  | .v6 o =>
    match mapped? o with
    | some tail => .v4 tail
    | none => .v6 o

theorem mapped?_mapped (o : Vector UInt8 4) : mapped? (mapped o) = some o := by
  have htail : #v[(mapped o)[12], (mapped o)[13], (mapped o)[14], (mapped o)[15]] = o := by
    ext i hi
    rcases i with _ | _ | _ | _ | i
    · rfl
    · rfl
    · rfl
    · rfl
    · omega
  simp only [mapped?, htail, if_true]

theorem eq_mapped_of_mapped? {o : Vector UInt8 16} {tail : Vector UInt8 4}
    (h : mapped? o = some tail) : o = mapped tail := by
  simp only [mapped?] at h
  split at h
  · next heq =>
    cases h
    exact heq
  · cases h

/-- Only a mapped form is told otherwise. -/
theorem unmapped_eq_self_iff {a : Address} : a.unmapped = a ↔ ∀ o, a ≠ .v6 (mapped o) := by
  cases a with
  | v4 o => exact iff_of_true rfl fun _ h => by cases h
  | v6 o =>
    simp only [unmapped]
    split
    · next tail h =>
      refine iff_of_false (by simp) fun hall => hall tail ?_
      rw [← eq_mapped_of_mapped? h]
    · next h =>
      refine iff_of_true rfl ?_
      rintro tail heq
      cases heq
      rw [mapped?_mapped] at h
      cases h

theorem unmapped_unmapped (a : Address) : a.unmapped.unmapped = a.unmapped := by
  cases a with
  | v4 o => rfl
  | v6 o =>
    cases h : mapped? o with
    | none => simp only [unmapped, h]
    | some tail => simp only [unmapped, h]

end Address

namespace SocketAddress

/-- The same port at the same address, of no flow and on no link. -/
def bare (a : SocketAddress) : SocketAddress := ⟨a.address, a.port, 0, 0⟩

/-- A socket that its address and its port tell all of. -/
def IsBare (a : SocketAddress) : Prop := a.flowinfo = 0 ∧ a.scope = 0

theorem isBare_bare (a : SocketAddress) : a.bare.IsBare := ⟨rfl, rfl⟩

theorem bare_eq_self_iff {a : SocketAddress} : a.bare = a ↔ a.IsBare := by
  constructor
  · intro h
    rw [← h]
    exact a.isBare_bare
  · rintro ⟨hflow, hlink⟩
    exact congrArg₂ (mk a.address a.port) hflow.symm hlink.symm

end SocketAddress

namespace Message

theorem readWide_eq (b : Bytes) : readWide b = (Address.read .ipv6 b).unmapped := by
  unfold readWide
  cases Address.read .ipv6 b <;> rfl

theorem readWide_wideOctets (a : Address) (rest : Bytes) :
    readWide (wideOctets a ++ rest) = a.unmapped := by
  cases a with
  | v4 o =>
    have hread : Address.read .ipv6 (wideOctets (.v4 o) ++ rest) = .v6 (Address.mapped o) :=
      Address.read_octets (.v6 (Address.mapped o)) rest
    rw [readWide_eq, hread]
    simp only [Address.unmapped, Address.mapped?_mapped]
  | v6 o =>
    have hread : Address.read .ipv6 (wideOctets (.v6 o) ++ rest) = .v6 o :=
      Address.read_octets (.v6 o) rest
    rw [readWide_eq, hread]

theorem length_wideOctets (a : Address) : (wideOctets a).length = 16 := by
  cases a <;> simp [wideOctets]

/-! ## Fields -/

theorem readMac_append (mac : Mac) (rest : Bytes) : readMac (mac.octets.toList ++ rest) = mac := by
  obtain ⟨octets⟩ := mac
  simp only [readMac, Mac.mk.injEq]
  ext i hi
  simp [Bytes.octet, List.getD_eq_getElem?_getD, List.getElem?_append_left]

/-- A nonce behind four octets. -/
theorem nonce_heading (a b c d : UInt8) (nonce : Nonce) (rest : Bytes) :
    UInt32.ofNat (Bytes.word32 (a :: b :: c :: d :: (Bytes.ofWord32 nonce.toNat ++ rest)) 4) =
      nonce := Bytes.word32_of_append (p := [a, b, c, d]) rfl nonce

/-- What stands behind the first two octets of a query, an update or a teardown. -/
def credentials (mac : Mac) (nonce : Nonce) : Bytes :=
  mac.octets.toList ++ Bytes.ofWord32 nonce.toNat

theorem length_credentials (mac : Mac) (nonce : Nonce) : (credentials mac nonce).length = 10 := by
  simp [credentials]

section Credentials

variable (kind flags : UInt8) (mac : Mac) (nonce : Nonce) (rest : Bytes)

theorem readMac_credentials :
    readMac ((kind :: flags :: (credentials mac nonce ++ rest)).drop 2) = mac := by
  show readMac (credentials mac nonce ++ rest) = mac
  rw [credentials, List.append_assoc]
  exact readMac_append mac _

theorem nonce_credentials :
    UInt32.ofNat (Bytes.word32 (kind :: flags :: (credentials mac nonce ++ rest)) 8) = nonce := by
  have hpre : (kind :: flags :: mac.octets.toList).length = 8 := by simp
  rw [credentials, List.append_assoc]
  exact Bytes.word32_of_append hpre nonce

theorem length_heading : (kind :: flags :: credentials mac nonce).length = 12 := by
  simp [length_credentials]

theorem drop_credentials (n : Nat) :
    (kind :: flags :: (credentials mac nonce ++ rest)).drop (12 + n) = rest.drop n := by
  rw [← length_heading kind flags mac nonce, ← List.drop_drop]
  exact congrArg (List.drop n) (List.drop_left' rfl)

end Credentials

/-! ## Reading what was written -/

/-- The first octet of a message tells its kind. -/
theorem decode_of_first {k : Kind} {b : Bytes} (hfirst : b.octet 0 = UInt8.ofNat k.code)
    (hne : b.length ≠ 0) :
    decode b =
      if b.length < k.minimumLength then .error (.truncated b.length) else decodeKind k b := by
  have hcode : (b.octet 0).toNat = k.code := by
    rw [hfirst]
    cases k <;> rfl
  have hversion : k.code / 16 = 0 := by cases k <;> rfl
  have hkind : k.code % 16 = k.code := by cases k <;> rfl
  simp only [decode, hcode, hversion, hkind, Kind.ofCode?_code, if_neg hne]
  exact if_neg (by simp)

/-- A message that is long enough for its kind is read as one of that kind. -/
theorem decode_eq_decodeKind {k : Kind} {b : Bytes} (hfirst : b.octet 0 = UInt8.ofNat k.code)
    (hlong : k.minimumLength ≤ b.length) : decode b = decodeKind k b := by
  have hmin : 0 < k.minimumLength := by cases k <;> decide
  rw [decode_of_first hfirst (by omega), if_neg (Nat.not_lt.mpr hlong)]

theorem readPacket_append (p : Packet) (rest : Bytes) : readPacket (p.bytes ++ rest) = .ok p := by
  rw [readPacket, Packet.parse_bytes_append]
  rfl

theorem readPacket_bytes (p : Packet) : readPacket p.bytes = .ok p := by
  have h := readPacket_append p []
  rwa [List.append_nil] at h

theorem readAddress_octets (a : Address) : readAddress a.octets = .ok a := by
  rw [readAddress, Address.ofOctets?_octets]

/-- What of a message its octets tell. -/
def carried : Message → Message
  | .membershipQuery limited mac nonce query gateway =>
    .membershipQuery limited mac nonce query (gateway.map .bare)
  | .teardown mac nonce gateway =>
    .teardown mac nonce ⟨gateway.address.unmapped, gateway.port, 0, 0⟩
  | m => m

/-! ## Queries -/

/-- The flags of a query: that the relay is limited, and that it tells an address. -/
def queryFlags (limited told : Bool) : UInt8 := (if limited then 2 else 0) + (if told then 1 else 0)

theorem told_queryFlags (limited : Bool) : (queryFlags limited true).toNat % 2 ≠ 0 := by
  cases limited <;> decide

theorem limited_queryFlags (limited told : Bool) :
    decide ((queryFlags limited told).toNat / 2 % 2 = 1) = limited := by
  cases limited <;> cases told <;> rfl

/-- The gateway's address behind a query. -/
def seen : Option SocketAddress → Bytes
  | some g => Bytes.ofWord16 g.port.toNat ++ g.address.octets
  | none => []

theorem readGateway_seen (limited : Bool) (gateway : Option SocketAddress) (total : Nat) :
    readGateway (queryFlags limited gateway.isSome).toNat total (seen gateway) =
      .ok (gateway.map .bare) := by
  cases gateway with
  | none => cases limited <;> rfl
  | some g =>
    have hlong : ¬ (seen (some g)).length < 2 := by
      rw [seen, List.length_append, Bytes.length_ofWord16]
      omega
    have hport : UInt16.ofNat ((seen (some g)).word16 0) = g.port :=
      Bytes.word16_of_append (p := []) rfl g.port
    simp only [readGateway, Option.isSome_some, if_neg (told_queryFlags limited), if_neg hlong,
      hport]
    show (readAddress g.address.octets).map _ = _
    rw [readAddress_octets]
    rfl

/-! ## Kind by kind -/

section Kinds

variable (mac : Mac) (nonce : Nonce)

theorem decode_relayDiscovery :
    decode (encode (.relayDiscovery nonce)) = .ok (.relayDiscovery nonce) := by
  have hencode : encode (.relayDiscovery nonce) =
      1 :: 0 :: 0 :: 0 :: (Bytes.ofWord32 nonce.toNat ++ []) := rfl
  rw [hencode, decode_eq_decodeKind (k := .relayDiscovery) rfl (by simp [Kind.minimumLength])]
  simp only [decodeKind, nonce_heading]

theorem encode_relayAdvertisement (relay : Address) :
    encode (.relayAdvertisement nonce relay) =
      (2 :: 0 :: 0 :: 0 :: Bytes.ofWord32 nonce.toNat) ++ relay.octets := rfl

/-- All that is behind the nonce of an advertisement is the relay. -/
theorem decode_advertisement (rest : Bytes) :
    decode ((2 :: 0 :: 0 :: 0 :: Bytes.ofWord32 nonce.toNat) ++ rest) =
      (readAddress rest).map (.relayAdvertisement nonce) := by
  have hrest : (2 :: 0 :: 0 :: 0 :: (Bytes.ofWord32 nonce.toNat ++ rest)).drop 8 = rest := rfl
  show decode (2 :: 0 :: 0 :: 0 :: (Bytes.ofWord32 nonce.toNat ++ rest)) = _
  rw [decode_eq_decodeKind (k := .relayAdvertisement) rfl (by simp [Kind.minimumLength])]
  simp only [decodeKind, nonce_heading, hrest]

theorem decode_relayAdvertisement (relay : Address) :
    decode (encode (.relayAdvertisement nonce relay)) = .ok (.relayAdvertisement nonce relay) := by
  rw [encode_relayAdvertisement, decode_advertisement, readAddress_octets]
  rfl

theorem decode_request (family : Family) :
    decode (encode (.request nonce family)) = .ok (.request nonce family) := by
  have hencode : ∃ flag : UInt8, (if flag.toNat % 2 = 0 then Family.ipv4 else .ipv6) = family ∧
      encode (.request nonce family) =
        3 :: flag :: 0 :: 0 :: (Bytes.ofWord32 nonce.toNat ++ []) := by
    cases family with
    | ipv4 => exact ⟨0, rfl, rfl⟩
    | ipv6 => exact ⟨1, rfl, rfl⟩
  obtain ⟨flag, hflag, hencode⟩ := hencode
  rw [hencode, decode_eq_decodeKind (k := .request) rfl (by simp [Kind.minimumLength])]
  simp only [decodeKind, nonce_heading]
  show Except.ok (Message.request nonce (if flag.toNat % 2 = 0 then .ipv4 else .ipv6)) = _
  rw [hflag]

theorem encode_membershipQuery (limited : Bool) (query : Packet) (gateway : Option SocketAddress) :
    encode (.membershipQuery limited mac nonce query gateway) =
      (4 :: queryFlags limited gateway.isSome :: credentials mac nonce) ++
        (query.bytes ++ seen gateway) := by
  simp only [encode, body, credentials, List.append_assoc, List.cons_append]
  cases gateway <;> rfl

/-- The packet of a query tells where the gateway's address begins. -/
theorem decode_query (flags : UInt8) (rest : Bytes) :
    decode ((4 :: flags :: credentials mac nonce) ++ rest) =
      (readPacket rest).bind fun query =>
        (readGateway flags.toNat (12 + rest.length) (rest.drop query.length)).map
          (.membershipQuery (flags.toNat / 2 % 2 = 1) mac nonce query) := by
  have hquery := drop_credentials 4 flags mac nonce rest 0
  have hlength : (4 :: flags :: (credentials mac nonce ++ rest)).length = 12 + rest.length := by
    simp only [List.length_cons, List.length_append, length_credentials]
    omega
  rw [Nat.add_zero, List.drop_zero] at hquery
  show decode (4 :: flags :: (credentials mac nonce ++ rest)) = _
  rw [decode_eq_decodeKind (k := .membershipQuery) rfl
    (by simp [Kind.minimumLength, length_credentials])]
  simp only [decodeKind, readMac_credentials, nonce_credentials, hquery, drop_credentials, hlength]
  cases readPacket rest with
  | error e => rfl
  | ok query =>
    show (readGateway flags.toNat _ _).bind _ = (readGateway flags.toNat _ _).map _
    cases readGateway flags.toNat (12 + rest.length) (rest.drop query.length) <;> rfl

/-- Behind the packet of a query is the gateway's address alone. -/
theorem decode_query_packet (flags : UInt8) (query : Packet) (rest : Bytes) :
    decode ((4 :: flags :: credentials mac nonce) ++ (query.bytes ++ rest)) =
      (readGateway flags.toNat (12 + (query.bytes ++ rest).length) rest).map
        (.membershipQuery (flags.toNat / 2 % 2 = 1) mac nonce query) := by
  have hrest : (query.bytes ++ rest).drop query.length = rest := List.drop_left' rfl
  rw [decode_query, readPacket_append, Except.bind, hrest]

theorem decode_membershipQuery (limited : Bool) (query : Packet) (gateway : Option SocketAddress) :
    decode (encode (.membershipQuery limited mac nonce query gateway)) =
      .ok (.membershipQuery limited mac nonce query (gateway.map .bare)) := by
  rw [encode_membershipQuery, decode_query_packet, readGateway_seen]
  show Except.ok (Message.membershipQuery
    (decide ((queryFlags limited gateway.isSome).toNat / 2 % 2 = 1)) _ _ _ _) = _
  rw [limited_queryFlags]

theorem encode_membershipUpdate (report : Packet) :
    encode (.membershipUpdate mac nonce report) =
      (5 :: 0 :: credentials mac nonce) ++ report.bytes := by
  simp only [encode, body, credentials, List.append_assoc, List.cons_append]
  rfl

theorem decode_update (rest : Bytes) :
    decode ((5 :: 0 :: credentials mac nonce) ++ rest) =
      (readPacket rest).map (.membershipUpdate mac nonce) := by
  have hreport := drop_credentials 5 0 mac nonce rest 0
  rw [Nat.add_zero, List.drop_zero] at hreport
  show decode (5 :: 0 :: (credentials mac nonce ++ rest)) = _
  rw [decode_eq_decodeKind (k := .membershipUpdate) rfl
    (by simp [Kind.minimumLength, length_credentials])]
  simp only [decodeKind, readMac_credentials, nonce_credentials, hreport]

theorem decode_membershipUpdate (report : Packet) :
    decode (encode (.membershipUpdate mac nonce report)) =
      .ok (.membershipUpdate mac nonce report) := by
  rw [encode_membershipUpdate, decode_update, readPacket_bytes]
  rfl

theorem encode_multicastData (packet : Packet) :
    encode (.multicastData packet) = [6, 0] ++ packet.bytes := rfl

theorem decode_data (rest : Bytes) :
    decode ([6, 0] ++ rest) = (readPacket rest).map .multicastData := by
  rw [decode_eq_decodeKind (k := .multicastData) rfl (by simp [Kind.minimumLength])]
  rfl

theorem decode_multicastData (packet : Packet) :
    decode (encode (.multicastData packet)) = .ok (.multicastData packet) := by
  rw [encode_multicastData, decode_data, readPacket_bytes]
  rfl

theorem decode_teardown (gateway : SocketAddress) :
    decode (encode (.teardown mac nonce gateway)) =
      .ok (.teardown mac nonce ⟨gateway.address.unmapped, gateway.port, 0, 0⟩) := by
  have hencode : encode (.teardown mac nonce gateway) =
      7 :: 0 :: (credentials mac nonce ++
        (Bytes.ofWord16 gateway.port.toNat ++ (wideOctets gateway.address ++ []))) := by
    simp only [encode, body, credentials, List.append_assoc, List.append_nil]
    rfl
  have haddress := drop_credentials 7 0 mac nonce
    (Bytes.ofWord16 gateway.port.toNat ++ (wideOctets gateway.address ++ [])) 2
  have hport := Bytes.word16_of_append (p := 7 :: 0 :: credentials mac nonce) (n := 12)
    (by simp [length_credentials]) gateway.port (r := wideOctets gateway.address ++ [])
  rw [List.drop_left' (Bytes.length_ofWord16 _)] at haddress
  rw [hencode, decode_eq_decodeKind (k := .teardown) rfl
    (by simp [Kind.minimumLength, length_credentials, length_wideOctets])]
  simp only [decodeKind, readMac_credentials, nonce_credentials, haddress, readWide_wideOctets]
  exact congrArg (fun port => Except.ok (Message.teardown mac nonce ⟨_, port, 0, 0⟩)) hport

end Kinds

/-! ## What is carried -/

/-- A message is read as what its octets tell of it. -/
theorem decode_encode (m : Message) : decode m.encode = .ok m.carried := by
  cases m with
  | relayDiscovery nonce => exact decode_relayDiscovery nonce
  | relayAdvertisement nonce relay => exact decode_relayAdvertisement nonce relay
  | request nonce family => exact decode_request nonce family
  | membershipQuery limited mac nonce query gateway =>
    exact decode_membershipQuery mac nonce limited query gateway
  | membershipUpdate mac nonce report => exact decode_membershipUpdate mac nonce report
  | multicastData packet => exact decode_multicastData packet
  | teardown mac nonce gateway => exact decode_teardown mac nonce gateway

/-- Octets tell all of the message: a socket in it is of no flow and on no link, and a teardown
names an IPv4 address as one. -/
def Telling : Message → Prop
  | .membershipQuery _ _ _ _ gateway => ∀ g, gateway = some g → g.IsBare
  | .teardown _ _ gateway => gateway.IsBare ∧ ∀ o, gateway.address ≠ .v6 (Address.mapped o)
  | _ => True

theorem carried_eq_self_iff {m : Message} : m.carried = m ↔ m.Telling := by
  cases m with
  | membershipQuery limited mac nonce query gateway =>
    cases gateway with
    | none => exact iff_of_true rfl fun _ h => by cases h
    | some g =>
      simp only [carried, Telling, Option.map_some, membershipQuery.injEq, true_and,
        Option.some.injEq, SocketAddress.bare_eq_self_iff, forall_eq']
  | teardown mac nonce gateway =>
    obtain ⟨address, port, flowinfo, scope⟩ := gateway
    simp only [carried, Telling, SocketAddress.IsBare, teardown.injEq, true_and,
      SocketAddress.mk.injEq, Address.unmapped_eq_self_iff]
    rw [and_comm, @eq_comm _ 0 flowinfo, @eq_comm _ 0 scope]
  | _ => exact iff_of_true rfl trivial

/-! ## Octets of any form -/

theorem isBare_of_readGateway {flags total : Nat} {rest : Bytes} {gateway : Option SocketAddress}
    (h : readGateway flags total rest = .ok gateway) : ∀ g, gateway = some g → g.IsBare := by
  rintro g rfl
  simp only [readGateway] at h
  split at h
  · cases h
  split at h
  · cases h
  cases haddress : readAddress (rest.drop 2) with
  | error e =>
    rw [haddress] at h
    cases h
  | ok a =>
    rw [haddress] at h
    cases h
    exact ⟨rfl, rfl⟩

theorem telling_of_decodeKind {k : Kind} {b : Bytes} {m : Message}
    (h : decodeKind k b = .ok m) : m.Telling := by
  cases k with
  | relayDiscovery | request =>
    cases h
    trivial
  | relayAdvertisement =>
    simp only [decodeKind] at h
    cases haddress : readAddress (b.drop 8) <;> rw [haddress] at h <;> cases h
    trivial
  | membershipUpdate =>
    simp only [decodeKind] at h
    cases hreport : readPacket (b.drop 12) <;> rw [hreport] at h <;> cases h
    trivial
  | multicastData =>
    simp only [decodeKind] at h
    cases hpacket : readPacket (b.drop 2) <;> rw [hpacket] at h <;> cases h
    trivial
  | membershipQuery =>
    simp only [decodeKind] at h
    cases hquery : readPacket (b.drop 12) <;> rw [hquery] at h
    · cases h
    next query =>
    cases hgateway : readGateway (b.octet 1).toNat b.length (b.drop (12 + query.length)) <;>
      simp only [bind, Except.bind, hgateway] at h <;> cases h
    exact isBare_of_readGateway hgateway
  | teardown =>
    -- The address is read in its wide form, and an IPv4 address in it is told as one at once.
    cases h
    refine ⟨⟨rfl, rfl⟩, Address.unmapped_eq_self_iff.mp ?_⟩
    rw [readWide_eq, Address.unmapped_unmapped]

/-- What is read loses nothing by being written. -/
theorem telling_of_decode {b : Bytes} {m : Message} (h : decode b = .ok m) : m.Telling := by
  simp only [decode] at h
  split at h
  · cases h
  split at h
  · cases h
  split at h
  · cases h
  split at h
  · cases h
  exact telling_of_decodeKind h

/-- The messages that are read as they were written are those that octets tell all of, and every
message that was ever read is one of them. -/
theorem read_as_written :
    (∀ m : Message, decode m.encode = .ok m ↔ m.Telling) ∧
    ∀ (b : Bytes) (m : Message), decode b = .ok m → decode m.encode = .ok m := by
  have hiff (m : Message) : decode m.encode = .ok m ↔ m.Telling := by
    rw [decode_encode, Except.ok.injEq, carried_eq_self_iff]
  exact ⟨hiff, fun b m h => (hiff m).mpr (telling_of_decode h)⟩

/-- A teardown with reserved bits, octets behind it and an IPv4 address in its mapped form. -/
def loose : Bytes :=
  [7, 255, 1, 2, 3, 4, 5, 6, 0, 0, 0, 9, 0x0f, 0xa0] ++ List.replicate 10 0 ++
    [255, 255, 192, 0, 2, 7] ++ [1, 2, 3]

theorem loose_read_as_written :
    let m : Message := .teardown ⟨#v[1, 2, 3, 4, 5, 6]⟩ 9 ⟨.v4 #v[192, 0, 2, 7], 4000, 0, 0⟩
    m.Telling ∧ decode loose = .ok m ∧ m.encode ≠ loose ∧ decode m.encode = .ok m := by
  intro m
  have hread : decode loose = .ok m := rfl
  have hagain := read_as_written.2 loose m hread
  exact ⟨(read_as_written.1 m).mp hagain, hread, by decide, hagain⟩

/-- A socket on a link is read as one on none, and one of a flow as one of none: neither is
sent. -/
theorem flow_and_link_not_read_back :
    let address : Address := .v6 #v[0x20, 0x01, 0x0d, 0xb8, 0, 0, 0, 0, 0, 0, 0, 0, 0, 0, 0, 1]
    let linked : Message := .teardown ⟨#v[1, 2, 3, 4, 5, 6]⟩ 7 ⟨address, 4000, 0, 3⟩
    let flowing : Message := .teardown ⟨#v[1, 2, 3, 4, 5, 6]⟩ 7 ⟨address, 4000, 7, 0⟩
    (∀ o, address ≠ .v6 (Address.mapped o)) ∧
      decode linked.encode ≠ .ok linked ∧ decode flowing.encode ≠ .ok flowing := by
  intro address linked flowing
  refine ⟨Address.unmapped_eq_self_iff.mp rfl, fun h => ?_, fun h => ?_⟩
  · rw [decode_encode, Except.ok.injEq, carried_eq_self_iff] at h
    exact absurd h.1.2 (by decide)
  · rw [decode_encode, Except.ok.injEq, carried_eq_self_iff] at h
    exact absurd h.1.1 (by decide)

end Message

end MulticastTunnel
