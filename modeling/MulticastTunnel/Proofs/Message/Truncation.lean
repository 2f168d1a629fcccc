import MulticastTunnel.Proofs.Message.Codec
import MulticastTunnel.Proofs.Packet.Delimiting

/-!
# Messages that are cut short

A message that has lost octets at its end is refused: its fixed fields are counted, and a packet
in it tells its own length. The address at the end of a message is told apart only by the octets
that are left, so an IPv6 address that has lost twelve of its sixteen octets is read as an IPv4
one. No other loss goes unnoticed.
-/

namespace MulticastTunnel

open Bytes (Cut)

namespace Address

/-- What an address is read as that has lost twelve octets. -/
def shortened? : Address → Option Address
  | .v4 _ => none
  | .v6 o => some (read .ipv4 o.toList)

theorem isSome_shortened? (a : Address) : a.shortened?.isSome = true ↔ a.family = .ipv6 := by
  cases a <;> simp [shortened?, family]

theorem length_of_shortened? {a x : Address} (h : a.shortened? = some x) :
    a.octets.length = 16 := by
  cases a with
  | v4 o => cases h
  | v6 o => simp [octets]

theorem read_ipv4_append {s : Bytes} (h : s.length = 4) (t : Bytes) :
    read .ipv4 (s ++ t) = read .ipv4 s :=
  read_congr .ipv4 fun _ hi => Bytes.octet_append_left (Nat.lt_of_lt_of_eq hi h.symm)

theorem ofOctets?_of_cut {a x : Address} {s : Bytes} (h : Cut s a.octets) :
    ofOctets? s = some x ↔ s.length + 12 = a.octets.length ∧ a.shortened? = some x := by
  have hlength := a.length_octets
  have hshorter := h.shorter
  rw [ofOctets?]
  cases a with
  | v4 o =>
    have h4 : (octets (.v4 o)).length = 4 := hlength
    rw [if_neg (by omega), if_neg (by omega)]
    exact iff_of_false (by simp) fun h => by cases h.2
  | v6 o =>
    have h16 : (octets (.v6 o)).length = 16 := hlength
    by_cases hfour : s.length = 4
    · obtain ⟨t, ht⟩ := h.front
      rw [if_pos hfour, hfour, h16, shortened?, show o.toList = s ++ t from ht.symm,
        read_ipv4_append hfour]
      exact (and_iff_right rfl).symm
    · rw [if_neg hfour, if_neg (by omega)]
      exact iff_of_false (by simp) fun h => by omega

end Address

namespace Message

variable {α : Type} {m r : Message} {b s : Bytes}

/-- What a message is read as that has lost its last twelve octets. -/
def shortened? : Message → Option Message
  | .relayAdvertisement nonce relay => relay.shortened?.map (.relayAdvertisement nonce)
  | .membershipQuery limited mac nonce query (some gateway) =>
    gateway.address.shortened?.map fun a =>
      .membershipQuery limited mac nonce query (some ⟨a, gateway.port, 0, 0⟩)
  | _ => none

/-- An IPv6 address is the last that the message tells. -/
def EndsInIPv6Address : Message → Prop
  | .relayAdvertisement _ relay => relay.family = .ipv6
  | .membershipQuery _ _ _ _ (some gateway) => gateway.address.family = .ipv6
  | _ => False

theorem isSome_shortened? (m : Message) : m.shortened?.isSome = true ↔ m.EndsInIPv6Address := by
  cases m with
  | relayAdvertisement nonce relay =>
    rw [shortened?, Option.isSome_map]
    exact relay.isSome_shortened?
  | membershipQuery limited mac nonce query gateway =>
    cases gateway with
    | none => exact iff_of_false (by simp [shortened?]) id
    | some g =>
      rw [shortened?, Option.isSome_map]
      exact g.address.isSome_shortened?
  | _ => exact iff_of_false (by simp [shortened?]) id

/-! ## Fields that are cut short -/

theorem map_eq_ok_iff {β ε : Type} {f : α → β} {x : Except ε α} {y : β} :
    x.map f = .ok y ↔ ∃ a, x = .ok a ∧ f a = y := by
  cases x <;> simp [Except.map]

theorem readAddress_eq_ok_iff {a : Address} :
    readAddress b = .ok a ↔ Address.ofOctets? b = some a := by
  rw [readAddress]
  cases Address.ofOctets? b <;> simp

/-- An address that is cut short is read as one only when it loses twelve octets. -/
theorem map_readAddress_of_cut {a : Address} {f : Address → α} {x : α} (h : Cut s a.octets) :
    (readAddress s).map f = .ok x ↔
      s.length + 12 = a.octets.length ∧ a.shortened?.map f = some x := by
  simp only [map_eq_ok_iff, readAddress_eq_ok_iff, Address.ofOctets?_of_cut h,
    Option.map_eq_some_iff, and_assoc, exists_and_left]

theorem readPacket_of_cut {p : Packet} (h : Cut s p.bytes) :
    readPacket s = .error (.encapsulated (.truncated s.length)) := by
  rw [readPacket, Packet.parse_of_cut h]
  rfl

theorem length_seen {gateway : SocketAddress} {a : Address}
    (h : gateway.address.shortened? = some a) : (seen (some gateway)).length = 18 := by
  rw [seen, List.length_append, Bytes.length_ofWord16, Address.length_of_shortened? h]

/-- A gateway's address that is cut short is told by its own octets, whatever is left of its
port. -/
theorem map_readGateway_of_cut {gateway : SocketAddress} {flags total : Nat}
    {f : Option SocketAddress → α} {x : α} (hflag : flags % 2 ≠ 0)
    (h : Cut s (seen (some gateway))) :
    (readGateway flags total s).map f = .ok x ↔
      s.length + 12 = (seen (some gateway)).length ∧
        (gateway.address.shortened?.map fun a => f (some ⟨a, gateway.port, 0, 0⟩)) = some x := by
  have hport : (Bytes.ofWord16 gateway.port.toNat).length = 2 := Bytes.length_ofWord16 _
  rw [readGateway, if_neg hflag]
  split
  · next hshort =>
    refine iff_of_false (by simp [Except.map]) ?_
    rintro ⟨hcut, hx⟩
    rw [Option.map_eq_some_iff] at hx
    obtain ⟨a, ha, -⟩ := hx
    rw [length_seen ha] at hcut
    omega
  · next hlong =>
    obtain ⟨t, ht, rfl⟩ := h.behind (by omega)
    have hread : UInt16.ofNat (Bytes.word16 (Bytes.ofWord16 gateway.port.toNat ++ t) 0) =
        gateway.port := Bytes.word16_of_append (p := []) rfl gateway.port
    rw [List.drop_left' hport, hread, seen, Bytes.length_append_add_eq_iff,
      ← map_readAddress_of_cut ht]
    cases readAddress t <;> rfl

/-! ## Messages that are cut short -/

theorem octet_zero_of_cut (h : Cut b m.encode) (hpos : 0 < b.length) :
    b.octet 0 = UInt8.ofNat m.kind.code := by
  obtain ⟨t, ht⟩ := h.front
  have hfirst : (b ++ t).octet 0 = b.octet 0 := Bytes.octet_append_left hpos
  rw [← hfirst, ht]
  rfl

/-- The fixed fields of a message are counted. -/
theorem decode_of_short (h : Cut b m.encode) (hshort : b.length < m.kind.minimumLength) :
    decode b = .error (.truncated b.length) := by
  rcases Nat.eq_zero_or_pos b.length with hempty | hpos
  · rw [decode, if_pos hempty, hempty]
  rw [decode_of_first (octet_zero_of_cut h hpos) (Nat.ne_of_gt hpos), if_pos hshort]

/-- A message with an address of sixteen octets at its end has its fixed fields without them. -/
theorem length_of_shortened? (h : m.shortened? = some r) :
    m.kind.minimumLength + 12 ≤ m.encode.length := by
  cases m with
  | relayAdvertisement nonce relay =>
    rw [shortened?, Option.map_eq_some_iff] at h
    obtain ⟨a, ha, -⟩ := h
    rw [encode_relayAdvertisement]
    simp only [List.length_cons, List.length_append, Bytes.length_ofWord32,
      Address.length_of_shortened? ha, kind, Kind.minimumLength]
    omega
  | membershipQuery limited mac nonce query gateway =>
    cases gateway with
    | none => cases h
    | some g =>
      rw [shortened?, Option.map_eq_some_iff] at h
      obtain ⟨a, ha, -⟩ := h
      rw [encode_membershipQuery]
      simp only [List.length_cons, List.length_append, length_credentials, length_seen ha, kind,
        Kind.minimumLength]
      omega
  | _ => cases h

section Kinds

variable (mac : Mac) (nonce : Nonce)

theorem decode_relayAdvertisement_of_cut (relay : Address)
    (h : Cut b (encode (.relayAdvertisement nonce relay))) (hlong : 8 ≤ b.length) :
    decode b = .ok r ↔ b.length + 12 = (encode (.relayAdvertisement nonce relay)).length ∧
      shortened? (.relayAdvertisement nonce relay) = some r := by
  rw [encode_relayAdvertisement] at h ⊢
  obtain ⟨s, hs, rfl⟩ := h.behind hlong
  rw [decode_advertisement, map_readAddress_of_cut hs, Bytes.length_append_add_eq_iff, shortened?]

theorem decode_membershipQuery_of_cut (limited : Bool) (query : Packet)
    (gateway : Option SocketAddress)
    (h : Cut b (encode (.membershipQuery limited mac nonce query gateway)))
    (hlong : 12 ≤ b.length) :
    decode b = .ok r ↔
      b.length + 12 = (encode (.membershipQuery limited mac nonce query gateway)).length ∧
      shortened? (.membershipQuery limited mac nonce query gateway) = some r := by
  rw [encode_membershipQuery] at h ⊢
  obtain ⟨s, hs, rfl⟩ := h.behind (by rwa [length_heading])
  rw [Bytes.length_append_add_eq_iff]
  rcases Nat.lt_or_ge s.length query.bytes.length with hshort | hwhole
  · rw [decode_query, readPacket_of_cut (hs.before hshort)]
    refine iff_of_false (by simp [Except.bind]) ?_
    rintro ⟨hcut, hm⟩
    cases gateway with
    | none => cases hm
    | some g =>
      rw [shortened?, Option.map_eq_some_iff] at hm
      obtain ⟨a, ha, -⟩ := hm
      rw [List.length_append, length_seen ha] at hcut
      omega
  obtain ⟨t, ht, rfl⟩ := hs.behind hwhole
  rw [decode_query_packet, Bytes.length_append_add_eq_iff]
  cases gateway with
  | none => exact absurd ht.shorter (Nat.not_lt_zero _)
  | some g =>
    rw [limited_queryFlags, Option.isSome_some,
      map_readGateway_of_cut (told_queryFlags limited) ht, shortened?]

theorem decode_membershipUpdate_of_cut (report : Packet)
    (h : Cut b (encode (.membershipUpdate mac nonce report))) (hlong : 12 ≤ b.length) :
    decode b ≠ .ok r := by
  rw [encode_membershipUpdate] at h
  obtain ⟨s, hs, rfl⟩ := h.behind (by rwa [length_heading])
  rw [decode_update, readPacket_of_cut hs]
  simp [Except.map]

theorem decode_multicastData_of_cut (packet : Packet)
    (h : Cut b (encode (.multicastData packet))) (hlong : 2 ≤ b.length) : decode b ≠ .ok r := by
  rw [encode_multicastData] at h
  obtain ⟨s, hs, rfl⟩ := h.behind hlong
  rw [decode_data, readPacket_of_cut hs]
  simp [Except.map]

end Kinds

/-- A message that is cut short is read only when it has lost the last twelve octets of an
address. -/
theorem decode_of_cut (h : Cut b m.encode) :
    decode b = .ok r ↔ b.length + 12 = m.encode.length ∧ m.shortened? = some r := by
  rcases Nat.lt_or_ge b.length m.kind.minimumLength with hshort | hlong
  · rw [decode_of_short h hshort]
    refine iff_of_false (by simp) ?_
    rintro ⟨hcut, hm⟩
    have := length_of_shortened? hm
    omega
  cases m with
  | relayAdvertisement nonce relay => exact decode_relayAdvertisement_of_cut nonce relay h hlong
  | membershipQuery limited mac nonce query gateway =>
    exact decode_membershipQuery_of_cut mac nonce limited query gateway h hlong
  | membershipUpdate mac nonce report =>
    exact iff_of_false (decode_membershipUpdate_of_cut mac nonce report h hlong)
      (by simp [shortened?])
  | multicastData packet =>
    exact iff_of_false (decode_multicastData_of_cut packet h hlong) (by simp [shortened?])
  | relayDiscovery nonce | request nonce family =>
    exact absurd h.shorter (Nat.not_lt.mpr hlong)
  | teardown mac nonce gateway =>
    -- All of its fields are fixed.
    have hlength : (encode (.teardown mac nonce gateway)).length = 30 := by
      simp [encode, body, length_wideOctets]
    exact absurd h.shorter (Nat.not_lt.mpr (hlength.symm ▸ hlong))

/-- **Messages that are cut short are refused**, but for one that ends in an IPv6 address and has
lost twelve octets: it is read with an IPv4 address in that one's place. -/
theorem cut_short_refused (hb : b <+: m.encode) (hne : b ≠ m.encode) :
    ((∃ e, decode b = .error e) ↔ ¬ (m.EndsInIPv6Address ∧ b.length + 12 = m.encode.length)) ∧
    ∀ r, decode b = .ok r → m.shortened? = some r := by
  have hcut := Bytes.cut_of_ne hb hne
  refine ⟨?_, fun r h => ((decode_of_cut hcut).mp h).2⟩
  rw [← isSome_shortened?, Option.isSome_iff_exists]
  constructor
  · rintro ⟨e, he⟩ ⟨⟨r, hr⟩, hlen⟩
    cases he.symm.trans ((decode_of_cut hcut).mpr ⟨hlen, hr⟩)
  · intro h
    cases hread : decode b with
    | error e => exact ⟨e, rfl⟩
    | ok r =>
      obtain ⟨hlen, hr⟩ := (decode_of_cut hcut).mp hread
      exact absurd ⟨⟨r, hr⟩, hlen⟩ h

/-- An advertisement of an IPv6 relay. -/
def wideAdvertisement : Message :=
  .relayAdvertisement 9 (.v6 #v[0x20, 0x01, 0x0d, 0xb8, 0, 7, 0, 0, 0, 0, 0, 0, 0, 0, 0, 1])

/-- Cut by eleven octets it is refused, and cut by twelve it names the relay 32.1.13.184. -/
theorem wideAdvertisement_cut_short :
    (∃ e, decode (wideAdvertisement.encode.take 13) = .error e) ∧
    decode (wideAdvertisement.encode.take 12) =
      .ok (.relayAdvertisement 9 (.v4 #v[32, 1, 13, 184])) := by
  have hne : wideAdvertisement.encode.take 13 ≠ wideAdvertisement.encode := by decide
  refine ⟨(cut_short_refused (List.take_prefix 13 _) hne).1.mpr ?_, rfl⟩
  rintro ⟨-, hcut⟩
  exact absurd hcut (by decide)

end Message

end MulticastTunnel
