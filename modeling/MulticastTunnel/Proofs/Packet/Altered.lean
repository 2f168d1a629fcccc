import MulticastTunnel.Proofs.Packet.Fragments

/-!
# Packets with another octet

Parsing takes the payload of a packet as it comes, and of an IPv6 packet the addresses too. So
when an octet there is replaced, what comes out is again a packet, and its parts lie where they
did.
-/

namespace MulticastTunnel

/-- The length that is declared depends on the first six octets. -/
theorem declaredLength_congr {d d' : Bytes} (hlen : d'.length = d.length)
    (h : ∀ n < 6, d'.octet n = d.octet n) : declaredLength d' = declaredLength d := by
  have h₂ : d'.word16 2 = d.word16 2 := Bytes.word16_congr fun n _ hn => h n (by omega)
  have h₄ : d'.word16 4 = d.word16 4 := Bytes.word16_congr fun n _ hn => h n (by omega)
  simp only [declaredLength, hlen, h 0 (by omega), h₂, h₄]

namespace Layout

theorem fragmentV4_congr {d d' : Bytes} (h : ∀ n < 8, d'.octet n = d.octet n) :
    fragmentV4 d' = fragmentV4 d := by
  have h₄ : d'.word16 4 = d.word16 4 := Bytes.word16_congr fun n _ hn => h n (by omega)
  have h₆ : d'.word16 6 = d.word16 6 := Bytes.word16_congr fun n _ hn => h n (by omega)
  rw [fragmentV4, fragmentV4, h₄, h₆]

/-- A walk to a whole payload ends in front of a header that it knows nothing of. -/
theorem Walks.protocol_of_whole {d : Bytes} {next : UInt8} {named here : Nat} {l : Layout}
    (h : Walks d next named here l) (hwhole : l.fragment.isSome = false) :
    Protocol.isExtension l.protocol = false ∧ l.protocol ≠ Protocol.fragment := by
  induction h with
  | past _ _ _ ih => exact ih hwhole
  | fragment => cases hwhole
  | ending hext hfrag => exact ⟨hext, hfrag⟩

end Layout

namespace Packet

variable {p q : Packet} {i : Nat} {o : UInt8}

/-- The octets of a packet that the checksum of what it carries may cover: the payload and, in
IPv6, the two addresses. None of them tells where the parts of the packet lie. -/
def Guarded (p : Packet) (i : Nat) : Prop :=
  i < p.length ∧ (p.layout.payloadStart ≤ i ∨ p.family = .ipv6 ∧ 8 ≤ i ∧ i < ipv6HeaderLength)

instance (p : Packet) (i : Nat) : Decidable (p.Guarded i) := inferInstanceAs (Decidable (_ ∧ _))

/-- The whole packet that another one becomes when `o` is written at index `i`. -/
structure Altered (p : Packet) (i : Nat) (o : UInt8) (q : Packet) : Prop where
  bytes : q.bytes = p.bytes.set i o
  family : q.family = p.family
  protocol : q.protocol = p.protocol
  payloadStart : q.layout.payloadStart = p.layout.payloadStart
  whole : q.isFragment = false

theorem exists_altered_v4 (hv : (p.bytes.octet 0).toNat / 16 = 4)
    (hl : p.layout = Layout.readV4 p.bytes) (hwhole : p.isFragment = false)
    (hi : p.layout.payloadStart ≤ i) (o : UInt8) :
    ∃ q, parse (p.bytes.set i o) = .ok q ∧ Altered p i o q := by
  have h20 : ipv4HeaderLength = 20 := rfl
  have hstart : p.layout.payloadStart = (p.bytes.octet 0).toNat % 16 * 4 := by rw [hl]; rfl
  obtain ⟨hmin, -⟩ := p.headerLength_v4 hv
  have hsame : ∀ n < 20, Bytes.octet (p.bytes.set i o) n = p.bytes.octet n := fun n hn =>
    Bytes.octet_set_of_ne (by omega) o
  have hd : declaredLength (p.bytes.set i o) = .ok (p.bytes.set i o).length := by
    rw [declaredLength_congr List.length_set fun n hn => hsame n (by omega), p.declared,
      List.length_set]
  have hread : Layout.read (p.bytes.set i o) = .ok (Layout.readV4 (p.bytes.set i o)) := by
    rw [Layout.read, hsame 0 (by omega), if_pos hv]
  refine ⟨_, parse_eq_ok hd hread, rfl, ?_, ?_, ?_, ?_⟩
  · rw [family, family, hl]
    rfl
  · rw [protocol, protocol, hl]
    exact hsame 9 (by omega)
  · show (Bytes.octet (p.bytes.set i o) 0).toNat % 16 * 4 = p.layout.payloadStart
    rw [hsame 0 (by omega), hstart]
  · rw [isFragment, hl] at hwhole
    show (Layout.fragmentV4 (p.bytes.set i o)).isSome = false
    rw [Layout.fragmentV4_congr fun n hn => hsame n (by omega)]
    exact hwhole

theorem exists_altered_v6 (hp : WholeV6 p) (hwhole : p.isFragment = false)
    (hi : p.layout.payloadStart ≤ i ∨ 8 ≤ i ∧ i < ipv6HeaderLength) (o : UInt8) :
    ∃ q, parse (p.bytes.set i o) = .ok q ∧ Altered p i o q := by
  have h40 : ipv6HeaderLength = 40 := rfl
  have hmin := hp.min
  have hends := hp.ends
  have hindex := hp.index
  have hsplits := hp.splits
  obtain ⟨hext, hfrag⟩ : Protocol.isExtension p.protocol = false ∧
      p.protocol ≠ Protocol.fragment := hp.walks.protocol_of_whole hwhole
  -- The walk reads the first eight octets and the extension headers.
  have hsame : ∀ n, n < 8 ∨ 40 ≤ n ∧ n < p.layout.payloadStart →
      Bytes.octet (p.bytes.set i o) n = p.bytes.octet n := fun n hn =>
    Bytes.octet_set_of_ne (by omega) o
  have hd : declaredLength (p.bytes.set i o) = .ok (p.bytes.set i o).length := by
    rw [declaredLength_congr List.length_set fun n hn => hsame n (by omega), p.declared,
      List.length_set]
  have hwalk : Layout.walk (p.bytes.set i o) (Bytes.octet (p.bytes.set i o) 6) 6
      ipv6HeaderLength = _ :=
    hp.walks.walk_eq rfl (by omega) (by rw [List.length_set]; omega) fun n hn hlt _ =>
      hsame n (by omega)
  rw [hsame p.layout.nextHeaderIndex (by omega), hp.named, walk_ending _ _ _ hext hfrag] at hwalk
  have hread : Layout.read (p.bytes.set i o) = .ok (Layout.endingAt (p.bytes.set i o)
      p.layout.nextHeaderIndex p.layout.headerLength p.protocol p.layout.headerLength none) := by
    rw [Layout.read, hsame 0 (by omega), hp.version, if_neg (by decide), hwalk]
    rfl
  exact ⟨_, parse_eq_ok hd hread, rfl, hp.walks.family.1.symm, rfl, hends, rfl⟩

/-- The octets with another one in such a place are a packet. -/
theorem exists_altered (hwhole : p.isFragment = false) (hi : p.Guarded i) (o : UInt8) :
    ∃ q, parse (p.bytes.set i o) = .ok q ∧ Altered p i o q := by
  rcases p.layout_cases with ⟨hv, hl⟩ | ⟨-, hwalks⟩
  · have hfamily : p.family = .ipv4 := by rw [family, hl]; rfl
    refine exists_altered_v4 hv hl hwhole (hi.2.resolve_right fun h => ?_) o
    rw [hfamily] at h
    cases h.1
  · exact exists_altered_v6 (wholeV6 hwalks.family.1 hwhole) hwhole
      (hi.2.imp_right And.right) o

namespace Altered

theorem length (h : Altered p i o q) : q.length = p.length := by
  rw [Packet.length, Packet.length, h.bytes, List.length_set]

theorem length_payload (h : Altered p i o q) : q.payload.length = p.payload.length := by
  rw [payload, payload, List.length_drop, List.length_drop, h.payloadStart, h.bytes,
    List.length_set]

/-- A replaced octet of the payload. -/
theorem payload_eq_set (h : Altered p i o q) (hi : p.layout.payloadStart ≤ i) :
    q.payload = p.payload.set (i - p.layout.payloadStart) o := by
  rw [payload, payload, h.payloadStart, h.bytes, List.drop_set, if_neg (Nat.not_lt.mpr hi)]

/-- A replaced octet in front of the payload. -/
theorem payload_eq (h : Altered p i o q) (hi : i < p.layout.payloadStart) :
    q.payload = p.payload := by
  rw [payload, payload, h.payloadStart, h.bytes, List.drop_set, if_pos hi]

end Altered

end Packet

end MulticastTunnel
