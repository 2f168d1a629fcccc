import MulticastTunnel.Packet.Fragmentation
import MulticastTunnel.Proofs.Packet.Headers

/-!
# Rebuilt packets

A packet that is rebuilt has the header of the first fragment, without what only
a fragment has, and the payload behind it. In IPv4 nothing in the payload can make
it a fragment again. In IPv6 the payload goes on with the chain of headers, and
may lead to another fragment header.
-/

namespace MulticastTunnel.Packet

variable {p q first : Packet} {d header payload : Bytes} {n : Nat}

/-- What is parsed has the octets that the header declares. -/
theorem bytes_of_parse (h : parse d = .ok q) :
    ∃ n, declaredLength d = .ok n ∧ q.bytes = d.take n := by
  rw [parse] at h
  split at h
  · cases h
  · next n hn =>
    split at h
    · cases h
    · cases h
      exact ⟨n, hn, rfl⟩

theorem parse_of_declaredLength {e : PacketError} (h : declaredLength d = .error e) :
    parse d = .error e := by
  rw [parse]
  split
  · next h' => rw [Except.error.inj (h'.symm.trans h)]
  · next h' => cases h'.symm.trans h

theorem parse_eq_error {e : PacketError} (hd : declaredLength d = .ok n)
    (hl : Layout.read (d.take n) = .error e) : parse d = .error e := by
  rw [parse]
  split
  · next h =>
    rw [hd] at h
    cases h
  · next m h =>
    cases Except.ok.inj (hd.symm.trans h)
    split
    · next h' => rw [Except.error.inj (h'.symm.trans hl)]
    · next h' =>
      rw [hl] at h'
      cases h'

/-! ## Lengths -/

/-- Where the header of an IPv4 packet ends. -/
theorem headerLength_v4 (p : Packet) (hv : (p.bytes.octet 0).toNat / 16 = 4) :
    ipv4HeaderLength ≤ (p.bytes.octet 0).toNat % 16 * 4 ∧
      (p.bytes.octet 0).toNat % 16 * 4 ≤ p.bytes.length := by
  have h := p.declared
  simp only [declaredLength, hv, if_true] at h
  repeat' split at h
  all_goals first | cases h | skip
  have htotal := Except.ok.inj h
  omega

/-- An IPv4 header declares the length of the packet. -/
theorem length_v4 (p : Packet) (hv : (p.bytes.octet 0).toNat / 16 = 4) :
    p.bytes.length = p.bytes.word16 2 := by
  have h := p.declared
  simp only [declaredLength, hv, if_true] at h
  repeat' split at h
  all_goals first | cases h | skip
  exact (Except.ok.inj h).symm

/-- An IPv6 header declares the length of the packet. -/
theorem length_v6 (p : Packet) (hv : (p.bytes.octet 0).toNat / 16 ≠ 4) :
    (p.bytes.octet 0).toNat / 16 = 6 ∧
      p.bytes.length = ipv6HeaderLength + p.bytes.word16 4 := by
  have h := p.declared
  simp only [declaredLength, hv, if_false] at h
  repeat' split at h
  all_goals first | cases h | skip
  exact ⟨by assumption, (Except.ok.inj h).symm⟩

theorem headerLength_le (p : Packet) : p.layout.headerLength ≤ p.bytes.length := by
  rcases p.layout_cases with ⟨hv, hl⟩ | ⟨hv, hwalk⟩
  · rw [hl]
    exact (p.headerLength_v4 hv).2
  · have hend := hwalk.bounds.2.1
    have hlong := (p.length_v6 hv).2
    omega

theorem length_header (p : Packet) : p.header.length = p.layout.headerLength := by
  rw [header, List.length_take, Nat.min_eq_left p.headerLength_le]

theorem payloadStart_le (p : Packet) : p.layout.payloadStart ≤ p.bytes.length := by
  rcases p.layout_cases with ⟨hv, hl⟩ | ⟨hv, hwalk⟩
  · rw [hl]
    exact (p.headerLength_v4 hv).2
  · have hstart := hwalk.payloadStart_le
    have hlong := (p.length_v6 hv).2
    omega

/-- No packet is longer than the length fields of its header can tell. -/
theorem length_le (p : Packet) : p.bytes.length ≤ 65575 := by
  rcases p.layout_cases with ⟨hv, -⟩ | ⟨hv, -⟩
  · have hlong := p.length_v4 hv
    have hword := p.bytes.word16_lt 2
    omega
  · have hlong := (p.length_v6 hv).2
    have hword := p.bytes.word16_lt 4
    have h40 : ipv6HeaderLength = 40 := rfl
    omega

theorem length_payload_le (p : Packet) : p.payload.length ≤ 65575 := by
  have hlong := p.length_le
  rw [payload, List.length_drop]
  omega

/-! ## IPv4 -/

theorem length_sealHeader (hl : ipv4HeaderLength ≤ header.length) :
    (sealHeader header).length = header.length := by
  have h20 : ipv4HeaderLength = 20 := rfl
  have hblank : (header.overwrite 10 [0, 0]).length = header.length :=
    Bytes.length_overwrite (by simp only [List.length_cons, List.length_nil]; omega)
  rw [sealHeader, Bytes.length_overwrite (by rw [Bytes.length_ofWord16]; omega), hblank]

/-- Sealing a header changes no octet but the checksum. -/
theorem octet_sealHeader (hl : ipv4HeaderLength ≤ header.length) (hn : n < 10 ∨ 12 ≤ n) :
    (sealHeader header).octet n = header.octet n := by
  have h20 : ipv4HeaderLength = 20 := rfl
  have hroom : 10 + ([0, 0] : Bytes).length ≤ header.length := by
    simp only [List.length_cons, List.length_nil]
    omega
  have hroom' : 10 + (Bytes.ofWord16 (Checksum.of (header.overwrite 10 [0, 0])).toNat).length ≤
      (header.overwrite 10 [0, 0]).length := by
    rw [Bytes.length_overwrite hroom]
    exact hroom
  rw [sealHeader, Bytes.octet_overwrite_of_outside hroom' hn,
    Bytes.octet_overwrite_of_outside hroom hn]

/-- The octets before the checksum are read as they were before the header was sealed. -/
theorem octet_of_parse_sealed (hl : ipv4HeaderLength ≤ header.length)
    (h : parse (sealHeader header ++ payload) = .ok q) (hn : n < 10) :
    q.bytes.octet n = header.octet n := by
  have h20 : ipv4HeaderLength = 20 := rfl
  obtain ⟨m, hm, hbytes⟩ := bytes_of_parse h
  obtain ⟨hlo, -⟩ := declaredLength_bounds hm
  rw [hbytes, Bytes.octet_take (by omega),
    Bytes.octet_append_left (by rw [length_sealHeader hl]; omega),
    octet_sealHeader hl (.inl hn)]

/-- An IPv4 packet is no fragment when its fragment field is clear but for the flag
that forbids to fragment it. -/
theorem isFragment_of_clear (hv : (q.bytes.octet 0).toNat / 16 = 4)
    (hclear : q.bytes.word16 6 = 0 ∨ q.bytes.word16 6 = 16384) : q.isFragment = false := by
  rcases q.layout_cases with ⟨-, hl⟩ | ⟨hv', -⟩
  · rw [isFragment, hl]
    rcases hclear with h | h <;> simp [Layout.readV4, Layout.fragmentV4, h]
  · exact absurd hv hv'

theorem isFragment_reassembled_v4 (hv : (first.bytes.octet 0).toNat / 16 = 4)
    (hl : first.layout = Layout.readV4 first.bytes) (h : first.reassembled payload = .ok q) :
    q.isFragment = false := by
  have hmin := (first.headerLength_v4 hv).1
  have h20 : ipv4HeaderLength = 20 := rfl
  have hfamily : first.family = .ipv4 := by rw [Packet.family, hl]; rfl
  have hlength := first.length_header
  set header := first.header with hheader
  rw [Packet.header, hl] at hheader
  rw [hl] at hlength
  change header.length = (first.bytes.octet 0).toNat % 16 * 4 at hlength
  have hversion : header.octet 0 = first.bytes.octet 0 := by
    rw [hheader]
    exact Bytes.octet_take (show 0 < (first.bytes.octet 0).toNat % 16 * 4 by omega)
  simp only [reassembled, hfamily] at h
  split at h
  · cases h
  set sized := header.overwrite 2 (.ofWord16 (header.length + payload.length)) with hsized
  have hlsized : sized.length = header.length :=
    Bytes.length_overwrite (by rw [Bytes.length_ofWord16]; omega)
  set flags := header.word16 6 / 16384 % 2 * 16384 with hflags
  set cleared := sized.overwrite 6 (.ofWord16 flags) with hcleared
  have hlcleared : cleared.length = header.length := by
    rw [hcleared, Bytes.length_overwrite (by rw [Bytes.length_ofWord16]; omega), hlsized]
  have hread : ∀ i < 10, q.bytes.octet i = cleared.octet i := fun i hi =>
    octet_of_parse_sealed (by omega) h hi
  -- The version and the fragment field stand before the checksum, so they are read as written.
  refine isFragment_of_clear ?_ ?_
  · rw [hread 0 (by omega), hcleared,
      Bytes.octet_overwrite_of_outside (by rw [Bytes.length_ofWord16]; omega) (.inl (by omega)),
      hsized,
      Bytes.octet_overwrite_of_outside (by rw [Bytes.length_ofWord16]; omega) (.inl (by omega)),
      hversion]
    exact hv
  · rw [Bytes.word16_congr fun i _ hi => hread i (by omega), hcleared,
      Bytes.word16_overwrite (by omega)]
    omega

/-! ## IPv6 -/

theorem declaredLength_v6_of_le (hv : (d.octet 0).toNat / 16 = 6)
    (hlen : ipv6HeaderLength + d.word16 4 ≤ d.length) :
    declaredLength d = .ok (ipv6HeaderLength + d.word16 4) := by
  have h40 : ipv6HeaderLength = 40 := rfl
  have hpos : ¬ d.length = 0 := by omega
  have hmin : ¬ d.length < ipv6HeaderLength := by omega
  simp only [declaredLength, hv, hpos, hmin, Nat.not_lt.mpr hlen, if_true, if_false, or_self,
    show ¬ 6 = 4 by decide]

theorem declaredLength_v6 (hv : (d.octet 0).toNat / 16 = 6)
    (hlen : d.length = ipv6HeaderLength + d.word16 4) : declaredLength d = .ok d.length := by
  rw [declaredLength_v6_of_le hv (Nat.le_of_eq hlen.symm), ← hlen]

/-- Octets with the header of an IPv6 fragment in front of the payload. The header
declares their length, and the octet that named the fragment header names what the
fragment header did. -/
structure Rewrites (first : Packet) (payload d : Bytes) : Prop where
  declared : declaredLength d = .ok d.length
  keeps : ∀ i < first.layout.headerLength, i ≠ first.layout.nextHeaderIndex → i < 4 ∨ 6 ≤ i →
    d.octet i = first.bytes.octet i
  named : d.octet first.layout.nextHeaderIndex = first.protocol
  length : first.layout.headerLength ≤ d.length
  behind : d.drop first.layout.headerLength = payload

/-- What a packet is rebuilt from in IPv6. -/
theorem exists_rewrites (hv : (first.bytes.octet 0).toNat / 16 ≠ 4)
    (hwalk : Layout.Walks first.bytes (first.bytes.octet 6) 6 ipv6HeaderLength first.layout)
    (h : first.reassembled payload = .ok q) : ∃ d, Rewrites first payload d ∧ parse d = .ok q := by
  obtain ⟨hmin, -, hindex⟩ := hwalk.bounds
  obtain ⟨hversion, hlong⟩ := first.length_v6 hv
  have h40 : ipv6HeaderLength = 40 := rfl
  have hbound : maxDatagramLength = 65535 := rfl
  have hlength := first.length_header
  set header := first.header with hheader
  rw [Packet.header] at hheader
  simp only [reassembled, show first.family = .ipv6 from hwalk.family.1] at h
  split at h
  · cases h
  set total := header.length + payload.length with htotal
  set sized := header.overwrite 4 (.ofWord16 (total - ipv6HeaderLength)) with hsized
  have hlsized : sized.length = header.length :=
    Bytes.length_overwrite (by rw [Bytes.length_ofWord16]; omega)
  have hroom : first.layout.nextHeaderIndex + [first.protocol].length ≤ sized.length := by
    rw [List.length_singleton]
    omega
  set named := sized.overwrite first.layout.nextHeaderIndex [first.protocol] with hnamed
  have hlnamed : named.length = first.layout.headerLength := by
    rw [hnamed, Bytes.length_overwrite hroom, hlsized, hlength]
  have hkeeps : ∀ i < first.layout.headerLength, i ≠ first.layout.nextHeaderIndex → i < 4 ∨ 6 ≤ i →
      (named ++ payload).octet i = first.bytes.octet i := by
    intro i hi hne hout
    rw [Bytes.octet_append_left (by omega), hnamed,
      Bytes.octet_overwrite_of_outside hroom (by rw [List.length_singleton]; omega), hsized,
      Bytes.octet_overwrite_of_outside (by rw [Bytes.length_ofWord16]; omega)
        (by rw [Bytes.length_ofWord16]; omega), hheader, Bytes.octet_take hi]
  have hword : (named ++ payload).word16 4 = total - ipv6HeaderLength := by
    have hsame : (named ++ payload).word16 4 = sized.word16 4 := by
      refine Bytes.word16_congr fun i hlo hhi => ?_
      rw [Bytes.octet_append_left (by omega), hnamed,
        Bytes.octet_overwrite_of_outside hroom (.inl (by omega))]
    rw [hsame, hsized, Bytes.word16_overwrite (by omega)]
    omega
  refine ⟨named ++ payload, ⟨?_, hkeeps, ?_, ?_, ?_⟩, h⟩
  · have hzero := hkeeps 0 (by omega) (by omega) (.inl (by omega))
    exact declaredLength_v6 (by rw [hzero, hversion]) (by rw [hword, List.length_append]; omega)
  · rw [Bytes.octet_append_left (by omega), hnamed, Bytes.octet_overwrite hroom,
      if_pos (by rw [List.length_singleton]; omega), Nat.sub_self]
    rfl
  · rw [List.length_append]
    omega
  · rw [← hlnamed, List.drop_left]

/-- The walk over the rebuilt packet comes to the end of the repeated header, and
goes on in the payload. -/
theorem isFragment_reassembled_v6 (hv : (first.bytes.octet 0).toNat / 16 ≠ 4)
    (hwalk : Layout.Walks first.bytes (first.bytes.octet 6) 6 ipv6HeaderLength first.layout)
    (h : first.reassembled payload = .ok q) :
    q.isFragment = true ↔ Nests first.protocol payload := by
  have h40 : ipv6HeaderLength = 40 := rfl
  obtain ⟨hmin, -, hindex⟩ := hwalk.bounds
  obtain ⟨d, hd, hparse⟩ := exists_rewrites hv hwalk h
  obtain ⟨n, hn, hbytes⟩ := bytes_of_parse hparse
  rw [hd.declared] at hn
  cases Except.ok.inj hn
  rw [List.take_length] at hbytes
  have hzero := hd.keeps 0 (by omega) (by omega) (.inl (by omega))
  -- The length, which was rewritten, lies before the extension headers. The walk does
  -- not read it.
  have hread := q.laidOut
  rw [hbytes, Layout.read, hzero, if_neg hv,
    hwalk.walk_eq rfl (by omega) hd.length
      fun i hi hlt hne => hd.keeps i hlt hne (by omega), hd.named] at hread
  have hiff := (Layout.walks_of_walk hread).isSome_fragment_iff
  rwa [hd.behind] at hiff

/-- **What is rebuilt** is whole in IPv4. In IPv6 it is a fragment when the header that the
fragment header named leads to another fragment header in the payload. -/
theorem isFragment_reassembled_iff (h : first.reassembled payload = .ok q) :
    q.isFragment = true ↔ first.family = .ipv6 ∧ Nests first.protocol payload := by
  rcases first.layout_cases with ⟨hv, hl⟩ | ⟨hv, hwalk⟩
  · have hfamily : first.family = .ipv4 := by rw [Packet.family, hl]; rfl
    rw [isFragment_reassembled_v4 hv hl h, hfamily]
    simp
  · rw [isFragment_reassembled_v6 hv hwalk h]
    exact (and_iff_right hwalk.family.1).symm

end MulticastTunnel.Packet
