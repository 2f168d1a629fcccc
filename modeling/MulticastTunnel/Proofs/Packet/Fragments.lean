import MulticastTunnel.Proofs.Checksum
import MulticastTunnel.Proofs.Packet.Build
import MulticastTunnel.Proofs.Packet.Rebuilt

/-!
# Single fragments

The octets that are made for a piece of a payload parse to a fragment that carries this piece,
if its length field can hold the length. `Carries` says in what such a fragment is like the
packet it was made from. The packet is rebuilt from the first of them: in IPv6 as it was, in
IPv4 with another identification, without flags, and with a checksum of its own.
-/

namespace MulticastTunnel

namespace Layout.Walks

variable {d : Bytes} {next : UInt8} {named here : Nat} {l : Layout}

theorem destination (h : Walks d next named here l) :
    l.destination = .read .ipv6 (d.drop 24) := by
  induction h with
  | past _ _ _ ih => exact ih
  | fragment => rfl
  | ending => rfl

/-- A walk that goes past a header came to an extension header. -/
theorem isExtension_of_ne (h : Walks d next named here l) (hne : l.nextHeaderIndex ≠ named) :
    Protocol.isExtension next = true := by
  cases h with
  | past hext _ _ => exact hext
  | fragment => exact absurd rfl hne
  | ending => exact absurd rfl hne

end Layout.Walks

/-- The walk ends with a fragment header. -/
theorem Layout.walk_fragment {d : Bytes} {named here : Nat}
    (h : here + fragmentHeaderLength ≤ d.length) :
    walk d Protocol.fragment named here =
      .ok (endingAt d named here (d.octet here) (here + fragmentHeaderLength)
        (some ⟨d.word16 (here + 2) / 8, d.word16 (here + 2) % 2 = 1,
          .ofNat (d.word32 (here + 4))⟩)) := by
  rw [walk, if_neg (by decide), if_pos rfl, if_neg (Nat.not_lt.mpr h)]
  rfl

/-- Octets too few for the header at hand are no packet. -/
theorem Layout.walk_short {d : Bytes} {next : UInt8} {named here : Nat}
    (hnext : Protocol.isExtension next = true ∨ next = Protocol.fragment)
    (h : d.length < here + 8) : walk d next named here = .error .malformedExtension := by
  rw [walk]
  rcases hnext with hext | rfl
  · rw [if_pos hext]
    split
    · rfl
    · dsimp only
      rw [if_pos (by omega)]
  · rw [if_neg (by decide), if_pos rfl]
    exact if_pos h

namespace Packet

variable {p q f : Packet} {identification : UInt32} {piece : Piece}

/-- The identification that fragments of a family carry. IPv4 has sixteen bits for it. -/
def identified (family : Family) (identification : UInt32) : UInt32 :=
  match family with
  | .ipv4 => .ofNat (identification.toNat % 65536)
  | .ipv6 => identification

/-- The octets of a header that are written anew for each fragment: the lengths, and what tells
fragments apart. -/
def rewritten (p : Packet) : List Nat :=
  match p.family with
  | .ipv4 => [2, 3, 4, 5, 6, 7, 10, 11]
  | .ipv6 => [4, 5, p.layout.nextHeaderIndex]

theorem rewritten_v4 (h : p.family = .ipv4) : p.rewritten = [2, 3, 4, 5, 6, 7, 10, 11] := by
  rw [rewritten, h]

theorem rewritten_v6 (h : p.family = .ipv6) : p.rewritten = [4, 5, p.layout.nextHeaderIndex] := by
  rw [rewritten, h]

/-- A fragment of `p` with a piece of its payload. -/
structure Carries (p : Packet) (identification : UInt32) (piece : Piece) (f : Packet) :
    Prop where
  family : f.family = p.family
  source : f.source = p.source
  destination : f.destination = p.destination
  protocol : f.protocol = p.protocol
  info : f.fragmentInfo =
    some ⟨piece.start / 8, piece.more, identified p.family identification⟩
  payload : f.payload = piece.data
  headerLength : f.layout.headerLength = p.layout.payloadStart
  named : f.layout.nextHeaderIndex = p.layout.nextHeaderIndex
  keeps : ∀ i < p.layout.payloadStart, i ∉ p.rewritten → f.bytes.octet i = p.bytes.octet i
  sealed : p.family = .ipv4 → Checksum.of f.header = 0 ∧
    f.bytes.word16 4 = identification.toNat % 65536 ∧ f.bytes.word16 6 < 16384

/-- The packet with another identification, without flags, and with the right checksum. -/
structure Renumbered (p : Packet) (identification : UInt32) (q : Packet) : Prop where
  length : q.length = p.length
  keeps : ∀ i, i ∉ [4, 5, 6, 10, 11] → q.bytes.octet i = p.bytes.octet i
  numbered : q.bytes.word16 4 = identification.toNat % 65536
  /-- The flags are the upper bits of the octet; the others are of the offset. -/
  flags : (q.bytes.octet 6).toNat / 32 = 0
  offset : (q.bytes.octet 6).toNat % 32 = (p.bytes.octet 6).toNat % 32
  sealed : Checksum.of q.header = 0

/-! ## IPv4 -/

/-- A sealed header has checksum zero. -/
theorem checksum_sealHeader {header : Bytes} (hl : ipv4HeaderLength ≤ header.length) :
    Checksum.of (sealHeader header) = 0 := by
  have h20 : ipv4HeaderLength = 20 := rfl
  have hroom : 10 + ([0, 0] : Bytes).length ≤ header.length := by
    simp only [List.length_cons, List.length_nil]
    omega
  have hlen := Bytes.length_overwrite hroom
  have hzero : ∀ n, n = 10 ∨ n = 11 → (header.overwrite 10 [0, 0]).octet n = 0 := by
    rintro n (rfl | rfl) <;> rw [Bytes.octet_overwrite hroom] <;> rfl
  exact Checksum.finish_add_overwrite rfl rfl (by omega) (hzero 10 (.inl rfl)) (hzero 11 (.inr rfl))

/-- A header that declares itself and the data behind it parses. -/
theorem exists_parse_v4 (header data : Bytes) (hv : (header.octet 0).toNat / 16 = 4)
    (hself : header.length = (header.octet 0).toNat % 16 * 4)
    (hmin : ipv4HeaderLength ≤ header.length)
    (htotal : header.word16 2 = header.length + data.length) :
    ∃ q, parse (header ++ data) = .ok q ∧ q.bytes = header ++ data ∧
      q.layout = Layout.readV4 (header ++ data) ∧ q.header = header ∧ q.payload = data := by
  have h20 : ipv4HeaderLength = 20 := rfl
  have h0 : (header ++ data).octet 0 = header.octet 0 := Bytes.octet_append_left (by omega)
  have h2 : (header ++ data).word16 2 = header.word16 2 := Bytes.word16_append_left (by omega)
  have hlen : (header ++ data).length = header.length + data.length := List.length_append
  have hd : declaredLength (header ++ data) = .ok (header ++ data).length := by
    have hpos : ¬ (header ++ data).length = 0 := by omega
    have hshort : ¬ (header ++ data).length < ipv4HeaderLength := by omega
    have hbad : ¬ (header.length < ipv4HeaderLength ∨
        (header ++ data).length < header.length) := by omega
    simp only [declaredLength, h0, h2, hv, if_true, if_neg hpos, if_neg hshort, ← hself, htotal,
      ← hlen, if_neg hbad, Nat.lt_irrefl, if_false]
  have hl : Layout.read (header ++ data) = .ok (Layout.readV4 (header ++ data)) := by
    rw [Layout.read, h0, if_pos hv]
  have hstart : ((header ++ data).octet 0).toNat % 16 * 4 = header.length := by rw [h0, ← hself]
  refine ⟨_, parse_eq_ok hd hl, rfl, rfl, ?_, ?_⟩
  · show (header ++ data).take (((header ++ data).octet 0).toNat % 16 * 4) = header
    rw [hstart, List.take_left]
  · show (header ++ data).drop (((header ++ data).octet 0).toNat % 16 * 4) = data
    rw [hstart, List.drop_left]

/-- What there is to know about the header of an IPv4 packet. -/
theorem header_v4 (hv : (p.bytes.octet 0).toNat / 16 = 4)
    (hl : p.layout = Layout.readV4 p.bytes) :
    p.layout.payloadStart = (p.bytes.octet 0).toNat % 16 * 4 ∧
      p.layout.headerLength = p.layout.payloadStart ∧
      ipv4HeaderLength ≤ p.layout.payloadStart ∧
      p.layout.payloadStart + p.payload.length = p.bytes.word16 2 := by
  obtain ⟨hmin, hmax⟩ := p.headerLength_v4 hv
  have hstart : p.layout.payloadStart = (p.bytes.octet 0).toNat % 16 * 4 := by rw [hl]; rfl
  refine ⟨hstart, by rw [hl]; rfl, by omega, ?_⟩
  rw [← p.length_v4 hv, payload, List.length_drop]
  omega

/-- Sealing a header writes its checksum anew. -/
theorem sameBut_sealHeader {header : Bytes} (hl : ipv4HeaderLength ≤ header.length) :
    Bytes.SameBut [10, 11] header (sealHeader header) where
  length := length_sealHeader hl
  octet n hn := by
    simp only [List.mem_cons, List.not_mem_nil, or_false, not_or] at hn
    exact octet_sealHeader hl (by omega)

/-- Of an IPv4 header, the length, the identification and the fragment field were written anew,
and then the checksum. -/
structure Headed (total number field : Nat) (old new : Bytes) : Prop where
  same : Bytes.SameBut [2, 3, 4, 5, 6, 7, 10, 11] old new
  total : new.word16 2 = total
  number : new.word16 4 = number
  field : new.word16 6 = field
  sealed : Checksum.of new = 0

section Headed

variable {header : Bytes} {total number field : Nat}

theorem headed_of_fragment (hmin : ipv4HeaderLength ≤ header.length) (htotal : total < 65536)
    (hfield : field < 65536) :
    Headed total (number % 65536) field header (sealHeader (((header.overwrite 2
      (.ofWord16 total)).overwrite 4 (.ofWord16 number)).overwrite 6 (.ofWord16 field))) := by
  have h20 : ipv4HeaderLength = 20 := rfl
  have h₂ := Bytes.sameBut_overwrite16 (b := header) (i := 2) (by omega) total
  have hlen₂ := h₂.length
  have h₄ := Bytes.sameBut_overwrite16 (b := header.overwrite 2 (.ofWord16 total)) (i := 4)
    (by omega) number
  have hlen₄ := h₄.length
  have h₆ := Bytes.sameBut_overwrite16 (i := 6) (b := (header.overwrite 2
    (.ofWord16 total)).overwrite 4 (.ofWord16 number)) (by omega) field
  have hlen₆ := h₆.length
  have hmin' : ipv4HeaderLength ≤ (((header.overwrite 2 (.ofWord16 total)).overwrite 4
    (.ofWord16 number)).overwrite 6 (.ofWord16 field)).length := by omega
  have hs := sameBut_sealHeader hmin'
  refine ⟨((h₂.trans h₄).trans h₆).trans hs, ?_, ?_, ?_, checksum_sealHeader hmin'⟩
  · rw [hs.word16 (by decide) (by decide), h₆.word16 (by decide) (by decide),
      h₄.word16 (by decide) (by decide), Bytes.word16_overwrite (by omega), Nat.mod_eq_of_lt htotal]
  · rw [hs.word16 (by decide) (by decide), h₆.word16 (by decide) (by decide),
      Bytes.word16_overwrite (by omega)]
  · rw [hs.word16 (by decide) (by decide), Bytes.word16_overwrite (by omega),
      Nat.mod_eq_of_lt hfield]

/-- A packet that is rebuilt keeps the identification. -/
theorem headed_of_rebuilt (hmin : ipv4HeaderLength ≤ header.length) (htotal : total < 65536)
    (hfield : field < 65536) :
    Headed total (header.word16 4) field header (sealHeader ((header.overwrite 2
      (.ofWord16 total)).overwrite 6 (.ofWord16 field))) := by
  have h20 : ipv4HeaderLength = 20 := rfl
  have h₂ := Bytes.sameBut_overwrite16 (b := header) (i := 2) (by omega) total
  have hlen₂ := h₂.length
  have h₆ := Bytes.sameBut_overwrite16 (b := header.overwrite 2 (.ofWord16 total)) (i := 6)
    (by omega) field
  have hlen₆ := h₆.length
  have hmin' : ipv4HeaderLength ≤ ((header.overwrite 2 (.ofWord16 total)).overwrite 6
    (.ofWord16 field)).length := by omega
  have hs := sameBut_sealHeader hmin'
  have hsame := (h₂.trans h₆).trans hs
  refine ⟨⟨hsame.length, fun n hn => hsame.octet n ?_⟩, ?_, ?_, ?_, checksum_sealHeader hmin'⟩
  · simp only [List.cons_append, List.nil_append, List.mem_cons, List.not_mem_nil, or_false]
      at hn ⊢
    omega
  · rw [hs.word16 (by decide) (by decide), h₆.word16 (by decide) (by decide),
      Bytes.word16_overwrite (by omega), Nat.mod_eq_of_lt htotal]
  · exact hsame.word16 (by decide) (by decide)
  · rw [hs.word16 (by decide) (by decide), Bytes.word16_overwrite (by omega),
      Nat.mod_eq_of_lt hfield]

end Headed

/-- The fragment field is read as it was written. -/
theorem fragmentV4_eq {d : Bytes} {unit : Nat} {more : Bool} (hunit : unit < 8192)
    (hfield : d.word16 6 = unit + if more then 8192 else 0) (hpart : more = true ∨ 0 < unit) :
    Layout.fragmentV4 d = some ⟨unit, more, .ofNat (d.word16 4)⟩ := by
  have hmore : decide (d.word16 6 / 8192 % 2 = 1) = more := by
    rw [hfield]
    cases more with
    | true => exact decide_eq_true (by rw [if_pos rfl]; omega)
    | false => exact decide_eq_false (by rw [if_neg Bool.false_ne_true]; omega)
  have hoffset : d.word16 6 % 8192 = unit := by
    rw [hfield]
    split <;> omega
  have hcond : d.word16 6 / 8192 % 2 = 1 ∨ unit ≠ 0 := by
    rcases hpart with h | h
    · exact .inl (of_decide_eq_true (hmore.trans h))
    · exact .inr (Nat.ne_of_gt h)
  simp only [Layout.fragmentV4, hoffset, if_pos hcond, hmore]

/-- A packet behind whose header other data stands, with a header that says so. -/
theorem Headed.exists_parse {total number field : Nat} {new : Bytes} (data : Bytes)
    (hv : (p.bytes.octet 0).toNat / 16 = 4) (hl : p.layout = Layout.readV4 p.bytes)
    (h : Headed total number field (p.bytes.take p.layout.payloadStart) new)
    (htotal : total = p.layout.payloadStart + data.length) :
    ∃ q, parse (new ++ data) = .ok q ∧ q.bytes = new ++ data ∧
      q.layout = { p.layout with fragment := Layout.fragmentV4 q.bytes } ∧ q.header = new ∧
      q.payload = data ∧ new.length = p.layout.payloadStart ∧
      ∀ i < p.layout.payloadStart, i ∉ [2, 3, 4, 5, 6, 7, 10, 11] →
        new.octet i = p.bytes.octet i := by
  obtain ⟨hstart, -, hmin, -⟩ := header_v4 hv hl
  have hmax := (p.headerLength_v4 hv).2
  have h20 : ipv4HeaderLength = 20 := rfl
  have hlen : new.length = p.layout.payloadStart := by
    rw [h.same.length, List.length_take]
    omega
  have hkeeps : ∀ i < p.layout.payloadStart, i ∉ [2, 3, 4, 5, 6, 7, 10, 11] →
      new.octet i = p.bytes.octet i := fun i hi hnot => by
    rw [h.same.octet i hnot, Bytes.octet_take hi]
  have h0 := hkeeps 0 (by omega) (by decide)
  obtain ⟨q, hq, hbytes, hlayout, hheader, hpayload⟩ := exists_parse_v4 new data
    (by rw [h0, hv]) (by rw [h0, hlen, hstart]) (by omega) (by rw [h.total, htotal, hlen])
  refine ⟨q, hq, hbytes, ?_, hheader, hpayload, hlen, hkeeps⟩
  have hread : ∀ i < p.layout.payloadStart, i ∉ [2, 3, 4, 5, 6, 7, 10, 11] →
      (new ++ data).octet i = p.bytes.octet i := fun i hi hnot => by
    rw [Bytes.octet_append_left (by omega), hkeeps i hi hnot]
  -- The octets of the layout, but for the fragment field, are none of those that changed.
  have haddress : ∀ n, 12 ≤ n → n + 4 ≤ 20 →
      Address.read .ipv4 ((new ++ data).drop n) = .read .ipv4 (p.bytes.drop n) := by
    intro n hlo hhi
    refine Address.read_congr .ipv4 fun i hi => ?_
    simp only [Family.addressLength] at hi
    rw [Bytes.octet_drop, Bytes.octet_drop, hread _ (by omega) (by
      simp only [List.mem_cons, List.not_mem_nil, or_false]
      omega)]
  rw [hlayout, hl, hbytes]
  simp only [Layout.readV4, hread 0 (by omega) (by decide), hread 9 (by omega) (by decide),
    haddress 12 (by omega) (by omega), haddress 16 (by omega) (by omega)]

/-- A piece of the payload of an IPv4 packet that is not all of it makes a fragment. -/
theorem exists_fragment_v4 (identification : UInt32) (piece : Piece)
    (hv : (p.bytes.octet 0).toNat / 16 = 4)
    (hl : p.layout = Layout.readV4 p.bytes) (hunit : piece.start % 8 = 0)
    (hend : piece.start + piece.data.length ≤ p.payload.length)
    (hpart : piece.more = true ∨ 0 < piece.start) :
    ∃ f, parse (p.fragmentOctets identification piece) = .ok f ∧
      Carries p identification piece f := by
  obtain ⟨hstart, hlength, hmin, htotal⟩ := header_v4 hv hl
  have hmax := p.bytes.word16_lt 2
  have h20 : ipv4HeaderLength = 20 := rfl
  have hunits : piece.start / 8 < 8192 := by omega
  have hfamily : p.family = .ipv4 := by rw [Packet.family, hl]; rfl
  set header : Bytes := p.bytes.take p.layout.payloadStart with hheader
  have hlen : header.length = p.layout.payloadStart := by
    rw [hheader, List.length_take, Nat.min_eq_left p.payloadStart_le]
  set field := piece.start / 8 + if piece.more then 8192 else 0 with hfield
  have hfieldlt : field < 16384 := by
    rw [hfield]
    split <;> omega
  have h := @headed_of_fragment header (header.length + piece.data.length) identification.toNat
    field (by omega) (by omega) (by omega)
  have hoctets : p.fragmentOctets identification piece = sealHeader (((header.overwrite 2
      (.ofWord16 (header.length + piece.data.length))).overwrite 4
        (.ofWord16 identification.toNat)).overwrite 6 (.ofWord16 field)) ++ piece.data := by
    simp only [fragmentOctets, hfamily, Nat.mod_eq_of_lt hunits, hfield, hheader]
  set new := sealHeader (((header.overwrite 2 (.ofWord16 (header.length +
    piece.data.length))).overwrite 4 (.ofWord16 identification.toNat)).overwrite 6
      (.ofWord16 field))
  obtain ⟨f, hf, hbytes, hlayout, hfheader, hfpayload, hnew, hkeeps⟩ :=
    h.exists_parse piece.data hv hl (by rw [hlen])
  have hword₆ : f.bytes.word16 6 = field := by
    rw [hbytes, Bytes.word16_append_left (by omega), h.field]
  have hword₄ : f.bytes.word16 4 = identification.toNat % 65536 := by
    rw [hbytes, Bytes.word16_append_left (by omega), h.number]
  have hinfo := @fragmentV4_eq f.bytes _ piece.more hunits (hword₆.trans hfield)
    (hpart.imp_right fun _ => by omega)
  refine ⟨f, by rw [hoctets, hf], ?_⟩
  constructor
  · rw [Packet.family, Packet.family, hlayout]
  · rw [source, source, hlayout]
  · rw [destination, destination, hlayout]
  · rw [protocol, protocol, hlayout]
  · rw [fragmentInfo, hlayout, hfamily, identified, ← hword₄]
    exact hinfo
  · exact hfpayload
  · rw [hlayout]
    exact hlength
  · rw [hlayout]
  · intro i hi hnot
    rw [rewritten_v4 hfamily] at hnot
    rw [hbytes, Bytes.octet_append_left (by omega), hkeeps i hi hnot]
  · intro _
    rw [hfheader, hword₄, hword₆]
    exact ⟨h.sealed, rfl, hfieldlt⟩

/-- The field of a whole packet holds flags and no offset. -/
theorem word16_of_whole_v4 (hl : p.layout = Layout.readV4 p.bytes)
    (hwhole : p.isFragment = false) : p.bytes.word16 6 % 8192 = 0 := by
  by_contra hne
  have hsome : Layout.fragmentV4 p.bytes ≠ none := by
    simp only [Layout.fragmentV4]
    rw [if_pos (.inr hne)]
    exact Option.some_ne_none _
  rw [isFragment, hl] at hwhole
  exact hsome (Option.isSome_eq_false_iff.mp hwhole |> Option.isNone_iff_eq_none.mp)

theorem Carries.layout_v4 (h : Carries p identification piece f)
    (hv : (p.bytes.octet 0).toNat / 16 = 4) (hl : p.layout = Layout.readV4 p.bytes) :
    (f.bytes.octet 0).toNat / 16 = 4 ∧ f.layout = Layout.readV4 f.bytes := by
  obtain ⟨-, -, hmin, -⟩ := header_v4 hv hl
  have h20 : ipv4HeaderLength = 20 := rfl
  have hfamily : p.family = .ipv4 := by rw [Packet.family, hl]; rfl
  have hkeeps := h.keeps
  rw [rewritten_v4 hfamily] at hkeeps
  have hfv : (f.bytes.octet 0).toNat / 16 = 4 := by
    rw [hkeeps 0 (by omega) (by decide), hv]
  rcases f.layout_cases with hf | ⟨hn, -⟩
  · exact hf
  · exact absurd hfv hn

/-- What an IPv4 packet is rebuilt from. The header has no flags left, for the only one that a
fragment has tells whether more of them follow. -/
theorem Carries.reassembled_v4 (h : Carries p identification piece f)
    (hv : (p.bytes.octet 0).toNat / 16 = 4) (hl : p.layout = Layout.readV4 p.bytes) :
    ∃ new, f.reassembled p.payload = parse (new ++ p.payload) ∧
      Headed (p.bytes.word16 2) (identification.toNat % 65536) 0 f.header new := by
  obtain ⟨-, -, hmin, htotal⟩ := header_v4 hv hl
  have h20 : ipv4HeaderLength = 20 := rfl
  have hmax := p.bytes.word16_lt 2
  have hfamily : p.family = .ipv4 := by rw [Packet.family, hl]; rfl
  have hffamily : f.family = .ipv4 := h.family.trans hfamily
  obtain ⟨-, hnumber, hfield⟩ := h.sealed hfamily
  have hlen : f.header.length = p.layout.payloadStart :=
    f.length_header.trans h.headerLength
  have hword : ∀ i, i + 2 ≤ 20 → f.header.word16 i = f.bytes.word16 i := fun i hi =>
    Bytes.word16_congr fun n _ hn => by
      rw [header, h.headerLength, Bytes.octet_take (by omega)]
  have hflags : f.header.word16 6 / 16384 % 2 * 16384 = 0 := by
    rw [hword 6 (by omega)]
    omega
  have hsmall : ¬ maxDatagramLength < f.header.length + p.payload.length := by
    simp only [maxDatagramLength]
    omega
  have hheaded := @headed_of_rebuilt f.header (f.header.length + p.payload.length) 0 (by omega)
    (by omega) (by decide)
  rw [hword 4 (by omega), hnumber, show f.header.length + p.payload.length = p.bytes.word16 2 by
    omega] at hheaded
  refine ⟨_, ?_, hheaded⟩
  simp only [reassembled, hffamily, if_neg hsmall, hflags]
  rw [show f.header.length + p.payload.length = p.bytes.word16 2 by omega]

/-- A new header in front of the payload changes no more than the identification, the flags and
the checksum. -/
theorem renumbered_of_headed {header new : Bytes} (hl : p.layout = Layout.readV4 p.bytes)
    (hv : (p.bytes.octet 0).toNat / 16 = 4) (hwhole : p.isFragment = false)
    (h : Headed (p.bytes.word16 2) (identification.toNat % 65536) 0 header new)
    (hlen : new.length = p.layout.payloadStart)
    (hkeeps : ∀ i < p.layout.payloadStart, i ∉ [2, 3, 4, 5, 6, 7, 10, 11] →
      new.octet i = p.bytes.octet i)
    (hbytes : q.bytes = new ++ p.payload) (hheader : q.header = new) :
    p.Renumbered identification q := by
  obtain ⟨-, -, hmin, htotal⟩ := header_v4 hv hl
  have h20 : ipv4HeaderLength = 20 := rfl
  have hword : ∀ i, i + 2 ≤ 20 → q.bytes.word16 i = new.word16 i := fun i hi => by
    rw [hbytes, Bytes.word16_append_left (by omega)]
  have hclear := word16_of_whole_v4 hl hwhole
  have hp₇ := (p.bytes.octet 7).toNat_lt
  have hq₇ := (q.bytes.octet 7).toNat_lt
  have hzero : q.bytes.word16 6 = 0 := by rw [hword 6 (by omega), h.field]
  have hsize : q.bytes.word16 2 = p.bytes.word16 2 := by rw [hword 2 (by omega), h.total]
  rw [Bytes.word16, show 6 + 1 = 7 from rfl] at hclear hzero
  constructor
  · rw [length, length, hbytes, List.length_append, hlen, p.length_v4 hv]
    exact htotal
  · intro i hi
    simp only [List.mem_cons, List.not_mem_nil, or_false, not_or] at hi
    obtain ⟨h2, h3⟩ := Bytes.octet_of_word16_eq hsize
    rw [show 2 + 1 = 3 from rfl] at h3
    by_cases hlo : i < p.layout.payloadStart
    · obtain rfl | rfl | rfl | hout : i = 2 ∨ i = 3 ∨ i = 7 ∨
          i ∉ [2, 3, 4, 5, 6, 7, 10, 11] := by
        simp only [List.mem_cons, List.not_mem_nil, or_false]
        omega
      · exact h2
      · exact h3
      · exact UInt8.toNat_inj.mp (by omega)
      · rw [hbytes, Bytes.octet_append_left (by omega), hkeeps i hlo hout]
    · obtain ⟨n, rfl⟩ := Nat.exists_eq_add_of_le (Nat.le_of_not_lt hlo)
      rw [hbytes, Bytes.octet_append_right hlen, Packet.payload, Bytes.octet_drop]
  · rw [hword 4 (by omega), h.number]
  · omega
  · omega
  · rw [hheader]
    exact h.sealed

/-- An IPv4 packet is rebuilt from its first fragment with what identifies the fragments. -/
theorem Carries.exists_rebuilt_v4 (h : Carries p identification piece f)
    (hv : (p.bytes.octet 0).toNat / 16 = 4) (hl : p.layout = Layout.readV4 p.bytes)
    (hwhole : p.isFragment = false) :
    ∃ q, f.reassembled p.payload = .ok q ∧ p.Renumbered identification q := by
  obtain ⟨-, -, -, htotal⟩ := header_v4 hv hl
  have hfamily : p.family = .ipv4 := by rw [Packet.family, hl]; rfl
  have hkeeps := h.keeps
  rw [rewritten_v4 hfamily] at hkeeps
  obtain ⟨hfv, hfl⟩ := h.layout_v4 hv hl
  have hsame : f.layout.payloadStart = p.layout.payloadStart := by
    rw [← h.headerLength, hfl]
    rfl
  obtain ⟨new, hrebuilt, hheaded⟩ := h.reassembled_v4 hv hl
  have hheaded' := hheaded
  rw [header, h.headerLength, ← hsame] at hheaded'
  obtain ⟨q, hq, hbytes, -, hheader, -, hlen, hnew⟩ :=
    hheaded'.exists_parse p.payload hfv hfl (by rw [hsame]; exact htotal.symm)
  rw [hsame] at hlen hnew
  exact ⟨q, hrebuilt.trans hq, renumbered_of_headed hl hv hwhole hheaded hlen
    (fun i hi hout => (hnew i hi hout).trans (hkeeps i hi hout)) hbytes hheader⟩

/-! ## IPv6 -/

/-- Of an IPv6 header and its extensions, the length was written anew, and the octet that names
what comes behind them. -/
structure Chained (named length : Nat) (next : UInt8) (old new : Bytes) : Prop where
  same : Bytes.SameBut [4, 5, named] old new
  length : new.word16 4 = length
  next : new.octet named = next

section Chained

variable {header : Bytes} {named length : Nat} {next : UInt8}

theorem chained_of_fragment (hnamed : 6 ≤ named) (hroom : named < header.length) :
    Chained named (length % 65536) next header
      ((header.overwrite named [next]).overwrite 4 (.ofWord16 length)) := by
  have hn := Bytes.sameBut_overwrite hroom next
  have hlen := hn.length
  have h₄ := Bytes.sameBut_overwrite16 (b := header.overwrite named [next]) (i := 4)
    (by omega) length
  have hsame := hn.trans h₄
  refine ⟨⟨hsame.length, fun n hout => hsame.octet n ?_⟩, ?_, ?_⟩
  · simp only [List.cons_append, List.nil_append, List.mem_cons, List.not_mem_nil, or_false]
      at hout ⊢
    omega
  · rw [Bytes.word16_overwrite (by omega)]
  · rw [h₄.octet named (by simp only [List.mem_cons, List.not_mem_nil, or_false]; omega),
      Bytes.octet_overwrite_self hroom]

theorem chained_of_rebuilt (hnamed : 6 ≤ named) (hroom : named < header.length) :
    Chained named (length % 65536) next header
      ((header.overwrite 4 (.ofWord16 length)).overwrite named [next]) := by
  have h₄ := Bytes.sameBut_overwrite16 (b := header) (i := 4) (by omega) length
  have hlen := h₄.length
  have hn := Bytes.sameBut_overwrite (b := header.overwrite 4 (.ofWord16 length)) (i := named)
    (by omega) next
  refine ⟨h₄.trans hn, ?_, Bytes.octet_overwrite_self (by omega) next⟩
  rw [hn.word16 (by rw [List.mem_singleton]; omega) (by rw [List.mem_singleton]; omega),
    Bytes.word16_overwrite (by omega)]

end Chained

/-- What there is to know about the headers of a whole IPv6 packet. -/
structure WholeV6 (p : Packet) : Prop where
  version : (p.bytes.octet 0).toNat / 16 = 6
  walks : Layout.Walks p.bytes (p.bytes.octet 6) 6 ipv6HeaderLength p.layout
  ends : p.layout.headerLength = p.layout.payloadStart
  named : p.bytes.octet p.layout.nextHeaderIndex = p.protocol
  index : p.layout.nextHeaderIndex = 6 ∧ p.layout.payloadStart = ipv6HeaderLength ∨
    ipv6HeaderLength ≤ p.layout.nextHeaderIndex ∧ p.layout.nextHeaderIndex < p.layout.payloadStart
  length : p.bytes.length = ipv6HeaderLength + p.bytes.word16 4
  splits : p.layout.payloadStart + p.payload.length = p.bytes.length

theorem wholeV6 (hfamily : p.family = .ipv6) (hwhole : p.isFragment = false) : WholeV6 p := by
  rcases p.layout_cases with ⟨-, hl⟩ | ⟨hv, hwalks⟩
  · rw [Packet.family, hl] at hfamily
    cases hfamily
  obtain ⟨hversion, hlength⟩ := p.length_v6 hv
  have hends := hwalks.payloadStart_of_whole hwhole
  have hnamed := hwalks.names rfl
  rw [show p.layout.fragment.isSome = false from hwhole, if_neg Bool.false_ne_true] at hnamed
  obtain ⟨hmin, hmax, hindex⟩ := hwalks.bounds
  refine ⟨hversion, hwalks, hends.symm, hnamed, ?_, hlength, ?_⟩
  · omega
  · rw [payload, List.length_drop]
    omega

namespace WholeV6

variable {length : Nat} {next : UInt8} {new : Bytes}

theorem min (hp : WholeV6 p) : ipv6HeaderLength ≤ p.layout.payloadStart := by
  rcases hp.index with h | h <;> omega

theorem length_header (hp : WholeV6 p) :
    (p.bytes.take p.layout.payloadStart).length = p.layout.payloadStart := by
  have := hp.splits
  rw [List.length_take]
  omega

variable (rest : Bytes)

/-- The octets of the headers but for those that were written anew. -/
theorem octet_chained (hp : WholeV6 p)
    (h : Chained p.layout.nextHeaderIndex length next (p.bytes.take p.layout.payloadStart) new)
    {i : Nat} (hi : i < p.layout.payloadStart) (hnot : i ∉ [4, 5, p.layout.nextHeaderIndex]) :
    (new ++ rest).octet i = p.bytes.octet i := by
  rw [Bytes.octet_append_left (by rw [h.same.length, hp.length_header]; exact hi),
    h.same.octet i hnot, Bytes.octet_take hi]

/-- The octet that names what comes behind the headers was written anew. -/
theorem octet_next (hp : WholeV6 p)
    (h : Chained p.layout.nextHeaderIndex length next (p.bytes.take p.layout.payloadStart) new) :
    (new ++ rest).octet p.layout.nextHeaderIndex = next := by
  have h40 : ipv6HeaderLength = 40 := rfl
  have := hp.index
  rw [Bytes.octet_append_left (by rw [h.same.length, hp.length_header]; omega), h.next]

/-- What stands behind the headers is reached as before. -/
theorem read_chained (hp : WholeV6 p)
    (h : Chained p.layout.nextHeaderIndex length next (p.bytes.take p.layout.payloadStart) new) :
    Layout.read (new ++ rest) =
      Layout.walk (new ++ rest) next p.layout.nextHeaderIndex p.layout.payloadStart := by
  have h40 : ipv6HeaderLength = 40 := rfl
  have hmin := hp.min
  have hindex := hp.index
  have hends := hp.ends
  have hlen : new.length = p.layout.payloadStart := by rw [h.same.length, hp.length_header]
  have hzero : (new ++ rest).octet 0 = p.bytes.octet 0 := hp.octet_chained rest h (by omega) (by
    simp only [List.mem_cons, List.not_mem_nil, or_false]
    omega)
  have hwalk : Layout.walk (new ++ rest) ((new ++ rest).octet 6) 6 ipv6HeaderLength = _ :=
    hp.walks.walk_eq rfl (by omega) (by rw [List.length_append]; omega)
      fun i hi hlt hne => hp.octet_chained rest h (by omega) (by
        simp only [List.mem_cons, List.not_mem_nil, or_false]
        omega)
  rw [Layout.read, hzero, hp.version, if_neg (by decide), hwalk, hp.octet_next rest h, hp.ends]

theorem declared_chained (hp : WholeV6 p)
    (h : Chained p.layout.nextHeaderIndex length next (p.bytes.take p.layout.payloadStart) new) :
    ((new ++ rest).octet 0).toNat / 16 = 6 ∧ (new ++ rest).word16 4 = length := by
  have h40 : ipv6HeaderLength = 40 := rfl
  have hmin := hp.min
  have hindex := hp.index
  have hlen : new.length = p.layout.payloadStart := by rw [h.same.length, hp.length_header]
  rw [hp.octet_chained rest h (by omega) (by
    simp only [List.mem_cons, List.not_mem_nil, or_false]
    omega), hp.version, Bytes.word16_append_left (by omega)]
  exact ⟨rfl, h.length⟩

/-- The addresses stand before the extension headers. -/
theorem address_chained (hp : WholeV6 p)
    (h : Chained p.layout.nextHeaderIndex length next (p.bytes.take p.layout.payloadStart) new)
    {n : Nat} (hlo : 8 ≤ n) (hhi : n + 16 ≤ 40) :
    Address.read .ipv6 ((new ++ rest).drop n) = .read .ipv6 (p.bytes.drop n) := by
  have h40 : ipv6HeaderLength = 40 := rfl
  have hmin := hp.min
  have hindex := hp.index
  refine Address.read_congr .ipv6 fun i hi => ?_
  simp only [Family.addressLength] at hi
  rw [Bytes.octet_drop, Bytes.octet_drop, hp.octet_chained rest h (by omega) (by
    simp only [List.mem_cons, List.not_mem_nil, or_false]
    omega)]

end WholeV6

/-- The number that the header of an IPv6 fragment is to declare. -/
def fragmentLength (p : Packet) (n : Nat) : Nat :=
  p.layout.payloadStart - ipv6HeaderLength + fragmentHeaderLength + n

/-- What stands between the headers and the data of an IPv6 fragment. -/
def fragmentHeader (p : Packet) (identification : UInt32) (piece : Piece) : Bytes :=
  [p.protocol, 0] ++ (.ofWord16 (piece.start / 8 * 8 + if piece.more then 1 else 0) ++
    .ofWord32 identification.toNat)

theorem fragmentOctets_v6 (identification : UInt32) (piece : Piece) (hp : WholeV6 p) :
    ∃ new : Bytes,
    p.fragmentOctets identification piece =
      new ++ (p.fragmentHeader identification piece ++ piece.data) ∧
    Chained p.layout.nextHeaderIndex (p.fragmentLength piece.data.length % 65536)
      Protocol.fragment (p.bytes.take p.layout.payloadStart) new := by
  have h40 : ipv6HeaderLength = 40 := rfl
  have hfamily : p.family = .ipv6 := hp.walks.family.1
  have hindex := hp.index
  have hlen := hp.length_header
  refine ⟨_, ?_, chained_of_fragment (by omega) (by omega)⟩
  simp only [fragmentOctets, hfamily, fragmentLength, fragmentHeader, hlen, List.append_assoc]

theorem length_fragmentHeader :
    (p.fragmentHeader identification piece).length = fragmentHeaderLength := rfl

/-- The offset of the piece and the flag for more of them are read as they were written. -/
theorem word16_fragmentHeader (h : piece.start < 65536) (rest : Bytes) :
    (p.fragmentHeader identification piece ++ rest).word16 2 =
      piece.start / 8 * 8 + if piece.more then 1 else 0 := by
  rw [fragmentHeader, List.append_assoc, List.append_assoc,
    Bytes.word16_append_right (n := 2) rfl 0, Bytes.word16_ofWord16, Nat.mod_eq_of_lt]
  split <;> omega

theorem word32_fragmentHeader (rest : Bytes) :
    UInt32.ofNat ((p.fragmentHeader identification piece ++ rest).word32 4) =
      identification := by
  rw [fragmentHeader, ← List.append_assoc, List.append_assoc]
  exact Bytes.word32_of_append rfl identification

/-- A piece of the payload of an IPv6 packet makes a fragment, if the length field can hold its
length. -/
theorem exists_fragment_v6 (identification : UInt32) (piece : Piece) (hp : WholeV6 p)
    (hunit : piece.start % 8 = 0)
    (hend : piece.start + piece.data.length ≤ p.payload.length)
    (hroom : p.fragmentLength piece.data.length ≤ maxDatagramLength) :
    ∃ f, parse (p.fragmentOctets identification piece) = .ok f ∧
      Carries p identification piece f := by
  have h40 : ipv6HeaderLength = 40 := rfl
  have h8 : fragmentHeaderLength = 8 := rfl
  have hmax : maxDatagramLength = 65535 := rfl
  have hmin := hp.min
  have hlong := hp.length
  have hsplits := hp.splits
  have hword := p.bytes.word16_lt 4
  have hfamily : p.family = .ipv6 := hp.walks.family.1
  obtain ⟨new, hoctets, hnew⟩ := fragmentOctets_v6 identification piece hp
  have hlen : new.length = p.layout.payloadStart := by rw [hnew.same.length, hp.length_header]
  set rest := p.fragmentHeader identification piece ++ piece.data with hrest
  have hlrest : rest.length = fragmentHeaderLength + piece.data.length := by
    rw [hrest, List.length_append, length_fragmentHeader]
  obtain ⟨hversion, hdeclared⟩ := hp.declared_chained rest hnew
  rw [Nat.mod_eq_of_lt (by omega), fragmentLength] at hdeclared
  have hread := hp.read_chained rest hnew
  have hkeeps := fun i => @WholeV6.octet_chained p _ _ new rest hp hnew i
  have haddress := fun n => @WholeV6.address_chained p _ _ new rest hp hnew n
  have hprotocol : (new ++ rest).octet p.layout.payloadStart = p.protocol :=
    (Bytes.octet_append_right hlen 0).trans rfl
  have hword₂ := Bytes.word16_append_right (r := rest) hlen 2
  have hword₄ := Bytes.word32_append_right (r := rest) hlen 4
  have hdata : (new ++ rest).drop (p.layout.payloadStart + fragmentHeaderLength) = piece.data := by
    rw [← hlen, ← List.drop_drop, List.drop_left, hrest, ← @length_fragmentHeader p, List.drop_left]
  rw [hoctets]
  set d := new ++ rest with hd
  have hld : d.length = p.layout.payloadStart + fragmentHeaderLength + piece.data.length := by
    rw [hd, List.length_append, hlen, hlrest]
    omega
  rw [Layout.walk_fragment (by omega), hword₂, hword₄, hrest, word32_fragmentHeader,
    word16_fragmentHeader (by omega), hprotocol] at hread
  refine ⟨_, parse_eq_ok (declaredLength_v6 hversion (by omega)) hread, ?_⟩
  constructor
  · exact hfamily.symm
  · rw [source, source, hp.walks.family.2]
    exact haddress 8 (by omega) (by omega)
  · rw [destination, destination, hp.walks.destination]
    exact haddress 24 (by omega) (by omega)
  · rfl
  · have hmore : (piece.start / 8 * 8 + if piece.more then 1 else 0) % 2 =
        if piece.more then 1 else 0 := by
      split <;> omega
    have hoffset : (piece.start / 8 * 8 + if piece.more then 1 else 0) / 8 = piece.start / 8 := by
      split <;> omega
    simp only [fragmentInfo, Layout.endingAt, hfamily, identified, hoffset, hmore]
    cases piece.more <;> rfl
  · exact hdata
  · rfl
  · rfl
  · intro i hi hnot
    rw [rewritten_v6 hfamily] at hnot
    exact hkeeps i hi hnot
  · intro hv4
    rw [hfamily] at hv4
    cases hv4

/-- An IPv6 packet is rebuilt from its first fragment as it was. -/
theorem Carries.reassembled_v6 (h : Carries p identification piece f) (hp : WholeV6 p) :
    f.reassembled p.payload = .ok p := by
  have h40 : ipv6HeaderLength = 40 := rfl
  have hmax : maxDatagramLength = 65535 := rfl
  have hmin := hp.min
  have hindex := hp.index
  have hlong := hp.length
  have hsplits := hp.splits
  have hword := p.bytes.word16_lt 4
  have hfamily : p.family = .ipv6 := hp.walks.family.1
  have hffamily : f.family = .ipv6 := h.family.trans hfamily
  have hkeeps := h.keeps
  rw [rewritten_v6 hfamily] at hkeeps
  have hlen : f.header.length = p.layout.payloadStart :=
    f.length_header.trans h.headerLength
  have hnew := @chained_of_rebuilt f.header p.layout.nextHeaderIndex
    (p.layout.payloadStart + p.payload.length - ipv6HeaderLength) f.protocol (by omega) (by omega)
  have hsmall : ¬ maxDatagramLength + ipv6HeaderLength <
      p.layout.payloadStart + p.payload.length := by omega
  simp only [reassembled, hffamily, hlen, if_neg hsmall, h.named]
  generalize (f.header.overwrite 4 _).overwrite _ _ = new at hnew
  suffices hbytes : new ++ p.payload = p.bytes by rw [hbytes, parse_bytes]
  have hlnew : new.length = p.layout.payloadStart := by rw [hnew.same.length, hlen]
  have hsize : new.word16 4 = p.bytes.word16 4 := by
    rw [hnew.length]
    omega
  obtain ⟨h4, h5⟩ := Bytes.octet_of_word16_eq hsize
  refine Bytes.ext_octet (by rw [List.length_append, hlnew, hsplits]) fun i hi => ?_
  by_cases hlo : i < p.layout.payloadStart
  · rw [Bytes.octet_append_left (by omega)]
    obtain rfl | rfl | rfl | hout : i = 4 ∨ i = 5 ∨ i = p.layout.nextHeaderIndex ∨
        i ∉ [4, 5, p.layout.nextHeaderIndex] := by
      simp only [List.mem_cons, List.not_mem_nil, or_false]
      omega
    · exact h4
    · exact h5
    · rw [hnew.next, hp.named, h.protocol]
    · rw [hnew.same.octet i hout, header, h.headerLength, Bytes.octet_take hlo, hkeeps i hlo hout]
  · obtain ⟨n, rfl⟩ := Nat.exists_eq_add_of_le (Nat.le_of_not_lt hlo)
    rw [Bytes.octet_append_right hlnew, Packet.payload, Bytes.octet_drop]

/-- A piece that is too large for the length field makes no packet: the length that is declared
is then less than that of the fragment header. -/
theorem parse_fragmentOctets_of_large (identification : UInt32) (piece : Piece)
    (hp : WholeV6 p)
    (hend : piece.start + piece.data.length ≤ p.payload.length)
    (hlarge : maxDatagramLength < p.fragmentLength piece.data.length) :
    parse (p.fragmentOctets identification piece) = .error .malformedExtension := by
  have h40 : ipv6HeaderLength = 40 := rfl
  have h8 : fragmentHeaderLength = 8 := rfl
  have hmax : maxDatagramLength = 65535 := rfl
  have hmin := hp.min
  have hlong := hp.length
  have hsplits := hp.splits
  have hword := p.bytes.word16_lt 4
  obtain ⟨new, hoctets, hnew⟩ := fragmentOctets_v6 identification piece hp
  set rest := p.fragmentHeader identification piece ++ piece.data with hrest
  obtain ⟨hversion, hdeclared⟩ := hp.declared_chained rest hnew
  have hlen : (new ++ rest).length = p.layout.payloadStart + rest.length := by
    rw [List.length_append, hnew.same.length, hp.length_header]
  have hlrest : rest.length = fragmentHeaderLength + piece.data.length := by
    rw [hrest, List.length_append, length_fragmentHeader]
  -- The length field wraps around to less than eight.
  rw [fragmentLength] at hdeclared hlarge
  have hshort : ipv6HeaderLength + (new ++ rest).word16 4 < 48 := by omega
  have hread : ∀ i < ipv6HeaderLength, Bytes.octet ((new ++ rest).take (ipv6HeaderLength +
      (new ++ rest).word16 4)) i = (new ++ rest).octet i := fun i hi =>
    Bytes.octet_take (by omega)
  have hnext : Protocol.isExtension ((new ++ rest).octet 6) = true ∨
      (new ++ rest).octet 6 = Protocol.fragment := by
    rcases hp.index with ⟨h6, -⟩ | ⟨hindex, hlt⟩
    · exact .inr (by rw [← h6, hp.octet_next rest hnew])
    · rw [hp.octet_chained rest hnew (by omega) (by
        simp only [List.mem_cons, List.not_mem_nil, or_false]
        omega)]
      exact .inl (hp.walks.isExtension_of_ne (by omega))
  rw [hoctets]
  refine parse_eq_error (declaredLength_v6_of_le hversion (by omega)) ?_
  rw [Layout.read, hread 0 (by omega), hversion, if_neg (by decide), hread 6 (by omega)]
  exact Layout.walk_short hnext (by rw [List.length_take]; omega)

end Packet

end MulticastTunnel
