import MulticastTunnel.Packet.Build

/-!
# Splitting and rejoining packets

A packet is split into fragments that repeat its header and tile its payload.
Rejoining puts a payload behind the header of the first fragment and takes
back what only a fragment has.
-/

namespace MulticastTunnel.Packet

/-- A part of a payload: where it starts, whether more follows, its octets. -/
structure Piece where
  start : Nat
  more : Bool
  data : Bytes
deriving DecidableEq

/-- The payload from index `start` on in pieces of `size` octets, the last one
shorter if need be. -/
def pieces (size : Nat) (start : Nat) (payload : Bytes) : List Piece :=
  if payload = [] ∨ size = 0 then []
  else
    let rest := payload.drop size
    ⟨start, !rest.isEmpty, payload.take size⟩ :: pieces size (start + size) rest
termination_by payload.length
decreasing_by
  rename_i h
  have : payload.length ≠ 0 := fun e => h (.inl (List.length_eq_zero_iff.mp e))
  simp only [List.length_drop]
  omega

/-- The octets of the fragment that carries `piece` of the payload of `p`. -/
def fragmentOctets (p : Packet) (identification : UInt32) (piece : Piece) : Bytes :=
  let header : Bytes := p.bytes.take p.layout.payloadStart
  let unit := piece.start / 8
  match p.family with
  | .ipv4 =>
    let field := unit % 8192 + if piece.more then 8192 else 0
    let header : Bytes := header.overwrite 2 (.ofWord16 (header.length + piece.data.length))
    let header : Bytes := header.overwrite 4 (.ofWord16 identification.toNat)
    let header : Bytes := header.overwrite 6 (.ofWord16 field)
    sealHeader header ++ piece.data
  | .ipv6 =>
    let length := header.length - ipv6HeaderLength + fragmentHeaderLength + piece.data.length
    let header : Bytes := header.overwrite p.layout.nextHeaderIndex [Protocol.fragment]
    let header : Bytes := header.overwrite 4 (.ofWord16 length)
    header ++ [p.protocol, 0] ++ .ofWord16 (unit * 8 + if piece.more then 1 else 0) ++
      .ofWord32 identification.toNat ++ piece.data

/-- Fragments that carry at most `maxPayload` octets each, rounded down to a
multiple of eight but no less than eight. A packet that fits, or that is a
fragment itself, stays whole; a fragment too long for its length field is
left out. -/
def fragment (p : Packet) (identification : UInt32) (maxPayload : Nat) : List Packet :=
  let size := max (maxPayload / 8 * 8) 8
  if p.isFragment ∨ p.payload.length ≤ size then [p]
  else (pieces size 0 p.payload).filterMap fun piece =>
    (parse (p.fragmentOctets identification piece)).toOption

/-- The datagram whose header is that of the fragment `first`. -/
def reassembled (first : Packet) (payload : Bytes) : Except PacketError Packet :=
  let header := first.header
  let total := header.length + payload.length
  match first.family with
  | .ipv4 =>
    if maxDatagramLength < total then .error .tooLarge
    else
      let flags := header.word16 6 / 16384 % 2 * 16384
      let header : Bytes := header.overwrite 2 (.ofWord16 total)
      let header : Bytes := header.overwrite 6 (.ofWord16 flags)
      parse (sealHeader header ++ payload)
  | .ipv6 =>
    if maxDatagramLength + ipv6HeaderLength < total then .error .tooLarge
    else
      let header : Bytes := header.overwrite 4 (.ofWord16 (total - ipv6HeaderLength))
      let header : Bytes := header.overwrite first.layout.nextHeaderIndex [first.protocol]
      parse (header ++ payload)

end MulticastTunnel.Packet
