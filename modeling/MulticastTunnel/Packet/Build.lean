import MulticastTunnel.Checksum
import MulticastTunnel.Packet

/-!
# Making packets

Headers for a given payload. IPv4 options are filled up with zeros to whole
words, IPv6 hop-by-hop options with padding options to eight octets. What is
made is parsed, so a header that its fields cannot describe is an error.
-/

namespace MulticastTunnel.Packet

/-- The IPv4 header with its checksum written in. -/
def sealHeader (header : Bytes) : Bytes :=
  let blank := header.overwrite 10 [0, 0]
  Bytes.overwrite blank 10 (.ofWord16 (Checksum.of blank).toNat)

def buildV4 (source destination : Vector UInt8 4) (protocol ttl : UInt8)
    (options payload : Bytes) : Except PacketError Packet :=
  let optionLength := (options.length + 3) / 4 * 4
  let headerLength := ipv4HeaderLength + optionLength
  let total := headerLength + payload.length
  if 60 < headerLength then .error .invalidHeaderLength
  else if maxDatagramLength < total then .error .tooLarge
  else
    let header : Bytes :=
      [UInt8.ofNat (64 + headerLength / 4), 0] ++ .ofWord16 total ++ .zeros 4 ++
        [ttl, protocol, 0, 0] ++ source.toList ++ destination.toList ++
        options ++ .zeros (optionLength - options.length)
    parse (sealHeader header ++ payload)

/-- `n` octets of padding options: one alone, or one of `n` octets. -/
def padding : Nat → Bytes
  | 0 => []
  | 1 => [0]
  | n + 2 => [1, UInt8.ofNat n] ++ .zeros n

/-- A hop-by-hop header that holds the options and names what follows. -/
def hopByHopHeader (next : UInt8) (options : Bytes) : Bytes :=
  let unpadded := 2 + options.length
  let length := (unpadded + 7) / 8 * 8
  [next, UInt8.ofNat (length / 8 - 1)] ++ options ++ padding (length - unpadded)

def buildV6 (source destination : Vector UInt8 16) (next hopLimit : UInt8)
    (hopByHop : Option Bytes) (payload : Bytes) : Except PacketError Packet :=
  let extension := (hopByHop.map (hopByHopHeader next)).getD []
  let first := if hopByHop.isSome then Protocol.hopByHop else next
  let length := extension.length + payload.length
  if maxDatagramLength < length then .error .tooLarge
  else
    parse ([0x60, 0, 0, 0] ++ Bytes.ofWord16 length ++ [first, hopLimit] ++ source.toList ++
      destination.toList ++ extension ++ payload)

end MulticastTunnel.Packet
