import MulticastTunnel.Membership.Envelope
import MulticastTunnel.Membership.Record

/-!
# Membership reports

A report lists group records to every router on the link. It is written as
an IGMPv3 or an MLDv2 message; reading passes over auxiliary data and over
what follows the records.
-/

namespace MulticastTunnel.Membership

structure Report where
  family : Family
  records : List GroupRecord
deriving DecidableEq

namespace Report

def igmpType : UInt8 := 0x22

def mldType : UInt8 := 143

/-- Where reports go: 224.0.0.22, which all IGMPv3 routers hear. -/
def igmpDestination : Vector UInt8 4 := #v[224, 0, 0, 22]

/-- Where reports go: ff02::16, which all MLDv2 routers hear. -/
def mldDestination : Vector UInt8 16 :=
  #v[0xff, 2, 0, 0, 0, 0, 0, 0, 0, 0, 0, 0, 0, 0, 0, 0x16]

/-- Whether some record leaves the sender something to receive. -/
def describesReception (r : Report) : Bool := r.records.any GroupRecord.describesReception

def recordOctets (r : GroupRecord) : Bytes :=
  [UInt8.ofNat r.type.code, 0] ++ Bytes.ofWord16 r.sources.length ++ r.group.octets ++
    writeAddresses r.sources

/-- The message with a zero in its checksum field. -/
def body (r : Report) : Bytes :=
  let type := match r.family with
    | .ipv4 => igmpType
    | .ipv6 => mldType
  [type, 0, 0, 0, 0, 0] ++ Bytes.ofWord16 r.records.length ++ r.records.flatMap recordOctets

/-- The packet that carries the report from `source`. The groups, though not
the sources, are held to the family of the report. -/
def toPacket (r : Report) (source : Address) : Except CodecError Packet :=
  if r.records.any fun record => record.group.family ≠ r.family then .error .familyMismatch
  else
    match source, r.family with
    | .v4 s, .ipv4 => wrap (.v4 s igmpDestination) r.body
    | .v6 s, .ipv6 => wrap (.v6 s mldDestination) r.body
    | _, _ => .error .familyMismatch

/-- `n` records at the start of `b`; `total` is the length of the message. -/
def readRecords (family : Family) (total : Nat) :
    Nat → Bytes → Except CodecError (List GroupRecord)
  | 0, _ => .ok []
  | n + 1, b =>
    let width := family.addressLength
    if b.length < 4 + width then .error (.truncated total)
    else
      let code := (b.octet 0).toNat
      match RecordType.ofCode? code with
      | none => .error (.unknownRecordType code)
      | some type =>
        let auxiliary := (b.octet 1).toNat * 4
        let count := b.word16 2
        let rest := b.drop (4 + width)
        if rest.length < count * width + auxiliary then .error (.truncated total)
        else
          let record : GroupRecord :=
            ⟨type, .read family (b.drop 4), readAddresses family count rest⟩
          (readRecords family total n (rest.drop (count * width + auxiliary))).map (record :: ·)

def ofPacket (p : Packet) : Except CodecError Report := do
  let body ← unwrap igmpType mldType p
  if body.length < 8 then .error (.truncated body.length)
  else
    let records ← readRecords p.family body.length (body.word16 6) (body.drop 8)
    .ok ⟨p.family, records⟩

end Report

end MulticastTunnel.Membership
