import MulticastTunnel.Membership.Report
import MulticastTunnel.Proofs.Checksum
import MulticastTunnel.Proofs.Packet.Build

/-!
# Reports on the wire

A report that could be written is read back as it was: the packet around it
parses, its checksum is right, and the records are walked one by one. It
cannot be written only if it is too large.
-/

namespace MulticastTunnel

namespace Membership

/-! ## Envelopes -/

/-- The message with its checksum written in. -/
def sealed (addresses : AddressPair) (body : Bytes) : Bytes :=
  body.overwrite 2 (.ofWord16 (messageChecksum addresses body).toNat)

theorem length_sealed (addresses : AddressPair) {body : Bytes} (h : 4 ≤ body.length) :
    (sealed addresses body).length = body.length :=
  Bytes.length_overwrite h

/-- A sealed message has checksum zero. -/
theorem messageChecksum_sealed (addresses : AddressPair) {body : Bytes} (h : 4 ≤ body.length)
    (h₂ : body.octet 2 = 0) (h₃ : body.octet 3 = 0) :
    messageChecksum addresses (sealed addresses body) = 0 := by
  cases addresses with
  | v4 s d => exact Checksum.finish_add_overwrite rfl rfl h h₂ h₃
  | v6 s d =>
    simp only [messageChecksum, length_sealed _ h]
    exact Checksum.finish_add_overwrite (Checksum.half_pseudoHeader ..) rfl h h₂ h₃

/-- Octets that the envelope puts in front of a message. -/
def overhead : Family → Nat
  | .ipv4 => 24
  | .ipv6 => 8

/-- A message is wrapped unless it is too large. -/
theorem wrap_cases (addresses : AddressPair) (body : Bytes) (h : 4 ≤ body.length) :
    (overhead addresses.source.family + body.length ≤ maxDatagramLength ∧
      ∃ p, wrap addresses body = .ok p ∧
        p.Has addresses.source addresses.destination (protocolOf addresses.source.family) 1
          (sealed addresses body)) ∨
    (maxDatagramLength < overhead addresses.source.family + body.length ∧
      wrap addresses body = .error (.packet .tooLarge)) := by
  have hlen := length_sealed addresses h
  rcases Nat.lt_or_ge maxDatagramLength (overhead addresses.source.family + body.length) with
    hlt | hle
  · refine .inr ⟨hlt, ?_⟩
    cases addresses with
    | v4 s d =>
      simp only [sealed] at hlen
      simp only [AddressPair.source, Address.family, overhead] at hlt
      have hopt : (routerAlert .ipv4).length = 4 := rfl
      simp only [wrap, Packet.buildV4, hlen, hopt, ipv4HeaderLength]
      rw [if_neg (by omega), if_pos (by omega)]
      rfl
    | v6 s d =>
      simp only [sealed] at hlen
      simp only [AddressPair.source, Address.family, overhead] at hlt
      have hext : (Packet.hopByHopHeader Protocol.icmpv6 (routerAlert .ipv6)).length = 8 := rfl
      simp only [wrap, Packet.buildV6, hlen, Option.map_some, Option.getD_some, hext]
      rw [if_pos (by omega)]
      rfl
  · refine .inl ⟨hle, ?_⟩
    cases addresses with
    | v4 s d =>
      simp only [AddressPair.source, Address.family, overhead] at hle
      obtain ⟨p, hp, hhas⟩ := Packet.buildV4_eq_ok s d Protocol.igmp 1 (routerAlert .ipv4)
        (sealed (.v4 s d) body)
        (by decide) (by
          rw [hlen, Packet.length_filledOptions]
          simp only [routerAlert, ipv4HeaderLength, List.length_cons, List.length_nil]
          omega)
      exact ⟨p, by rw [wrap]; exact congrArg (Except.mapError _) hp, hhas⟩
    | v6 s d =>
      simp only [AddressPair.source, Address.family, overhead] at hle
      obtain ⟨p, hp, hhas⟩ := Packet.buildV6_eq_ok s d Protocol.icmpv6 1 (routerAlert .ipv6)
        (sealed (.v6 s d) body)
        (by decide) (by decide) (by decide) (by
          rw [hlen, Packet.length_hopByHopHeader]
          simp only [routerAlert, List.length_cons, List.length_nil]
          omega)
      exact ⟨p, by rw [wrap]; exact congrArg (Except.mapError _) hp, hhas⟩

/-- A wrapped message is found again. -/
theorem unwrap_of_has {p : Packet} {addresses : AddressPair} {body : Bytes} (igmp mld : UInt8)
    (hp : p.Has addresses.source addresses.destination (protocolOf addresses.source.family) 1
      (sealed addresses body)) (h : 4 ≤ body.length) (h₂ : body.octet 2 = 0)
    (h₃ : body.octet 3 = 0)
    (htype : (sealed addresses body).octet 0 = match addresses.source.family with
      | .ipv4 => igmp
      | .ipv6 => mld) :
    unwrap igmp mld p = .ok (sealed addresses body) := by
  have hlen := length_sealed addresses h
  have hshort : ¬ (p.isFragment = true ∨ (sealed addresses body).length < 4) := by
    rw [hp.whole, hlen]
    simpa using h
  have hsum := messageChecksum_sealed addresses h h₂ h₃
  have hof := addresses.of?_source_destination
  simp only [unwrap, hp.payload, hp.family, hp.protocol, hp.source, hp.destination, hof, hsum,
    hshort, if_false, ne_eq, not_true]
  cases addresses with
  | v4 s d => exact if_neg fun hn => hn.elim id fun hn => hn htype
  | v6 s d => exact if_neg fun hn => hn.elim id fun hn => hn htype

/-! ## Records -/

/-- A record of a group and sources of one family. -/
structure GroupRecord.OfFamily (family : Family) (r : GroupRecord) : Prop where
  group : r.group.family = family
  sources : ∀ s ∈ r.sources, s.family = family

theorem length_writeAddresses {family : Family} {as : List Address}
    (h : ∀ a ∈ as, a.family = family) :
    (writeAddresses as).length = as.length * family.addressLength := by
  induction as with
  | nil => simp [writeAddresses]
  | cons a as ih =>
    rw [List.forall_mem_cons] at h
    have hrest := ih h.2
    simp only [writeAddresses, List.flatMap_cons, List.length_append, List.length_cons,
      Nat.add_mul, Address.length_octets, h.1] at hrest ⊢
    omega

theorem readAddresses_writeAddresses {family : Family} {as : List Address}
    (h : ∀ a ∈ as, a.family = family) (rest : Bytes) :
    readAddresses family as.length (writeAddresses as ++ rest) = as := by
  induction as with
  | nil => rfl
  | cons a as ih =>
    rw [List.forall_mem_cons] at h
    have hoct : a.octets.length = family.addressLength := by rw [Address.length_octets, h.1]
    have happ : writeAddresses (a :: as) ++ rest = a.octets ++ (writeAddresses as ++ rest) := by
      simp only [writeAddresses, List.flatMap_cons, List.append_assoc]
    simp only [List.length_cons, readAddresses, happ, List.drop_left' hoct, ih h.2]
    rw [← h.1, Address.read_octets]

theorem length_recordOctets {family : Family} {r : GroupRecord} (h : r.OfFamily family) :
    (Report.recordOctets r).length =
      4 + family.addressLength + r.sources.length * family.addressLength := by
  simp only [Report.recordOctets, List.length_append, List.length_cons, List.length_nil,
    Bytes.length_ofWord16, Address.length_octets, length_writeAddresses h.sources, h.group]

/-- Records are read back one by one, whatever follows them. -/
theorem readRecords_recordOctets {family : Family} {records : List GroupRecord}
    (h : ∀ r ∈ records, r.OfFamily family ∧ r.sources.length < 65536) (total : Nat)
    (rest : Bytes) :
    Report.readRecords family total records.length
      (records.flatMap Report.recordOctets ++ rest) = .ok records := by
  induction records with
  | nil => rfl
  | cons r records ih =>
    rw [List.forall_mem_cons] at h
    obtain ⟨⟨hr, hcount⟩, hrecords⟩ := h
    set more : Bytes := records.flatMap Report.recordOctets ++ rest with hmore
    set b : Bytes := (r :: records).flatMap Report.recordOctets ++ rest with hb
    have happ : b = [UInt8.ofNat r.type.code, 0, UInt8.ofNat (r.sources.length / 256),
        UInt8.ofNat r.sources.length] ++
          (r.group.octets ++ (writeAddresses r.sources ++ more)) := by
      simp only [hb, hmore, List.flatMap_cons, Report.recordOctets, Bytes.ofWord16,
        List.append_assoc, List.cons_append, List.nil_append]
    have hgroup : r.group.octets.length = family.addressLength := by
      rw [Address.length_octets, hr.group]
    have hwritten := length_writeAddresses hr.sources
    have hlen : b.length = 4 + family.addressLength +
        (r.sources.length * family.addressLength + more.length) := by
      rw [happ]
      simp only [List.length_append, List.length_cons, List.length_nil, hgroup, hwritten]
      omega
    have hcode : (b.octet 0).toNat = r.type.code := by
      rw [happ]
      cases r.type <;> rfl
    have haux : (b.octet 1).toNat = 0 := by
      rw [happ]
      rfl
    have hword : b.word16 2 = r.sources.length := by
      rw [happ]
      exact Bytes.toNat_ofWord16 hcount
    have hdrop : b.drop (4 + family.addressLength) = writeAddresses r.sources ++ more := by
      rw [happ, ← List.append_assoc]
      apply List.drop_left'
      simp only [List.length_append, List.length_cons, List.length_nil, hgroup]
    have hread : Address.read family (b.drop 4) = r.group := by
      have hdrop' : b.drop 4 = r.group.octets ++ (writeAddresses r.sources ++ more) := by
        rw [happ]
        rfl
      rw [hdrop', ← hr.group, Address.read_octets]
    have hroom : ¬ b.length < 4 + family.addressLength := by omega
    have hroom' : ¬ (writeAddresses r.sources ++ more).length <
        r.sources.length * family.addressLength := by
      rw [List.length_append, hwritten]
      omega
    simp only [List.length_cons, Report.readRecords, hroom, if_false, hcode,
      RecordType.ofCode?_code, haux, hword, hdrop, hread, Nat.zero_mul, Nat.add_zero, hroom',
      readAddresses_writeAddresses hr.sources, List.drop_left' hwritten, ih hrecords]
    rfl

/-! ## Reports -/

namespace Report

variable {r : Report} {source : Address} {p : Packet}

/-- The message type of reports of a family. -/
def typeOf : Family → UInt8
  | .ipv4 => igmpType
  | .ipv6 => mldType

/-- What follows the checksum field and the two octets behind it. -/
def tail (r : Report) : Bytes :=
  Bytes.ofWord16 r.records.length ++ r.records.flatMap recordOctets

theorem body_eq (r : Report) : r.body = [typeOf r.family, 0, 0, 0, 0, 0] ++ r.tail := by
  obtain ⟨family, records⟩ := r
  cases family <;> exact List.append_assoc _ _ _

theorem length_body (r : Report) :
    r.body.length = 8 + (r.records.flatMap recordOctets).length := by
  rw [body_eq]
  simp only [tail, List.length_append, List.length_cons, List.length_nil, Bytes.length_ofWord16]
  omega

/-- A report of one family is wrapped between the source and all routers. -/
theorem toPacket_eq_wrap (hgroups : ∀ record ∈ r.records, record.group.family = r.family)
    (hs : source.family = r.family) :
    ∃ addresses : AddressPair, addresses.source.family = r.family ∧
      r.toPacket source = wrap addresses r.body := by
  have hany : r.records.any (fun record => decide (record.group.family ≠ r.family)) = false := by
    rw [List.any_eq_false]
    intro record hm
    simp [hgroups record hm]
  obtain ⟨family, records⟩ := r
  simp only [toPacket, hany, Bool.false_eq_true, if_false]
  cases source with
  | v4 s =>
    cases hs
    exact ⟨_, rfl, rfl⟩
  | v6 s =>
    cases hs
    exact ⟨_, rfl, rfl⟩

/-- What was written tells that the groups and the source are of the family. -/
theorem families_of_toPacket (h : r.toPacket source = .ok p) :
    (∀ record ∈ r.records, record.group.family = r.family) ∧ source.family = r.family := by
  simp only [toPacket] at h
  split at h
  · cases h
  next hany =>
  constructor
  · intro record hm
    by_contra hne
    exact hany (List.any_eq_true.mpr ⟨record, hm, by simpa using hne⟩)
  · split at h
    · next hf => rw [hf]; rfl
    · next hf => rw [hf]; rfl
    · cases h

/-- There is room for as many records, and sources in each, as their counts tell. -/
theorem counts_lt (hr : ∀ record ∈ r.records, record.OfFamily r.family)
    (hlen : r.body.length ≤ maxDatagramLength) :
    r.records.length < 65536 ∧ ∀ record ∈ r.records, record.sources.length < 65536 := by
  have hmax : maxDatagramLength = 65535 := rfl
  have hwidth : 4 ≤ r.family.addressLength := by cases r.family <;> decide
  have hsum : ∀ records : List GroupRecord, (∀ record ∈ records, record.OfFamily r.family) →
      records.length ≤ (records.flatMap recordOctets).length ∧
        ∀ record ∈ records, record.sources.length ≤ (records.flatMap recordOctets).length := by
    intro records hall
    induction records with
    | nil => simp
    | cons record records ih =>
      rw [List.forall_mem_cons] at hall
      obtain ⟨hcount, hsources⟩ := ih hall.2
      have hone := length_recordOctets hall.1
      have hle : record.sources.length ≤ record.sources.length * r.family.addressLength :=
        Nat.le_mul_of_pos_right _ (by omega)
      simp only [List.flatMap_cons, List.length_append, List.length_cons, List.forall_mem_cons]
      refine ⟨by omega, by omega, fun other hm => ?_⟩
      have := hsources other hm
      omega
  obtain ⟨hcount, hsources⟩ := hsum r.records hr
  rw [length_body] at hlen
  refine ⟨by omega, fun record hm => ?_⟩
  have := hsources record hm
  omega

/-- A report that could be written stands in its packet with its checksum. -/
theorem exists_sealed (h : r.toPacket source = .ok p) :
    ∃ addresses : AddressPair, addresses.source.family = r.family ∧
      r.body.length ≤ maxDatagramLength ∧
      p.Has addresses.source addresses.destination (protocolOf addresses.source.family) 1
        (sealed addresses r.body) := by
  obtain ⟨hgroups, hs⟩ := families_of_toPacket h
  obtain ⟨addresses, hfamily, hwrap⟩ := toPacket_eq_wrap hgroups hs
  have hlen : 4 ≤ r.body.length := by
    rw [length_body]
    omega
  rcases wrap_cases addresses r.body hlen with ⟨hfits, q, hq, hhas⟩ | ⟨-, herr⟩
  · rw [hwrap, hq] at h
    cases h
    exact ⟨addresses, hfamily, by omega, hhas⟩
  · rw [hwrap, herr] at h
    cases h

/-- The message is found again in the packet of a report. -/
theorem unwrap_of_toPacket (h : r.toPacket source = .ok p) :
    ∃ c₀ c₁, p.family = r.family ∧
      unwrap igmpType mldType p = .ok ([typeOf r.family, 0, c₀, c₁, 0, 0] ++ r.tail) := by
  obtain ⟨addresses, hfamily, -, hhas⟩ := exists_sealed h
  have hlen := length_body r
  -- Sealing changes the third and the fourth octet and no others.
  have hseal : ∃ c₀ c₁, sealed addresses r.body =
      [typeOf r.family, 0, c₀, c₁, 0, 0] ++ r.tail := by
    rw [sealed, body_eq]
    exact ⟨_, _, rfl⟩
  obtain ⟨c₀, c₁, hseal⟩ := hseal
  have h₂ : r.body.octet 2 = 0 := by rw [body_eq]; rfl
  have h₃ : r.body.octet 3 = 0 := by rw [body_eq]; rfl
  refine ⟨c₀, c₁, hhas.family.trans hfamily, ?_⟩
  rw [← hseal]
  refine unwrap_of_has igmpType mldType hhas (by omega) h₂ h₃ ?_
  rw [hfamily, hseal]
  cases r.family <;> rfl

/-- What is read from the packet of a report are the octets of its records. -/
theorem ofPacket_eq_map (hcount : r.records.length < 65536) (h : r.toPacket source = .ok p) :
    ∃ total, ofPacket p = (readRecords r.family total r.records.length
      (r.records.flatMap recordOctets)).map fun records => ⟨r.family, records⟩ := by
  obtain ⟨c₀, c₁, hfam, hunwrap⟩ := unwrap_of_toPacket h
  set body : Bytes := [typeOf r.family, 0, c₀, c₁, 0, 0] ++ r.tail with hbody
  have hcountword : body.word16 6 = r.records.length := Bytes.toNat_ofWord16 hcount
  have hdrop : body.drop 8 = r.records.flatMap recordOctets := rfl
  have hshort : ¬ body.length < 8 := by
    simp only [hbody, tail, List.length_append, List.length_cons, List.length_nil,
      Bytes.length_ofWord16]
    omega
  refine ⟨body.length, ?_⟩
  simp only [ofPacket, hunwrap, bind, Except.bind, hshort, if_false, hcountword, hdrop, hfam]
  cases readRecords r.family body.length r.records.length
    (r.records.flatMap recordOctets) <;> rfl

/-- **Round trip**: a report whose addresses are of its family is read back
from the packet that carries it. -/
theorem ofPacket_of_toPacket (hr : ∀ record ∈ r.records, record.OfFamily r.family)
    (h : r.toPacket source = .ok p) : ofPacket p = .ok r := by
  obtain ⟨-, -, hfits, -⟩ := exists_sealed h
  obtain ⟨hcount, hsources⟩ := counts_lt hr hfits
  obtain ⟨total, hof⟩ := ofPacket_eq_map hcount h
  have hread := readRecords_recordOctets
    (fun record hm => ⟨hr record hm, hsources record hm⟩) total []
  rw [List.append_nil] at hread
  rw [hof, hread]
  rfl

/-- A single record is read with its type, if it is read at all: its sources
need not be of the family of the report. -/
theorem type_of_ofPacket_singleton {family : Family} {record : GroupRecord} {read : Report}
    (h : toPacket ⟨family, [record]⟩ source = .ok p) (hread : ofPacket p = .ok read) :
    ∀ other ∈ read.records, other.type = record.type := by
  obtain ⟨total, hof⟩ := ofPacket_eq_map (by simp) h
  rw [hof] at hread
  set b : Bytes := ([record] : List GroupRecord).flatMap recordOctets with hb
  have hcode : (b.octet 0).toNat = record.type.code := by
    rw [hb]
    cases record with
    | mk type group sources => cases type <;> rfl
  simp only [List.length_cons, List.length_nil, readRecords, hcode, RecordType.ofCode?_code]
    at hread
  split at hread
  · cases hread
  split at hread
  · cases hread
  cases hread
  simp

/-! ## Reports that fit -/

/-- There is room for the report in a datagram. -/
def Fits (r : Report) : Prop := overhead r.family + r.body.length ≤ maxDatagramLength

instance (r : Report) : Decidable r.Fits := inferInstanceAs (Decidable (_ ≤ _))

/-- A report whose addresses are of its family is written if it fits. -/
theorem toPacket_of_fits (hgroups : ∀ record ∈ r.records, record.group.family = r.family)
    (hs : source.family = r.family) (h : r.Fits) :
    ∃ p, r.toPacket source = .ok p ∧ p.family = r.family := by
  obtain ⟨addresses, hfamily, hwrap⟩ := toPacket_eq_wrap hgroups hs
  have hlen := length_body r
  rcases wrap_cases addresses r.body (by omega) with ⟨-, p, hp, hhas⟩ | ⟨hlarge, -⟩
  · exact ⟨p, hwrap.trans hp, hhas.family.trans hfamily⟩
  · rw [hfamily] at hlarge
    exact absurd h (Nat.not_le.mpr hlarge)

/-- And it is refused as too large if it does not. -/
theorem toPacket_of_not_fits (hgroups : ∀ record ∈ r.records, record.group.family = r.family)
    (hs : source.family = r.family) (h : ¬ r.Fits) :
    r.toPacket source = .error (.packet .tooLarge) := by
  obtain ⟨addresses, hfamily, hwrap⟩ := toPacket_eq_wrap hgroups hs
  have hlen := length_body r
  rcases wrap_cases addresses r.body (by omega) with ⟨hle, -⟩ | ⟨-, herr⟩
  · rw [hfamily] at hle
    exact absurd hle h
  · exact hwrap.trans herr

/-- A report whose addresses are of its family cannot be written only if it is
too large. -/
theorem tooLarge_of_toPacket {e : CodecError}
    (hgroups : ∀ record ∈ r.records, record.group.family = r.family)
    (hs : source.family = r.family) (h : r.toPacket source = .error e) :
    e = .packet .tooLarge := by
  by_cases hfits : r.Fits
  · obtain ⟨p, hp, -⟩ := toPacket_of_fits hgroups hs hfits
    rw [hp] at h
    cases h
  · rw [toPacket_of_not_fits hgroups hs hfits] at h
    cases h
    rfl

theorem fits_nil (family : Family) : Fits ⟨family, []⟩ := by
  cases family <;> decide

/-- Records take up room even if they list no sources. -/
theorem Fits.length_records_le (h : r.Fits)
    (hgroups : ∀ record ∈ r.records, record.group.family = r.family) :
    overhead r.family + 8 + r.records.length * (4 + r.family.addressLength) ≤
      maxDatagramLength := by
  have hall : ∀ records : List GroupRecord, (∀ record ∈ records, record.group.family = r.family) →
      records.length * (4 + r.family.addressLength) ≤ (records.flatMap recordOctets).length := by
    intro records hfam
    induction records with
    | nil => simp
    | cons record records ih =>
      rw [List.forall_mem_cons] at hfam
      have hrest := ih hfam.2
      have hone : 4 + r.family.addressLength ≤ (recordOctets record).length := by
        simp only [recordOctets, List.length_append, List.length_cons, List.length_nil,
          Bytes.length_ofWord16, Address.length_octets, hfam.1]
        omega
      simp only [List.flatMap_cons, List.length_append, List.length_cons, Nat.add_one_mul]
      omega
  have hbody := length_body r
  have hrecords := hall r.records hgroups
  unfold Fits at h
  omega

/-! ## Written again -/

theorem family_of_mem_readAddresses {family : Family} {n : Nat} {b : Bytes} {a : Address}
    (h : a ∈ readAddresses family n b) : a.family = family := by
  induction n generalizing b with
  | zero => cases h
  | succ n ih =>
    rcases List.mem_cons.mp h with rfl | h
    · exact Address.family_read family b
    · exact ih h

/-- Whatever octets records are read from, their addresses are of the family. -/
theorem ofFamily_of_readRecords {family : Family} {total n : Nat} {b : Bytes}
    {records : List GroupRecord} (h : readRecords family total n b = .ok records) :
    ∀ record ∈ records, record.OfFamily family := by
  induction n generalizing b records with
  | zero =>
    cases h
    simp
  | succ n ih =>
    simp only [readRecords] at h
    split at h
    · cases h
    split at h
    · cases h
    split at h
    · cases h
    generalize hmore : readRecords family total n _ = more at h
    cases more with
    | error e => cases h
    | ok more =>
      cases h
      rw [List.forall_mem_cons]
      exact ⟨⟨Address.family_read family _, fun _ hs => family_of_mem_readAddresses hs⟩, ih hmore⟩

theorem ofFamily_of_ofPacket (h : ofPacket p = .ok r) :
    ∀ record ∈ r.records, record.OfFamily r.family := by
  simp only [ofPacket, bind, Except.bind] at h
  split at h
  · cases h
  split at h
  · cases h
  split at h
  · cases h
  next hrecords =>
  cases h
  exact ofFamily_of_readRecords hrecords

/-- **Round trip**, both ways. A report whose addresses are of its family is read back as it was
written, and is written unless there is no room for it. A report that was read, whatever was
passed over, is read again from the packet that it is written into. -/
theorem read_back_both_ways :
    (∀ (r : Report) (source : Address), (∀ record ∈ r.records, record.OfFamily r.family) →
      source.family = r.family →
      (r.Fits → ∃ p, r.toPacket source = .ok p ∧ ofPacket p = .ok r) ∧
      (¬ r.Fits → r.toPacket source = .error (.packet .tooLarge))) ∧
    ∀ (p q : Packet) (r : Report) (source : Address), ofPacket p = .ok r →
      r.toPacket source = .ok q → ofPacket q = .ok r := by
  refine ⟨fun r source hr hs => ?_, fun p q r source hread hwrite => ?_⟩
  · have hgroups : ∀ record ∈ r.records, record.group.family = r.family := fun record hm =>
      (hr record hm).group
    refine ⟨fun hfits => ?_, toPacket_of_not_fits hgroups hs⟩
    obtain ⟨p, hp, -⟩ := toPacket_of_fits hgroups hs hfits
    exact ⟨p, hp, ofPacket_of_toPacket hr hp⟩
  · exact ofPacket_of_toPacket (ofFamily_of_ofPacket hread) hwrite

/-- A report of an added source, with auxiliary data, octets behind it and reserved ones set. -/
def loose : Packet :=
  (wrap (.v4 #v[203, 0, 113, 7] igmpDestination)
    ([igmpType, 9, 0, 0, 8, 7, 0, 1, 5, 1, 0, 1, 232, 1, 1, 1, 198, 51, 100, 1] ++
      [1, 2, 3, 4] ++ [5, 6, 7])).toOption.get (by decide +kernel)

theorem loose_read_back :
    let r : Report := ⟨.ipv4, [⟨.allowNewSources, .v4 #v[232, 1, 1, 1], [.v4 #v[198, 51, 100, 1]]⟩]⟩
    let source : Address := .v4 #v[203, 0, 113, 7]
    ofPacket loose = .ok r ∧
      ∃ q, r.toPacket source = .ok q ∧ q ≠ loose ∧ ofPacket q = .ok r := by
  intro r source
  have hread : ofPacket loose = .ok r := by decide +kernel
  have hr : ∀ record ∈ r.records, record.OfFamily r.family := ofFamily_of_ofPacket hread
  obtain ⟨q, hq, hback⟩ := (read_back_both_ways.1 r source hr rfl).1 (by decide)
  have hne : r.toPacket source ≠ .ok loose := by decide +kernel
  refine ⟨hread, q, hq, ?_, read_back_both_ways.2 loose q r source hread hq⟩
  rintro rfl
  exact hne hq

end Report

end Membership

end MulticastTunnel
