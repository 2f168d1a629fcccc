import MulticastTunnel.Membership.Query
import MulticastTunnel.Proofs.Membership.Codec
import MulticastTunnel.Proofs.Membership.Rounding

/-!
# Queries on the wire

A query that could be written is read back as it was, but for what its fields have no room for:
a robustness above seven is seven, and each time is the greatest that a code tells and that is
not above it. It cannot be written only if it lists too many sources.
-/

namespace MulticastTunnel.Membership.Query

open ExponentialCode

variable {q : Query} {source destination : Address}

/-- A query about a group and sources of its family. The unspecified address names no group. -/
structure OfFamily (q : Query) : Prop where
  group : ∀ g, q.group = some g → g.family = q.family ∧ g.isUnspecified = false
  sources : ∀ s ∈ q.sources, s.family = q.family

/-- There is room for the query in a datagram. -/
def Fits (q : Query) : Prop := overhead q.family + q.body.length ≤ maxDatagramLength

instance (q : Query) : Decidable q.Fits := inferInstanceAs (Decidable (_ ≤ _))

/-- The response delays that the messages of a family can tell. -/
def delays : Family → Set Nat
  | .ipv4 => short.times 100
  | .ipv6 => long.times 1

/-- The query intervals that messages can tell. -/
def intervals : Set Nat := short.times 1000

/-! ## Fields -/

/-- The octets in front of the group, with a checksum. -/
def heading (q : Query) (c₀ c₁ : UInt8) : Bytes :=
  match q.family with
  | .ipv4 => [igmpType, UInt8.ofNat (short.encode (q.maxResponseDelay / 100)), c₀, c₁]
  | .ipv6 => [mldType, 0, c₀, c₁] ++ Bytes.ofWord16 (long.encode q.maxResponseDelay) ++ [0, 0]

/-- The address that stands for what is asked for. -/
def asked (q : Query) : Address := q.group.getD (.unspecified q.family)

/-- The octets behind the group. -/
def tail (q : Query) : Bytes :=
  [q.flags, UInt8.ofNat (short.encode (q.queryInterval / 1000))] ++
    (Bytes.ofWord16 q.sources.length ++ writeAddresses q.sources)

theorem body_eq (q : Query) : q.body = q.heading 0 0 ++ (q.asked.octets ++ q.tail) := by
  cases hf : q.family <;> simp only [body, heading, tail, asked, hf, List.append_assoc]

/-- Sealing changes the checksum and nothing else. -/
theorem exists_sealed_body (addresses : AddressPair) (q : Query) :
    ∃ c₀ c₁, sealed addresses q.body = q.heading c₀ c₁ ++ (q.asked.octets ++ q.tail) := by
  rw [sealed, body_eq]
  simp only [heading]
  cases q.family <;> exact ⟨_, _, rfl⟩

theorem family_asked (hq : q.OfFamily) : q.asked.family = q.family := by
  rw [asked]
  cases hg : q.group with
  | none => exact Address.family_read _ _
  | some g => exact (hq.group g hg).1

theorem groupOf_asked (hq : q.OfFamily) : groupOf q.asked = q.group := by
  rw [asked]
  cases hg : q.group with
  | none => cases q.family <;> rfl
  | some g => simp [groupOf, (hq.group g hg).2]

theorem length_tail (hq : q.OfFamily) :
    q.tail.length = 4 + q.sources.length * q.family.addressLength := by
  simp only [tail, List.length_append, List.length_cons, List.length_nil, Bytes.length_ofWord16,
    length_writeAddresses hq.sources]
  omega

theorem length_heading (q : Query) (c₀ c₁ : UInt8) :
    (q.heading c₀ c₁).length = match q.family with
      | .ipv4 => 4
      | .ipv6 => 8 := by
  simp only [heading]
  cases q.family <;> rfl

theorem toNat_flags (q : Query) :
    q.flags.toNat = min q.robustness.toNat 7 + if q.suppress then 8 else 0 := by
  refine UInt8.toNat_ofNat_of_lt' ?_
  show _ < 256
  split <;> omega

theorem toNat_short (n : Nat) : (UInt8.ofNat (short.encode n)).toNat = short.encode n :=
  UInt8.toNat_ofNat_of_lt' (short.encode_lt n)

/-! ## Reading -/

/-- The query with the times that are told for it, and with a robustness of three bits. -/
def told (q : Query) (delay : Nat) : Query :=
  { q with
    maxResponseDelay := delay
    robustness := .ofNat (min q.robustness.toNat 7)
    queryInterval := short.decode (short.encode (q.queryInterval / 1000)) * 1000 }

/-- The fields behind the group are read as they were written. -/
theorem readTail_eq (hq : q.OfFamily) (hcount : q.sources.length < 65536) (b : Bytes)
    {start : Nat} (hdrop : b.drop start = q.tail) (delay : Nat) :
    readTail q.family delay q.group b start = .ok (q.told delay) := by
  have hroom : ¬ q.tail.length < 4 + q.sources.length * q.family.addressLength := by
    rw [length_tail hq]
    exact Nat.lt_irrefl _
  have hflags : q.tail.octet 0 = q.flags := rfl
  have hinterval : (q.tail.octet 1).toNat = short.encode (q.queryInterval / 1000) := toNat_short _
  have hword : q.tail.word16 2 = q.sources.length := Bytes.toNat_ofWord16 hcount
  have hsources : readAddresses q.family q.sources.length (q.tail.drop 4) = q.sources := by
    have := readAddresses_writeAddresses hq.sources []
    rwa [List.append_nil] at this
  have hsuppress : decide (q.flags.toNat / 8 % 2 = 1) = q.suppress := by
    rw [toNat_flags]
    cases q.suppress with
    | true =>
      rw [if_pos rfl]
      exact decide_eq_true (by omega)
    | false =>
      rw [if_neg Bool.false_ne_true]
      exact decide_eq_false (by omega)
  have hrobustness : q.flags.toNat % 8 = min q.robustness.toNat 7 := by
    rw [toNat_flags]
    split <;> omega
  simp only [readTail, hdrop, hword, hroom, if_false, hflags, hsuppress, hrobustness, hinterval,
    hsources, told]

/-- The greatest time that the response code of the family tells and that is not above the
delay. -/
def toldDelay (q : Query) : Nat :=
  match q.family with
  | .ipv4 => short.decode (short.encode (q.maxResponseDelay / 100)) * 100
  | .ipv6 => long.decode (long.encode q.maxResponseDelay)

theorem isGreatest_toldDelay (q : Query) :
    IsGreatest {t | t ∈ delays q.family ∧ t ≤ q.maxResponseDelay} q.toldDelay := by
  rw [toldDelay]
  cases q.family with
  | ipv4 => exact short.isGreatest_times (by decide) _
  | ipv6 =>
    have h := @isGreatest_times long 1 (by decide) q.maxResponseDelay
    rwa [Nat.div_one, Nat.mul_one] at h

/-- A query is read from its octets, whatever stands in the checksum field. -/
theorem read_of_heading (hq : q.OfFamily) (hcount : q.sources.length < 65536) {b : Bytes}
    {c₀ c₁ : UInt8} (hb : b = q.heading c₀ c₁ ++ (q.asked.octets ++ q.tail)) :
    (match q.family with
      | .ipv4 => readIgmp b
      | .ipv6 => readMld b) = .ok (q.told q.toldDelay) := by
  have hasked : q.asked.octets.length = q.family.addressLength := by
    rw [Address.length_octets, family_asked hq]
  have htail := length_tail hq
  have hread := Address.read_octets q.asked q.tail
  have hhead := q.length_heading c₀ c₁
  have hrest := fun start => @readTail_eq q hq hcount b start
  have hgroup := groupOf_asked hq
  rw [family_asked hq] at hread
  -- The group stands behind the heading, and the other fields behind the group.
  have hdrop : b.drop (q.heading c₀ c₁).length = q.asked.octets ++ q.tail := by
    rw [hb, List.drop_left]
  have hdrop' : b.drop ((q.heading c₀ c₁).length + q.family.addressLength) = q.tail := by
    rw [← List.drop_drop, hdrop, ← hasked, List.drop_left]
  have hlength : b.length =
      (q.heading c₀ c₁).length + (q.family.addressLength + q.tail.length) := by
    rw [hb, List.length_append, List.length_append, hasked]
  cases hf : q.family with
  | ipv4 =>
    simp only [hf, Family.addressLength] at hhead hlength hdrop' htail hread hrest
    rw [hhead] at hlength hdrop hdrop'
    have hcode : (b.octet 1).toNat = short.encode (q.maxResponseDelay / 100) := by
      rw [hb, heading, hf]
      exact toNat_short _
    have hlong : ¬ b.length < 12 := by omega
    simp only [readIgmp, hcode, hdrop, hread, hgroup, hlong, show ¬ b.length < 8 by omega, if_false,
      toldDelay, hf]
    exact hrest _ hdrop' _
  | ipv6 =>
    simp only [hf, Family.addressLength] at hhead hlength hdrop' htail hread hrest
    rw [hhead] at hlength hdrop hdrop'
    have hcode : b.word16 4 = long.encode q.maxResponseDelay := by
      rw [hb, heading, hf]
      exact Bytes.toNat_ofWord16 (long.encode_lt _)
    have hlong : ¬ b.length < 28 := by omega
    simp only [readMld, hcode, hdrop, hread, hgroup, hlong, show ¬ b.length < 24 by omega, if_false,
      toldDelay, hf]
    exact hrest _ hdrop' _

/-! ## Round trip -/

/-- A query between addresses of its family is wrapped. -/
theorem toPacket_eq_wrap (hs : source.family = q.family) (hd : destination.family = q.family) :
    ∃ addresses : AddressPair, addresses.source.family = q.family ∧
      q.toPacket source destination = wrap addresses q.body := by
  simp only [toPacket]
  rw [← hs] at hd ⊢
  cases source with
  | v4 s =>
    cases destination with
    | v4 d => exact ⟨.v4 s d, rfl, rfl⟩
    | v6 d => cases hd
  | v6 s =>
    cases destination with
    | v4 d => cases hd
    | v6 d => exact ⟨.v6 s d, rfl, rfl⟩

/-- **Round trip**: a query about a group and sources of its family is read back with its times
rounded down and its robustness cut to seven. It is written unless there is no room for it. -/
theorem read_back_rounded_down (hq : q.OfFamily) (hs : source.family = q.family)
    (hd : destination.family = q.family) :
    (q.Fits → ∃ p delay interval, q.toPacket source destination = .ok p ∧
      ofPacket p = .ok { q with
        maxResponseDelay := delay
        robustness := .ofNat (min q.robustness.toNat 7)
        queryInterval := interval } ∧
      IsGreatest {t | t ∈ delays q.family ∧ t ≤ q.maxResponseDelay} delay ∧
      IsGreatest {t | t ∈ intervals ∧ t ≤ q.queryInterval} interval) ∧
    (¬ q.Fits → q.toPacket source destination = .error (.packet .tooLarge)) := by
  obtain ⟨addresses, hfamily, hwrap⟩ := toPacket_eq_wrap hs hd
  have hlen : q.body.length = (q.heading 0 0).length + (q.asked.octets.length + q.tail.length) := by
    rw [body_eq, List.length_append, List.length_append]
  have hhead := q.length_heading 0 0
  have htail := length_tail hq
  have hfour : 4 ≤ (q.heading 0 0).length := by rw [hhead]; cases q.family <;> decide
  have hwidth : 1 ≤ q.family.addressLength := by cases q.family <;> decide
  rcases wrap_cases addresses q.body (by omega) with ⟨hle, p, hp, hhas⟩ | ⟨hlarge, herr⟩
  · rw [hfamily] at hle
    have hmax : maxDatagramLength = 65535 := rfl
    have hcount : q.sources.length < 65536 := by
      have := Nat.le_mul_of_pos_right q.sources.length hwidth
      omega
    obtain ⟨c₀, c₁, hseal⟩ := exists_sealed_body addresses q
    have htype : (sealed addresses q.body).octet 0 = match addresses.source.family with
        | .ipv4 => igmpType
        | .ipv6 => mldType := by
      rw [hseal, hfamily, heading]
      cases q.family <;> rfl
    have hzero : q.body.octet 2 = 0 ∧ q.body.octet 3 = 0 := by
      rw [body_eq, heading]
      cases q.family <;> exact ⟨rfl, rfl⟩
    have hunwrap := unwrap_of_has igmpType mldType hhas (by omega) hzero.1 hzero.2 htype
    have hread : ofPacket p = .ok (q.told q.toldDelay) := by
      simp only [ofPacket, hunwrap, bind, Except.bind, hhas.family, hfamily]
      exact read_of_heading hq hcount hseal
    refine ⟨fun _ => ⟨p, _, _, hwrap.trans hp, hread, q.isGreatest_toldDelay, ?_⟩, fun h => ?_⟩
    · exact short.isGreatest_times (by decide) q.queryInterval
    · exact absurd hle h
  · rw [hfamily] at hlarge
    exact ⟨fun h => absurd h (Nat.not_le.mpr hlarge), fun _ => hwrap.trans herr⟩

/-- A query for a source of a group, with times and a robustness that no code tells. -/
def uneven : Query where
  family := .ipv6
  maxResponseDelay := 40001
  group := some (.read .ipv6 [0xff, 0x3e, 0, 0, 0, 0, 0, 0, 0, 0, 0, 0, 0x80, 0, 0, 1])
  suppress := true
  robustness := 9
  queryInterval := 130500
  sources := [.read .ipv6 [0x20, 1, 0x0d, 0xb8, 0, 0, 0, 0, 0, 0, 0, 0, 0, 0, 0, 1]]

theorem uneven_read_back :
    let relay : Address := .v6 #v[0xfe, 0x80, 0, 0, 0, 0, 0, 0, 0, 0, 0, 0, 0, 0, 0, 2]
    let all : Address := .v6 #v[0xff, 2, 0, 0, 0, 0, 0, 0, 0, 0, 0, 0, 0, 0, 0, 1]
    uneven.OfFamily ∧ uneven.Fits ∧ ∃ p, uneven.toPacket relay all = .ok p ∧
      ofPacket p = .ok { uneven with
        maxResponseDelay := 40000, robustness := 7, queryInterval := 128000 } := by
  intro relay all
  have hq : uneven.OfFamily := by
    refine ⟨fun g hg => ?_, by decide⟩
    cases hg
    decide
  have hfits : uneven.Fits := by decide
  have hrelay : relay.family = uneven.family := rfl
  have hall : all.family = uneven.family := rfl
  obtain ⟨p, delay, interval, hp, hread, hdelay, hinterval⟩ :=
    (read_back_rounded_down hq hrelay hall).1 hfits
  obtain rfl : delay = 40000 := hdelay.unique uneven.isGreatest_toldDelay
  obtain rfl : interval = 128000 := hinterval.unique (short.isGreatest_times (by decide) 130500)
  exact ⟨hq, hfits, p, hp, hread⟩

end MulticastTunnel.Membership.Query
