import MulticastTunnel.Membership.Query
import MulticastTunnel.Membership.Report
import MulticastTunnel.Proofs.Checked.Checksum
import MulticastTunnel.Proofs.Checked.Packets

/-!
# Membership messages are decoded safely

The sender of a message chooses how many records, sources and auxiliary words it tells of. Each
number is checked against what is left of the message before as much is read.
-/

namespace MulticastTunnel.Checked

open MulticastTunnel.Membership

variable {ε : Type} {b : Bytes} {family : Family} {n : Nat}

/-- An address at a cursor: a number of 32 bits, or sixteen octets. -/
def takeAddress (family : Family) (b : Bytes) : Checked ε (Address × Bytes) :=
  match family with
  | .ipv4 => do
    let (_, rest) ← take32 b
    pure (.read .ipv4 b, rest)
  | .ipv6 => do
    let (octets, rest) ← takeInto 16 b
    pure (.read .ipv6 octets, rest)

def takeAddresses (family : Family) : Nat → Bytes → Checked ε (List Address × Bytes)
  | 0, b => pure ([], b)
  | n + 1, b => do
    let (a, b) ← takeAddress family b
    let (as, b) ← takeAddresses family n b
    pure (a :: as, b)

/-- The message in a packet, once its checksum is found right. -/
def body (igmpType mldType : UInt8) (p : Packet) : Checked CodecError Bytes := do
  let body ← payload p
  if p.isFragment ∨ body.length < 4 then .refused (.truncated body.length)
  else
    let expected := match p.family with
      | .ipv4 => igmpType
      | .ipv6 => mldType
    let type ← index body 0
    if p.protocol ≠ protocolOf p.family ∨ type ≠ expected then
      .refused (.notMembership p.protocol type)
    else
      let pseudo ← match p.family with
        | .ipv4 => pure {}
        | .ipv6 =>
          match AddressPair.of? p.source p.destination with
          | none => .refused (.packet .familyMismatch)
          | some addresses =>
            add {} (Checksum.pseudoHeader addresses Protocol.icmpv6 body.length)
      let sum ← add pseudo body
      let checksum ← finish sum
      if checksum ≠ 0 then .refused .badChecksum else pure body

/-! ## Reports -/

/-- `n` records at a cursor; `total` is the length of the message. -/
def records (family : Family) (total : Nat) :
    Nat → Bytes → Checked CodecError (List GroupRecord)
  | 0, _ => pure []
  | n + 1, b => do
    let width ← word (4 + family.addressLength)
    if b.length < width then .refused (.truncated total)
    else
      let (code, b) ← take8 b
      match RecordType.ofCode? code.toNat with
      | none => .refused (.unknownRecordType code.toNat)
      | some type => do
        let (units, b) ← take8 b
        let auxiliary ← word (units.toNat * 4)
        let (count, b) ← take16 b
        let (group, b) ← takeAddress family b
        let width ← word (count * family.addressLength)
        let width ← word (width + auxiliary)
        if b.length < width then .refused (.truncated total)
        else
          let (sources, b) ← takeAddresses family count b
          let b ← advance auxiliary b
          let rest ← records family total n b
          pure (⟨type, group, sources⟩ :: rest)

def report (p : Packet) : Checked CodecError Report := do
  let body ← body Report.igmpType Report.mldType p
  let b ← behind body 4
  if b.length < 4 then .refused (.truncated body.length)
  else
    let b ← advance 2 b
    let (count, b) ← take16 b
    let records ← records p.family body.length count b
    pure ⟨p.family, records⟩

/-! ## Queries -/

/-- The number that a code stands for. The sum of the exponent is computed in eight bits, and the
mantissa is shifted in a word of 64 bits. -/
def exponential (c : ExponentialCode) (code : Nat) : Checked ε Nat :=
  if code < c.limit then pure code
  else do
    let shift ← within 256 (code / c.leading % 8 + 3)
    let shift ← within 64 shift
    word ((c.leading + code % c.leading) * Nat.pow 2 shift)

/-- The fields behind the group, at a cursor. The delay is computed last. -/
def queryTail (family : Family) (delay : Checked CodecError Nat) (group : Option Address)
    (total : Nat) (b : Bytes) : Checked CodecError Query := do
  let (flags, b) ← take8 b
  let (code, b) ← take8 b
  let (count, b) ← take16 b
  let width ← word (count * family.addressLength)
  if b.length < width then .refused (.truncated total)
  else
    let (sources, _) ← takeAddresses family count b
    let maxResponseDelay ← delay
    let interval ← exponential .short code.toNat
    pure {
      family
      maxResponseDelay
      group
      suppress := flags.toNat / 8 % 2 = 1
      robustness := .ofNat (flags.toNat % 8)
      queryInterval := interval * 1000
      sources }

def igmp (body : Bytes) : Checked CodecError Query :=
  if body.length < 8 then .refused (.truncated body.length)
  else do
    let code ← index body 1
    let group ← addressV4 body 4
    if body.length < 12 then
      let maxResponseDelay ← word ((if code.toNat = 0 then 100 else code.toNat) * 100)
      pure { family := .ipv4, maxResponseDelay, group := Query.groupOf group }
    else
      let b ← behind body 8
      let delay := do
        let tenths ← exponential .short code.toNat
        word (tenths * 100)
      queryTail .ipv4 delay (Query.groupOf group) body.length b

def mld (body : Bytes) : Checked CodecError Query :=
  if body.length < 24 then .refused (.truncated body.length)
  else do
    let code ← word16 body 4
    let b ← behind body 8
    let (group, b) ← takeAddress .ipv6 b
    if body.length < 28 then
      pure { family := .ipv6, maxResponseDelay := code, group := Query.groupOf group }
    else queryTail .ipv6 (exponential .long code) (Query.groupOf group) body.length b

def query (p : Packet) : Checked CodecError Query := do
  let body ← body Query.igmpType Query.mldType p
  match p.family with
  | .ipv4 => igmp body
  | .ipv6 => mld body

/-! ## Addresses -/

theorem takeAddress_eq (h : family.addressLength ≤ b.length) :
    (takeAddress family b : Checked ε _) =
      .value (.read family b, b.drop family.addressLength) := by
  cases family with
  | ipv4 =>
    have h4 : 4 ≤ b.length := h
    simp only [takeAddress, take32_eq h4, value_bind, pure_eq, Family.addressLength]
  | ipv6 =>
    have h16 : 16 ≤ b.length := h
    have hread : Address.read .ipv6 (b.take 16) = .read .ipv6 b :=
      Address.read_congr .ipv6 fun i hi => Bytes.octet_take hi
    simp only [takeAddress, takeInto_eq h16, value_bind, pure_eq, Family.addressLength, hread]

theorem takeAddresses_eq (n : Nat) (h : n * family.addressLength ≤ b.length) :
    (takeAddresses family n b : Checked ε _) =
      .value (readAddresses family n b, b.drop (n * family.addressLength)) := by
  induction n generalizing b with
  | zero => rw [Nat.zero_mul, List.drop_zero]; rfl
  | succ n ih =>
    rw [Nat.succ_mul] at h ⊢
    rw [takeAddresses, takeAddress_eq (by omega), value_bind]
    simp only [ih (b := b.drop family.addressLength) (by rw [List.length_drop]; omega),
      value_bind, pure_eq, List.drop_drop, readAddresses]
    rw [Nat.add_comm family.addressLength]

/-! ## The message in a packet -/

/-- Both addresses of a packet are of its family. -/
theorem exists_addresses (p : Packet) :
    p.family = .ipv4 ∧ (∃ s d, AddressPair.of? p.source p.destination = some (.v4 s d)) ∨
      p.family = .ipv6 ∧ ∃ s d, AddressPair.of? p.source p.destination = some (.v6 s d) := by
  rcases p.layout_cases with ⟨-, hl⟩ | ⟨-, hwalks⟩
  · rw [Packet.family, Packet.source, Packet.destination, hl]
    exact .inl ⟨rfl, _, _, rfl⟩
  · rw [Packet.family, Packet.source, Packet.destination, hwalks.family.1, hwalks.family.2,
      hwalks.destination]
    exact .inr ⟨rfl, _, _, rfl⟩

/-- What a message adds to a sum leaves room in the word. -/
theorem sum_eq (c : Checksum) (hc : c.sum ≤ 65535 * 41) (hb : b.length ≤ 65575) :
    (add c b : Checked ε Checksum) = .value (c.add b) ∧
      (finish (c.add b) : Checked ε UInt16) = .value (c.add b).finish := by
  have h := sum_add_le c b
  exact ⟨add_eq c (by omega), finish_eq _ (by omega)⟩

theorem length_pseudoHeader (s d : Vector UInt8 16) (protocol : UInt8) (n : Nat) :
    (Checksum.pseudoHeader (.v6 s d) protocol n).length = 40 := by
  simp only [Checksum.pseudoHeader, List.length_append, Vector.length_toList,
    Bytes.length_ofWord32, List.length_cons, List.length_nil]

theorem body_eq (igmpType mldType : UInt8) (p : Packet) :
    body igmpType mldType p = of (unwrap igmpType mldType p) := by
  have hlen := p.length_payload_le
  simp only [body, payload_eq, value_bind, unwrap]
  by_cases hshort : p.isFragment = true ∨ p.payload.length < 4
  · rw [if_pos hshort, if_pos hshort]
    rfl
  rw [if_neg hshort, if_neg hshort, index_eq (by omega), value_bind]
  rcases exists_addresses p with ⟨hfamily, s, d, haddresses⟩ | ⟨hfamily, s, d, haddresses⟩
  · obtain ⟨hadd, hfinish⟩ := @sum_eq CodecError _ {} (Nat.zero_le _) hlen
    rw [show (({} : Checksum).add p.payload).finish = messageChecksum (.v4 s d) p.payload from rfl]
      at hfinish
    simp only [hfamily, haddresses, pure_eq, value_bind, hadd, hfinish]
    split
    · rfl
    · rw [apply_ite of]
      rfl
  · have hpseudo := length_pseudoHeader s d Protocol.icmpv6 p.payload.length
    generalize hp : Checksum.pseudoHeader (.v6 s d) Protocol.icmpv6 p.payload.length = pseudo
      at hpseudo
    have hfirst : (add {} pseudo : Checked CodecError Checksum) =
        .value (({} : Checksum).add pseudo) := add_eq {} (by simp only [hpseudo]; decide)
    have hsum := sum_add_le {} pseudo
    rw [hpseudo] at hsum
    obtain ⟨hadd, hfinish⟩ := @sum_eq CodecError _ (({} : Checksum).add pseudo)
      (by simpa using hsum) hlen
    rw [show ((({} : Checksum).add pseudo).add p.payload).finish =
      messageChecksum (.v6 s d) p.payload by rw [messageChecksum, hp]] at hfinish
    simp only [hfamily, haddresses, hp, hfirst, value_bind, pure_eq, hadd, hfinish]
    split
    · rfl
    · rw [apply_ite of]
      rfl

/-! ## Reports and queries -/

theorem of_unwrap {igmpType mldType : UInt8} {p : Packet} {m : Bytes}
    (h : unwrap igmpType mldType p = .ok m) : 4 ≤ m.length ∧ m.length ≤ 65575 := by
  have hlen := p.length_payload_le
  rw [unwrap] at h
  repeat' split at h
  all_goals cases h <;> omega

theorem records_eq (family : Family) (total n : Nat) (b : Bytes) :
    records family total n b = of (Report.readRecords family total n b) := by
  have hwidth : family.addressLength ≤ 16 := by cases family <;> decide
  induction n generalizing b with
  | zero => rfl
  | succ n ih =>
    rw [records, Report.readRecords, word_eq (by omega), value_bind]
    split
    · rfl
    next hlong =>
    rw [take8_eq (by omega), value_bind]
    cases htype : RecordType.ofCode? (b.octet 0).toNat with
    | none => simp only [htype]; rfl
    | some type =>
      have hunits := (b.octet 1).toNat_lt
      have hcount := b.word16_lt 2
      have hbound : b.word16 2 * family.addressLength ≤ 65536 * 16 :=
        Nat.mul_le_mul (Nat.le_of_lt hcount) hwidth
      simp (disch := first | omega | (simp only [List.length_drop]; omega)) only [htype,
        take8_eq, take16_eq, takeAddress_eq, value_bind, Bytes.octet_drop, Bytes.word16_drop,
        List.drop_drop, Nat.reduceAdd, word_eq]
      split
      · rfl
      next hroom =>
      rw [takeAddresses_eq _ (by omega), value_bind]
      simp only
      rw [advance_eq (by rw [List.length_drop]; omega), value_bind, List.drop_drop, List.drop_drop,
        ih, Nat.add_assoc]
      exact of_map _ _

theorem report_eq (p : Packet) : report p = of (Report.ofPacket p) := by
  rw [report, body_eq, Report.ofPacket]
  cases hm : unwrap Report.igmpType Report.mldType p with
  | error e => rfl
  | ok m =>
    obtain ⟨hmin, -⟩ := of_unwrap hm
    rw [of_ok, value_bind, behind_eq hmin, value_bind]
    show _ = of (if m.length < 8 then .error (.truncated m.length) else
      Report.readRecords p.family m.length (m.word16 6) (m.drop 8) >>= fun records =>
        .ok (Report.mk p.family records))
    by_cases hshort : m.length < 8
    · rw [if_pos hshort, if_pos (by rw [List.length_drop]; omega)]
      rfl
    · rw [if_neg hshort, if_neg (by rw [List.length_drop]; omega)]
      simp (disch := simp only [List.length_drop]; omega) only [advance_eq, take16_eq, value_bind,
        Bytes.word16_drop, List.drop_drop, Nat.reduceAdd, records_eq]
      cases Report.readRecords p.family m.length (m.word16 6) (m.drop 8) <;> rfl

theorem decode_lt (c : ExponentialCode) (hc : c.leading ≤ 4096) (code : Nat) :
    c.decode code < 8388608 := by
  rw [ExponentialCode.decode]
  split
  · next hlow =>
    rw [ExponentialCode.limit] at hlow
    omega
  · have hpos : 0 < c.leading := Nat.pow_pos (by decide)
    have hmantissa := Nat.mod_lt code hpos
    have hpow : Nat.pow 2 (code / c.leading % 8 + 3) ≤ 1024 :=
      show 2 ^ (code / c.leading % 8 + 3) ≤ 2 ^ 10 from
        Nat.pow_le_pow_right (by decide) (by omega)
    calc
      (c.leading + code % c.leading) * Nat.pow 2 (code / c.leading % 8 + 3)
        ≤ 8191 * 1024 := Nat.mul_le_mul (by omega) hpow
      _ < 8388608 := by decide

theorem exponential_eq (c : ExponentialCode) (hc : c.leading ≤ 4096) (code : Nat) :
    (exponential c code : Checked ε Nat) = .value (c.decode code) := by
  have hlt := decode_lt c hc code
  rw [exponential]
  rw [ExponentialCode.decode] at hlt ⊢
  split
  · rfl
  next hhigh =>
  rw [if_neg hhigh] at hlt
  dsimp only at hlt
  rw [within_eq (by omega), value_bind, within_eq (by omega), value_bind, word_eq (by omega)]

/-- What stands behind the group of a query, from index `start` on. -/
theorem queryTail_eq (family : Family) (group : Option Address) (m : Bytes) {start delay : Nat}
    (h : start + 4 ≤ m.length) :
    queryTail family (.value delay) group m.length (m.drop start) =
      of (Query.readTail family delay group m start) := by
  have hwidth : family.addressLength ≤ 16 := by cases family <;> decide
  have hcount := m.word16_lt (start + 2)
  have hbound : m.word16 (start + 2) * family.addressLength ≤ 65536 * 16 :=
    Nat.mul_le_mul (Nat.le_of_lt hcount) hwidth
  rw [queryTail, Query.readTail]
  simp (disch := simp only [List.length_drop]; omega) only [take8_eq, take16_eq, value_bind,
    Bytes.octet_drop, Bytes.word16_drop, List.drop_drop, Nat.add_assoc, Nat.reduceAdd,
    Nat.add_zero]
  rw [word_eq (by omega), value_bind]
  by_cases hshort : (m.drop start).length < 4 + m.word16 (start + 2) * family.addressLength
  · rw [if_pos hshort, if_pos (by rw [List.length_drop] at hshort ⊢; omega)]
    rfl
  · have hroom : m.word16 (start + 2) * family.addressLength ≤ (m.drop (start + 4)).length := by
      rw [List.length_drop] at hshort ⊢
      omega
    rw [if_neg hshort, if_neg (Nat.not_lt.mpr hroom), takeAddresses_eq _ hroom]
    simp only [value_bind, exponential_eq ExponentialCode.short (by decide), pure_eq, of_ok]

theorem igmp_eq (m : Bytes) : igmp m = of (Query.readIgmp m) := by
  rw [igmp, Query.readIgmp]
  split
  · rfl
  next hmin =>
  have hcode := (m.octet 1).toNat_lt
  rw [index_eq (by omega), value_bind, addressV4_eq (by omega), value_bind]
  split
  · rw [word_eq (by split <;> omega)]
    rfl
  · next hnew =>
    have hdecode := decode_lt .short (by decide) (m.octet 1).toNat
    rw [behind_eq (by omega), value_bind, exponential_eq .short (by decide)]
    simp only [value_bind, word_eq (show ExponentialCode.short.decode (m.octet 1).toNat * 100 < _
      by omega), @queryTail_eq .ipv4 _ m 8 _ (by omega)]

theorem mld_eq (m : Bytes) : mld m = of (Query.readMld m) := by
  rw [mld, Query.readMld]
  split
  · rfl
  next hmin =>
  rw [word16_eq (by omega), value_bind, behind_eq (by omega), value_bind,
    takeAddress_eq (by rw [List.length_drop]; simp only [Family.addressLength]; omega), value_bind]
  simp only [Family.addressLength, List.drop_drop, Nat.reduceAdd]
  split
  · rfl
  · next hnew =>
    rw [exponential_eq .long (by decide), queryTail_eq .ipv6 _ m (by omega)]

theorem query_eq (p : Packet) : query p = of (Query.ofPacket p) := by
  rw [query, body_eq, Query.ofPacket]
  cases unwrap Query.igmpType Query.mldType p with
  | error e => rfl
  | ok m =>
    rw [of_ok, value_bind]
    show _ = of (match p.family with
      | .ipv4 => Query.readIgmp m
      | .ipv6 => Query.readMld m)
    cases p.family with
    | ipv4 => exact igmp_eq m
    | ipv6 => exact mld_eq m

end MulticastTunnel.Checked
