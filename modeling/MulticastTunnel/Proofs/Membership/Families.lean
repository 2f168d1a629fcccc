import MulticastTunnel.Proofs.Membership.Queries

/-!
# Addresses of another family

A message tells nowhere how wide its addresses are: that follows from the family of the packet
around it. Writing a report holds the groups to the family of the report, and the source of the
packet too; writing a query holds only the two addresses of the packet to it. A source of a
record, and the group and the sources of a query, are written as they come, and one that is of
the other family shifts whatever follows it. So what was written is read back if and only if
these addresses are of the family as well.
-/

namespace MulticastTunnel

/-- All octets of an unspecified address are zero, so its family tells it. -/
theorem Address.eq_unspecified {a : Address} (h : a.isUnspecified = true) :
    a = .unspecified a.family := by
  have hzero : ∀ o ∈ a.octets, o = 0 := by simpa [isUnspecified] using h
  have hoctet : ∀ i, a.octets.octet i = 0 := by
    intro i
    rw [Bytes.octet, List.getD_eq_getElem?_getD]
    cases ho : a.octets[i]? with
    | none => rfl
    | some o => exact hzero o (List.mem_of_getElem? ho)
  have hread := read_octets a []
  rw [List.append_nil] at hread
  conv_lhs => rw [← hread]
  cases a <;> simp only [family, unspecified, read, hoctet] <;> rfl

namespace Membership

variable {source destination : Address} {p : Packet}

/-! ## Reports -/

namespace Report

variable {r : Report} {e : CodecError}

/-- The mixes of families that are refused. -/
theorem toPacket_eq_familyMismatch_iff :
    r.toPacket source = .error .familyMismatch ↔
      source.family ≠ r.family ∨ ∃ record ∈ r.records, record.group.family ≠ r.family := by
  constructor
  · intro h
    by_contra hsame
    push Not at hsame
    cases tooLarge_of_toPacket hsame.2 hsame.1 h
  · intro h
    simp only [toPacket, List.any_eq_true, decide_eq_true_eq]
    split
    · rfl
    next hgroups =>
    have hs : source.family ≠ r.family := h.resolve_right hgroups
    split
    · next hf => exact absurd hf.symm hs
    · next hf => exact absurd hf.symm hs
    · rfl

/-- A report is refused for a mix of families, or because there is no room for it. -/
theorem toPacket_eq_error (h : r.toPacket source = .error e) :
    e = .familyMismatch ∨ e = .packet .tooLarge := by
  by_cases hmixed : source.family ≠ r.family ∨ ∃ record ∈ r.records, record.group.family ≠ r.family
  · exact .inl (Except.error.inj (h.symm.trans (toPacket_eq_familyMismatch_iff.mpr hmixed)))
  · push Not at hmixed
    exact .inr (tooLarge_of_toPacket hmixed.2 hmixed.1 h)

/-- A report that was written is read back if its sources are of its family, and only then. -/
theorem ofPacket_eq_ok_iff (h : r.toPacket source = .ok p) :
    ofPacket p = .ok r ↔ ∀ record ∈ r.records, ∀ s ∈ record.sources, s.family = r.family := by
  constructor
  · intro hread record hm
    exact (ofFamily_of_ofPacket hread record hm).sources
  · intro hs
    have hgroups := (families_of_toPacket h).1
    exact ofPacket_of_toPacket (fun record hm => ⟨hgroups record hm, hs record hm⟩) h

end Report

/-! ## Queries -/

namespace Query

variable {q read : Query} {e : CodecError}

/-- A query of a group and sources of its family. The group may be the unspecified address. -/
structure Uniform (q : Query) : Prop where
  group : ∀ g, q.group = some g → g.family = q.family
  sources : ∀ s ∈ q.sources, s.family = q.family

/-- The query without a group that names none. -/
def named (q : Query) : Query := { q with group := q.group.bind groupOf }

theorem groupOf_eq_some {a g : Address} (h : groupOf a = some g) :
    g = a ∧ a.isUnspecified = false := by
  unfold groupOf at h
  split at h
  · cases h
  · next hu =>
    cases h
    exact ⟨rfl, by simpa using hu⟩

theorem Uniform.ofFamily_named (h : q.Uniform) : q.named.OfFamily where
  group g hg := by
    obtain ⟨a, ha, hg⟩ := Option.bind_eq_some_iff.mp hg
    obtain ⟨rfl, hu⟩ := groupOf_eq_some hg
    exact ⟨h.group g ha, hu⟩
  sources := h.sources

/-- Naming no group and naming the unspecified address are written alike. -/
theorem Uniform.body_named (h : q.Uniform) : q.named.body = q.body := by
  have hasked : q.named.asked = q.asked := by
    unfold asked named
    cases hg : q.group with
    | none => rfl
    | some g =>
      simp only [Option.bind_some, groupOf]
      split
      · next hu => rw [Option.getD_none, ← h.group g hg, Option.getD_some,
          ← Address.eq_unspecified hu]
      · rfl
  have hheading : q.named.heading 0 0 = q.heading 0 0 := rfl
  have htail : q.named.tail = q.tail := rfl
  rw [body_eq, body_eq, hasked, hheading, htail]

theorem Uniform.toPacket_named (h : q.Uniform) :
    q.named.toPacket source destination = q.toPacket source destination := by
  have hfamily : q.named.family = q.family := rfl
  simp only [toPacket, h.body_named, hfamily]

theorem four_le_length_body (q : Query) : 4 ≤ q.body.length := by
  have hhead := q.length_heading 0 0
  rw [body_eq, List.length_append, hhead]
  cases q.family <;> simp only <;> omega

/-- Between addresses of its family a query is written, unless there is no room for it. -/
theorem toPacket_cases (hs : source.family = q.family) (hd : destination.family = q.family) :
    (∃ addresses p, addresses.source.family = q.family ∧
      overhead q.family + q.body.length ≤ maxDatagramLength ∧
      q.toPacket source destination = .ok p ∧
      p.Has addresses.source addresses.destination (protocolOf addresses.source.family) 1
        (sealed addresses q.body)) ∨
      q.toPacket source destination = .error (.packet .tooLarge) := by
  obtain ⟨addresses, hfamily, hwrap⟩ := toPacket_eq_wrap hs hd
  rcases wrap_cases addresses q.body q.four_le_length_body with ⟨hle, p, hp, hhas⟩ | ⟨-, herr⟩
  · exact .inl ⟨addresses, p, hfamily, hfamily ▸ hle, hwrap.trans hp, hhas⟩
  · exact .inr (hwrap.trans herr)

/-- The mixes of families that are refused. -/
theorem toPacket_eq_familyMismatch_iff :
    q.toPacket source destination = .error .familyMismatch ↔
      source.family ≠ q.family ∨ destination.family ≠ q.family := by
  constructor
  · intro h
    by_contra hsame
    push Not at hsame
    rcases toPacket_cases hsame.1 hsame.2 with ⟨-, p, -, -, hp, -⟩ | herr
    · cases h.symm.trans hp
    · cases h.symm.trans herr
  · intro h
    simp only [toPacket]
    split
    · next hf => simp [hf, Address.family] at h
    · next hf => simp [hf, Address.family] at h
    · rfl

theorem families_of_toPacket (h : q.toPacket source destination = .ok p) :
    source.family = q.family ∧ destination.family = q.family := by
  by_contra hmixed
  rw [not_and_or] at hmixed
  cases h.symm.trans (toPacket_eq_familyMismatch_iff.mpr hmixed)

/-- A query is refused for a mix of families, or because there is no room for it. -/
theorem toPacket_eq_error (h : q.toPacket source destination = .error e) :
    e = .familyMismatch ∨ e = .packet .tooLarge := by
  by_cases hmixed : source.family ≠ q.family ∨ destination.family ≠ q.family
  · exact .inl (Except.error.inj (h.symm.trans (toPacket_eq_familyMismatch_iff.mpr hmixed)))
  · push Not at hmixed
    rcases toPacket_cases hmixed.1 hmixed.2 with ⟨-, p, -, -, hp, -⟩ | herr
    · cases h.symm.trans hp
    · exact .inr (Except.error.inj (h.symm.trans herr))

theorem ofFamily_of_readTail {family : Family} {delay start : Nat} {a : Address} {b : Bytes}
    (ha : a.family = family) (h : readTail family delay (groupOf a) b start = .ok read) :
    read.OfFamily ∧ read.family = family := by
  simp only [readTail] at h
  split at h
  · cases h
  cases h
  refine ⟨⟨fun g hg => ?_, fun s hs => Report.family_of_mem_readAddresses hs⟩, rfl⟩
  obtain ⟨rfl, hu⟩ := groupOf_eq_some hg
  exact ⟨ha, hu⟩

/-- Whatever a query is read from, its group and its sources are of its family. -/
theorem ofFamily_of_ofPacket (h : ofPacket p = .ok read) :
    read.OfFamily ∧ read.family = p.family := by
  -- A message of an older version lists no sources.
  have hshort : ∀ (family : Family) (b : Bytes) (delay : Nat),
      OfFamily { family, maxResponseDelay := delay, group := groupOf (.read family b) } := by
    intro family b delay
    refine ⟨fun g hg => ?_, fun s hs => by cases hs⟩
    obtain ⟨rfl, hu⟩ := groupOf_eq_some hg
    exact ⟨Address.family_read family b, hu⟩
  simp only [ofPacket, bind, Except.bind] at h
  split at h
  · cases h
  split at h
  · next hf =>
    rw [hf]
    simp only [readIgmp] at h
    split at h
    · cases h
    split at h
    · cases h
      exact ⟨hshort _ _ _, rfl⟩
    · exact ofFamily_of_readTail (Address.family_read _ _) h
  · next hf =>
    rw [hf]
    simp only [readMld] at h
    split at h
    · cases h
    split at h
    · cases h
      exact ⟨hshort _ _ _, rfl⟩
    · exact ofFamily_of_readTail (Address.family_read _ _) h

/-- A query stands in its packet with its checksum. -/
theorem exists_sealed (h : q.toPacket source destination = .ok p) :
    ∃ addresses : AddressPair, addresses.source.family = q.family ∧
      overhead q.family + q.body.length ≤ maxDatagramLength ∧
      p.Has addresses.source addresses.destination (protocolOf addresses.source.family) 1
        (sealed addresses q.body) := by
  obtain ⟨hs, hd⟩ := families_of_toPacket h
  rcases toPacket_cases hs hd with ⟨addresses, p', hfamily, hle, hp, hhas⟩ | herr
  · cases h.symm.trans hp
    exact ⟨addresses, hfamily, hle, hhas⟩
  · cases h.symm.trans herr

/-- The message is found again in the packet of a query. -/
theorem unwrap_of_toPacket (h : q.toPacket source destination = .ok p) :
    ∃ addresses c₀ c₁, p.family = q.family ∧
      sealed addresses q.body = q.heading c₀ c₁ ++ (q.asked.octets ++ q.tail) ∧
      unwrap igmpType mldType p = .ok (sealed addresses q.body) := by
  obtain ⟨addresses, hfamily, -, hhas⟩ := exists_sealed h
  obtain ⟨c₀, c₁, hseal⟩ := exists_sealed_body addresses q
  have hzero : q.body.octet 2 = 0 ∧ q.body.octet 3 = 0 := by
    rw [body_eq, heading]
    cases q.family <;> exact ⟨rfl, rfl⟩
  refine ⟨addresses, c₀, c₁, hhas.family.trans hfamily, hseal,
    unwrap_of_has igmpType mldType hhas q.four_le_length_body hzero.1 hzero.2 ?_⟩
  rw [hseal, hfamily, heading]
  cases q.family <;> rfl

/-- A query that was written is read back, but for its times and its robustness. -/
theorem ofPacket_of_toPacket (hq : q.OfFamily) (h : q.toPacket source destination = .ok p) :
    ofPacket p = .ok (q.told q.toldDelay) := by
  obtain ⟨-, -, hle, -⟩ := exists_sealed h
  obtain ⟨addresses, c₀, c₁, hfamily, hseal, hunwrap⟩ := unwrap_of_toPacket h
  have hlen : q.body.length = (q.heading 0 0).length + (q.asked.octets.length + q.tail.length) := by
    rw [body_eq, List.length_append, List.length_append]
  have htail := length_tail hq
  have hcount : q.sources.length < 65536 := by
    have hwidth : 1 ≤ q.family.addressLength := by cases q.family <;> decide
    have hmax : maxDatagramLength = 65535 := rfl
    have := Nat.le_mul_of_pos_right q.sources.length hwidth
    omega
  simp only [ofPacket, hunwrap, bind, Except.bind, hfamily]
  exact read_of_heading hq hcount hseal

/-- A query of one family that was written is read back, with no group if it names none. -/
theorem Uniform.ofPacket_eq_ok (hq : q.Uniform) (h : q.toPacket source destination = .ok p) :
    ∃ read, ofPacket p = .ok read ∧ read.group = q.group.bind groupOf ∧
      read.sources = q.sources := by
  rw [← hq.toPacket_named] at h
  exact ⟨_, ofPacket_of_toPacket hq.ofFamily_named h, rfl, rfl⟩

/-- What is read back as it was written is of one family. -/
theorem uniform_of_ofPacket (h : q.toPacket source destination = .ok p)
    (hread : ofPacket p = .ok read) (hg : read.group = q.group) (hs : read.sources = q.sources) :
    q.Uniform := by
  obtain ⟨hof, hfamily⟩ := ofFamily_of_ofPacket hread
  obtain ⟨addresses, hsource, -, hhas⟩ := exists_sealed h
  rw [hhas.family, hsource] at hfamily
  exact ⟨fun g hq => hfamily ▸ (hof.group g (hg.trans hq)).1,
    fun s hm => hfamily ▸ hof.sources s (hs ▸ hm)⟩

end Query

/-! ## Both kinds of messages -/

/-- **One family or none**: a report is refused if the source of its packet or one of its groups
is of the other family, and a query if an address of its packet is; else they are written where
there is room. What was written is read back, with all its records and sources, exactly if the
sources of the records, or the group and the sources of the query, are of the family too. -/
theorem written_of_one_family_iff_read_back (r : Report) (q : Query)
    (source destination : Address) :
    ((r.toPacket source = .error .familyMismatch ↔
        source.family ≠ r.family ∨ ∃ record ∈ r.records, record.group.family ≠ r.family) ∧
      (∀ e, r.toPacket source = .error e → e = .familyMismatch ∨ e = .packet .tooLarge) ∧
      ∀ p, r.toPacket source = .ok p →
        (∀ record ∈ r.records, record.group.family = r.family) ∧
        (Report.ofPacket p = .ok r ↔
          ∀ record ∈ r.records, ∀ s ∈ record.sources, s.family = r.family)) ∧
    (q.toPacket source destination = .error .familyMismatch ↔
      source.family ≠ q.family ∨ destination.family ≠ q.family) ∧
    (∀ e, q.toPacket source destination = .error e →
      e = .familyMismatch ∨ e = .packet .tooLarge) ∧
    ∀ p, q.toPacket source destination = .ok p →
      (q.Uniform → ∃ read, Query.ofPacket p = .ok read ∧
        read.group = q.group.bind Query.groupOf ∧ read.sources = q.sources) ∧
      ∀ read, Query.ofPacket p = .ok read → read.group = q.group → read.sources = q.sources →
        q.Uniform := by
  refine ⟨⟨Report.toPacket_eq_familyMismatch_iff, fun e => Report.toPacket_eq_error,
    fun p hp => ⟨(Report.families_of_toPacket hp).1, Report.ofPacket_eq_ok_iff hp⟩⟩,
    Query.toPacket_eq_familyMismatch_iff, fun e => Query.toPacket_eq_error,
    fun p hp => ⟨fun hq => hq.ofPacket_eq_ok hp, ?_⟩⟩
  intro read hread hg hs
  exact Query.uniform_of_ofPacket hp hread hg hs

/-- The group ff3e::8000:1. -/
def wideGroup : Address :=
  .read .ipv6 [0xff, 0x3e, 0, 0, 0, 0, 0, 0, 0, 0, 0, 0, 0x80, 0, 0, 1]

/-- The address fe80::1. -/
def linkLocal : Address :=
  .read .ipv6 [0xfe, 0x80, 0, 0, 0, 0, 0, 0, 0, 0, 0, 0, 0, 0, 0, 1]

/-- A report of one source. -/
def reportOf (source : Address) : Report :=
  ⟨.ipv6, [⟨.allowNewSources, wideGroup, [source]⟩]⟩

/-- A query for a group, or for some of its sources. -/
def queryOf (group : Address) (sources : List Address) : Query :=
  { family := .ipv6, maxResponseDelay := 1000, group := some group, sources }

/-- The addresses are of one family, and both messages are read back. -/
theorem linkLocal_read_back :
    (∃ p, (reportOf linkLocal).toPacket linkLocal = .ok p ∧
      Report.ofPacket p = .ok (reportOf linkLocal)) ∧
    ∃ p read, (queryOf wideGroup [linkLocal]).toPacket linkLocal wideGroup = .ok p ∧
      Query.ofPacket p = .ok read ∧ read.group = some wideGroup ∧ read.sources = [linkLocal] := by
  obtain ⟨⟨-, -, hreport⟩, -, -, hquery⟩ := written_of_one_family_iff_read_back
    (reportOf linkLocal) (queryOf wideGroup [linkLocal]) linkLocal wideGroup
  constructor
  · cases hp : (reportOf linkLocal).toPacket linkLocal with
    | error e =>
      have hok : ((reportOf linkLocal).toPacket linkLocal).isOk = true := by decide +kernel
      rw [hp] at hok
      cases hok
    | ok p =>
      obtain ⟨-, hiff⟩ := hreport p hp
      exact ⟨p, rfl, hiff.mpr (by decide)⟩
  · cases hp : (queryOf wideGroup [linkLocal]).toPacket linkLocal wideGroup with
    | error e =>
      have hok : ((queryOf wideGroup [linkLocal]).toPacket linkLocal wideGroup).isOk = true := by
        decide +kernel
      rw [hp] at hok
      cases hok
    | ok p =>
      have hq : (queryOf wideGroup [linkLocal]).Uniform := by
        refine ⟨fun g hg => ?_, by decide⟩
        cases hg
        rfl
      obtain ⟨read, hread, hg, hs⟩ := (hquery p hp).1 hq
      exact ⟨p, read, rfl, hread, hg, hs⟩

/-- Neither message is refused for every mix of families: a report of a source of the other
family is written, and so is a query for a group of the other family. Both end too early to be
read. -/
theorem mixed_not_refused :
    (¬ ∀ (r : Report) (source : Address) (p : Packet), r.toPacket source = .ok p →
      (∀ record ∈ r.records, record.OfFamily r.family) ∧
      ∃ read, Report.ofPacket p = .ok read ∧ read.records.length = r.records.length ∧
        read.records.map (·.sources.length) = r.records.map (·.sources.length)) ∧
    ¬ ∀ (q : Query) (source destination : Address) (p : Packet),
      q.toPacket source destination = .ok p →
      q.Uniform ∧ ∃ read, Query.ofPacket p = .ok read ∧ read.sources.length = q.sources.length := by
  constructor
  · intro h
    have hread : ((reportOf (.v4 #v[198, 51, 100, 1])).toPacket linkLocal).toOption.any
        (fun p => !(Report.ofPacket p).isOk) = true := by decide +kernel
    cases hp : (reportOf (.v4 #v[198, 51, 100, 1])).toPacket linkLocal with
    | error e =>
      rw [hp] at hread
      cases hread
    | ok p =>
      obtain ⟨-, read, hok, -⟩ := h _ _ p hp
      rw [hp] at hread
      simp [hok, Except.toOption, Except.isOk, Except.toBool] at hread
  · intro h
    have hread : ((queryOf (.v4 #v[232, 1, 1, 1]) []).toPacket linkLocal
        wideGroup).toOption.any (fun p => !(Query.ofPacket p).isOk) = true := by decide +kernel
    cases hp : (queryOf (.v4 #v[232, 1, 1, 1]) []).toPacket linkLocal wideGroup with
    | error e =>
      rw [hp] at hread
      cases hread
    | ok p =>
      obtain ⟨-, read, hok, -⟩ := h _ _ _ p hp
      rw [hp] at hread
      simp [hok, Except.toOption, Except.isOk, Except.toBool] at hread

end Membership

end MulticastTunnel
