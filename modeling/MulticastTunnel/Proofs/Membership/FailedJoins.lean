import MulticastTunnel.Proofs.Membership.GeneralAnswer

/-!
# Joins that fail

A join enters what is asked for and notes the change before its report is written and
sent. When the report cannot be sent both are put back. A report that cannot be written
because it does not fit a datagram ends the join with an error as well, but then nothing
is put back: the group stays joined, and the change is reported again later on.
-/

namespace MulticastTunnel.Membership

open Ordered

variable {ω : Type}

namespace StateChange

/-- Nothing is to be told where the filter stays the same. -/
theorem between?_self (f : Option Filter) : between? f f = none := by
  simp [between?]

/-- One more source joins those that are still to be reported. -/
theorem exists_between?_insert (group : Address) {sources : Sources} {s : Address}
    (hs : s ∉ sources) :
    ∃ change, between? (some ⟨group, .including, sources⟩)
        (some ⟨group, .including, sources.insert s⟩) = some change ∧
      ∀ current, (StateChange.sources sources ∅).merge change current =
        .sources (sources.insert s) ∅ := by
  refine ⟨.sources ((sources.insert s).diff sources) (sources.diff (sources.insert s)), ?_, ?_⟩
  · have hne : sources ≠ sources.insert s := by
      intro heq
      rw [heq] at hs
      exact hs (OrderedSet.mem_insert.mpr (.inl rfl))
    simp [between?, parts, hne]
  · intro current
    show StateChange.sources _ _ = _
    congr 1
    · apply OrderedSet.ext
      intro a
      simp only [OrderedSet.mem_diff, OrderedSet.mem_union, OrderedSet.mem_insert]
      tauto
    · apply OrderedSet.ext
      intro a
      simp only [OrderedSet.mem_diff, OrderedSet.mem_union, OrderedSet.mem_insert,
        OrderedSet.not_mem_empty]
      tauto

end StateChange

namespace Reporter

variable {r : Reporter} {o : Outlet ω} {now : Nat} {group : Address} {source : Option Address}
  {w : ω}

/-- The filters, the number of groups, and what is still to be reported and how often. -/
structure Untouched (r r' : Reporter) : Prop where
  filter? : ∀ group, r'.filter? group = r.filter? group
  groupCount : r'.groupCount = r.groupCount
  changes : ∀ group, (r'.changes.get? group).map (fun p => (p.change, p.retransmissions)) =
    (r.changes.get? group).map fun p => (p.change, p.retransmissions)

theorem Untouched.refl (r : Reporter) : Untouched r r where
  filter? _ := rfl
  groupCount := rfl
  changes _ := rfl

/-- A join fails and leaves no trace, unless its report cannot be written. -/
theorem join_eq_self {e : MembershipError} (h : (r.join o now group source w).1 = .error e)
    (he : ∀ c, e ≠ .codec c) : (r.join o now group source w).2.1 = r := by
  rcases join_cases o now group source r w with ⟨-, -, -, hr⟩ | ⟨-, -, hok | ⟨c, hc⟩, -⟩
  · exact hr
  · cases hok.symm.trans h
  · cases hc.symm.trans h
    exact absurd rfl (he c)

/-- A join whose report cannot be written is entered, and gives the group another filter. -/
theorem filter?_of_join_codec {c : CodecError}
    (h : (r.join o now group source w).1 = .error (.codec c)) :
    (r.join o now group source w).2.1.filter? group =
        ((r.demand group).join source).filter? group ∧
      ((r.demand group).join source).filter? group ≠ r.filter? group := by
  rcases join_eq o now group source r w with ⟨e, he, -, heq⟩ |
    ⟨demand, hdemand, -, -, report, hrep, ⟨e, -, heq⟩ | ⟨-, heq⟩⟩
  · rw [heq] at h
    cases h
    exact absurd rfl (he c)
  · rw [heq] at h
    cases h
  rw [heq] at h ⊢
  have hjoin : (r.demand group).join source = demand := hdemand.symm
  rw [hjoin]
  constructor
  · obtain ⟨p, n, hr, -⟩ := reportChange_spec o now group (r.filter? group)
      (demand.filter? group) (r.setDemand group (some demand)) w
    rw [hrep, hr]
    show ((r.demands.set group (some demand)).get? group).bind _ = _
    rw [OrderedMap.get?_set, if_pos rfl]
    rfl
  · -- Without a change there would have been nothing to write.
    intro hsame
    rw [hrep, reportChange, hsame, StateChange.between?_self] at h
    cases h

/-- **A join that fails changes nothing, unless its report cannot be written**: then the
group stays joined with its new filter. Between addresses of one family the reason can
only be that the report does not fit a datagram. -/
theorem failed_join_untouched_iff {e : MembershipError}
    (h : (r.join o now group source w).1 = .error e) :
    let r' := (r.join o now group source w).2.1
    (Untouched r r' ↔ ∀ c, e ≠ .codec c) ∧
    ((∀ c, e ≠ .codec c) → r' = r) ∧
    ∀ c, e = .codec c →
      r'.filter? group = ((r.demand group).join source).filter? group ∧
      ((∀ v, Idle o w v → (o.localAddress v).family = r.family) → c = .packet .tooLarge) := by
  intro r'
  refine ⟨⟨?_, ?_⟩, join_eq_self h, ?_⟩
  · rintro hsame c rfl
    obtain ⟨hnew, hne⟩ := filter?_of_join_codec h
    exact hne (hnew.symm.trans (hsame.filter? group))
  · intro he
    show Untouched r (r.join o now group source w).2.1
    rw [join_eq_self h he]
    exact .refl r
  · rintro c rfl
    exact ⟨(filter?_of_join_codec h).1, fun hlocal => join_tooLarge hlocal h⟩

/-! ## A report that outgrows the datagram -/

/-- Sending fails only if the outlet does. -/
theorem sendRecords_ne_send (ho : ∀ packet w, (o.send packet w).1 = .ok .sent)
    (records : List GroupRecord) (r : Reporter) (w : ω) (e : TunnelError) :
    (r.sendRecords o records w).1 ≠ .error (.send e) := by
  unfold sendRecords
  split
  · intro h
    cases h
  split
  · intro h
    cases h
  next packet _ =>
  have hsent := ho packet w
  split
  · intro h
    cases h
  · intro h
    cases h
  · intro h
    cases h
  · next heq =>
    rw [heq] at hsent
    cases hsent

/-- One more source for a group that is joined for some, while they are still to be
reported: the report tells of all of them. -/
theorem join_of_pending {sources : Sources} {s : Address} {pending : PendingChange}
    {o : Outlet ω} (ho : ∀ packet w, (o.send packet w).1 = .ok .sent) (now : Nat) (w : ω)
    (hv : r.validate group (some s) = .ok ()) (hopen : r.closed = false)
    (hd : r.demands.get? group = some { joined := sources })
    (hc : r.changes.get? group = some pending) (hp : pending.change = .sources sources ∅)
    (hne : sources.isEmpty = false) (hs : s ∉ sources) :
    ∃ r' : Reporter, r'.family = r.family ∧
      r'.demands.get? group = some { joined := sources.insert s } ∧
      (∃ p, r'.changes.get? group = some p ∧ p.change = .sources (sources.insert s) ∅) ∧
      r.join o now group (some s) w =
        r'.sendRecords o [.ofSet .allowNewSources group (sources.insert s)] w := by
  obtain ⟨change, hbetween, hmerge⟩ := StateChange.exists_between?_insert group hs
  have hone : (sources.insert s).isEmpty = false :=
    OrderedSet.isEmpty_eq_false_iff.mpr ⟨s, OrderedSet.mem_insert.mpr (.inl rfl)⟩
  have hold : r.filter? group = some ⟨group, .including, sources⟩ := by
    simp [filter?, hd, Demand.filter?, hne]
  have hnew : ({ joined := sources.insert s } : Demand).filter? group =
      some ⟨group, .including, sources.insert s⟩ := by
    simp [Demand.filter?, hone]
  set told : PendingChange := { pending with change := .sources (sources.insert s) ∅ } with htold
  set r' : Reporter := { r.setDemand group (some { joined := sources.insert s }) with
    changes := r.changes.insert group told } with hr'
  have hreport : (r.setDemand group (some { joined := sources.insert s })).reportChange o now
      group (r.filter? group) (({ joined := sources.insert s } : Demand).filter? group) w =
        r'.sendRecords o [.ofSet .allowNewSources group (sources.insert s)] w := by
    have hc' : (r.setDemand group (some { joined := sources.insert s })).changes.get? group =
      some pending := hc
    have hrecords : (StateChange.sources (sources.insert s) ∅).records group =
        [.ofSet .allowNewSources group (sources.insert s)] := by
      simp only [StateChange.records, hone]
      rfl
    rw [reportChange, hold, hnew, hbetween]
    simp only [note, hc', hp, hmerge, hrecords]
    rfl
  refine ⟨r', rfl, ?_, ⟨told, ?_, rfl⟩, ?_⟩
  · show (r.demands.set group (some _)).get? group = _
    rw [OrderedMap.get?_set, if_pos rfl]
  · show (r.changes.insert group told).get? group = _
    rw [OrderedMap.get?_insert, if_pos rfl]
  · rcases join_eq o now group (some s) r w with ⟨e, -, hclosed | herr, -⟩ |
      ⟨demand, hdemand, -, -, report, hrep, hend⟩
    · cases hopen.symm.trans hclosed
    · cases hv.symm.trans herr
    · have hjoin : demand = { joined := sources.insert s } := by
        rw [hdemand, hd]
        rfl
      rw [hjoin, hreport] at hrep
      rcases hend with ⟨e, he, -⟩ | ⟨-, heq⟩
      · rw [hrep] at he
        exact absurd he (sendRecords_ne_send ho _ r' w e)
      · rw [heq, hrep]

namespace Run

/-- The source 2001:db8:: and those that follow it. -/
def throngSource (n : Nat) : Address :=
  .v6 #v[0x20, 0x01, 0x0d, 0xb8, 0, 0, 0, 0, 0, 0, 0, 0, 0, 0, UInt8.ofNat (n / 256), UInt8.ofNat n]

theorem throngSource_inj (m n : Nat) (hm : m < 65536) (hn : n < 65536)
    (h : throngSource m = throngSource n) : m = n := by
  have hoctets : UInt8.ofNat (m / 256) = UInt8.ofNat (n / 256) ∧ UInt8.ofNat m = UInt8.ofNat n := by
    simpa [throngSource] using h
  rw [← Bytes.toNat_ofWord16 hm, ← Bytes.toNat_ofWord16 hn, hoctets.1, hoctets.2]

def throngSources (n : Nat) : Sources := .ofList ((List.range n).map throngSource)

theorem mem_throngSources {n : Nat} {s : Address} :
    s ∈ throngSources n ↔ ∃ k < n, throngSource k = s := by
  simp [throngSources]

theorem throngSources_succ (n : Nat) :
    (throngSources n).insert (throngSource n) = throngSources (n + 1) := by
  apply OrderedSet.ext
  intro s
  simp only [throngSources, OrderedSet.mem_insert, OrderedSet.mem_ofList, List.range_succ,
    List.map_append, List.mem_append, List.map_cons, List.map_nil, List.mem_singleton]
  exact or_comm

theorem le_length_throngSources {n : Nat} (hn : n ≤ 65536) :
    n ≤ (throngSources n).toList.length := by
  have hnodup := nodup_numbered throngSource_inj hn
  have hsub : (List.range n).map throngSource ⊆ (throngSources n).toList := by
    intro s hs
    exact OrderedSet.mem_ofList.mpr hs
  simpa using (hnodup.subperm hsub).length_le

/-- A group is joined for one source after the other, and every report is sent. -/
def throng : Run Unit :=
  { crowd with act := fun n => (0, .join (crowdGroup 0) (some (throngSource n))) }

/-- The group is joined for the first `n` sources, and all of them are still to be
reported again. -/
structure Thronged (n : Nat) (r : Reporter) : Prop where
  demand : r.demands.get? (crowdGroup 0) = some { joined := throngSources n }
  pending : ∃ p, r.changes.get? (crowdGroup 0) = some p ∧ p.change = .sources (throngSources n) ∅

/-- The report of one more source tells of all of them. -/
theorem throng_join {n : Nat} (hpos : 0 < n) (hn : n < 65536)
    (h : Thronged n (throng.state n).1) (w : Unit × Log) :
    ∃ r' : Reporter, r'.family = .ipv6 ∧ Thronged (n + 1) r' ∧
      (throng.state n).1.join (crowd.outlet n).logged 0 (crowdGroup 0) (some (throngSource n)) w =
        r'.sendRecords (crowd.outlet n).logged
          [.ofSet .allowNewSources (crowdGroup 0) (throngSources (n + 1))] w := by
  obtain ⟨p, hp, hchange⟩ := h.pending
  obtain ⟨hopen, hfamily, -⟩ := throng.setup_eq n
  have hv : (throng.state n).1.validate (crowdGroup 0) (some (throngSource n)) = .ok () := by
    simp only [validate, hfamily]
    rfl
  have hne : (throngSources n).isEmpty = false :=
    OrderedSet.isEmpty_eq_false_iff.mpr ⟨throngSource 0, mem_throngSources.mpr ⟨0, hpos, rfl⟩⟩
  have hs : throngSource n ∉ throngSources n := by
    intro hm
    obtain ⟨k, hk, heq⟩ := mem_throngSources.mp hm
    exact Nat.ne_of_lt hk (throngSource_inj k n (by omega) hn heq)
  have hsends : ∀ packet w, ((crowd.outlet n).logged.send packet w).1 = .ok .sent :=
    fun _ _ => rfl
  obtain ⟨r', hf, hd, hc, heq⟩ := join_of_pending hsends 0 w hv hopen h.demand hp hchange hne hs
  rw [throngSources_succ] at hd hc heq
  exact ⟨r', hf.trans hfamily, ⟨hd, hc⟩, heq⟩

theorem Thronged.of_sendRecords {n : Nat} {r : Reporter} (h : Thronged n r) (o : Outlet ω)
    (records : List GroupRecord) (w : ω) : Thronged n (r.sendRecords o records w).2.1 := by
  obtain ⟨k, hk, -⟩ := sendRecords_spec o records r w
  rw [hk]
  exact ⟨h.demand, h.pending⟩

theorem thronged (n : Nat) (hn : n < 65536) : Thronged (n + 1) (throng.state (n + 1)).1 := by
  induction n with
  | zero =>
    constructor
    · decide +kernel
    · exact ⟨⟨.sources (throngSources 1) ∅, 1, ⟨1000, 0⟩⟩, by decide +kernel, rfl⟩
  | succ n ih =>
    obtain ⟨r', -, hnext, heq⟩ := throng_join (Nat.succ_pos n) hn (ih (by omega))
      (throng.state (n + 1)).2
    have hsent := hnext.of_sendRecords (crowd.outlet (n + 1)).logged
      [.ofSet .allowNewSources (crowdGroup 0) (throngSources (n + 2))] (throng.state (n + 1)).2
    rw [← heq] at hsent
    exact hsent

/-- A report of 4094 sources does not fit a datagram. -/
theorem throng_too_large {n : Nat} (hlow : 4094 ≤ n) (hhigh : n ≤ 65536) :
    ¬ (⟨.ipv6, [.ofSet .allowNewSources (crowdGroup 0) (throngSources n)]⟩ : Report).Fits := by
  intro hfits
  have hrecord : (GroupRecord.ofSet .allowNewSources (crowdGroup 0) (throngSources n)).OfFamily
      .ipv6 := by
    refine ⟨rfl, ?_⟩
    intro s hs
    obtain ⟨k, -, rfl⟩ := mem_throngSources.mp hs
    rfl
  have hbody := Report.length_body
    ⟨.ipv6, [.ofSet .allowNewSources (crowdGroup 0) (throngSources n)]⟩
  have hoctets : (Report.recordOctets
      (.ofSet .allowNewSources (crowdGroup 0) (throngSources n))).length =
        4 + 16 + (throngSources n).toList.length * 16 := length_recordOctets hrecord
  have hlength := le_length_throngSources hhigh
  have hsize : 8 + (⟨.ipv6, [.ofSet .allowNewSources (crowdGroup 0) (throngSources n)]⟩ :
      Report).body.length ≤ 65535 := hfits
  rw [List.flatMap_singleton, hoctets] at hbody
  omega

/-- The join of one source more is refused, and the group keeps that source. -/
theorem throng_refused {n : Nat} (hlow : 4093 ≤ n) (hhigh : n < 65536) (w : Unit × Log) :
    ((throng.state n).1.join (crowd.outlet n).logged 0 (crowdGroup 0) (some (throngSource n))
      w).1 = .error (.codec (.packet .tooLarge)) := by
  obtain ⟨m, rfl⟩ : ∃ m, n = m + 1 := ⟨n - 1, by omega⟩
  obtain ⟨r', hf, -, heq⟩ := throng_join (Nat.succ_pos m) hhigh (thronged m (by omega)) w
  have htoo : ¬ (⟨r'.family, [.ofSet .allowNewSources (crowdGroup 0) (throngSources (m + 2))]⟩ :
      Report).Fits := by
    rw [hf]
    exact throng_too_large (by omega) (by omega)
  have hlocal : ((crowd.outlet (m + 1)).logged.localAddress w).family = r'.family := hf.symm
  have hgroups : ∀ record ∈ [GroupRecord.ofSet .allowNewSources (crowdGroup 0)
      (throngSources (m + 2))], record.group.family = r'.family := by
    intro record hm
    rw [List.mem_singleton.mp hm, hf]
    rfl
  rw [heq, sendRecords, Report.toPacket_of_not_fits hgroups hlocal htoo]
  rfl

/-- An outlet that sends nothing any more. -/
def closedOutlet : Outlet Unit where
  localAddress _ := .unspecified .ipv6
  send _ w := (.error .closed, w)
  serial w := (0, w)

/-- A join that cannot be sent leaves the one source that was joined before, and its
pending change. -/
theorem throng_untouched :
    ((throng.state 1).1.join closedOutlet 0 (crowdGroup 0) none ()).1 = .error (.send .closed) ∧
      Untouched (throng.state 1).1
        ((throng.state 1).1.join closedOutlet 0 (crowdGroup 0) none ()).2.1 := by
  have herr : ((throng.state 1).1.join closedOutlet 0 (crowdGroup 0) none ()).1 =
      .error (.send .closed) := by
    decide +kernel
  refine ⟨herr, (failed_join_untouched_iff herr).1.mpr ?_⟩
  intro c
  simp

/-- After 4093 sources the next one is refused, although every outlet sends all it is
handed, and it is received all the same. -/
theorem not_untouched_of_throng :
    ¬ ∀ (run : Run Unit) (o : Outlet Unit) (group : Address) (source : Option Address)
      (e : MembershipError) (n : Nat), (∀ k, Willing (run.outlet k) run.family) →
      Willing o run.family →
      ((run.state n).1.join o.logged 0 group source (run.state n).2).1 = .error e →
      Untouched (run.state n).1
        ((run.state n).1.join o.logged 0 group source (run.state n).2).2.1 := by
  intro h
  generalize hn : 4093 = n
  have herr := throng_refused (n := n) (by omega) (by omega) (throng.state n).2
  have hsame := h throng (crowd.outlet n) (crowdGroup 0) (some (throngSource n)) _ n crowd_willing
    (crowd_willing n) herr
  obtain ⟨hnew, hne⟩ := filter?_of_join_codec herr
  exact hne (hnew.symm.trans (hsame.filter? _))

end Run

end Reporter

end MulticastTunnel.Membership
